import MTower.Cryp.GetAttr
import MTower.Lib.Words
import MTower.Oper.Handles

/-!
# The address of an account

`ecdsa_to_bitaddr` reads the public point of a key pair object into two buffers of 32 bytes, one
behind the other, and converts them word by word on a little endian machine.  The two reads share
the variable that holds the size of the buffer.

* `teeGetObjectBufferAttribute`  the library call;
* `ecdsaToBitaddr`     the function up to the address in bytes;
* `getObjectBufferAttribute_number`  what the call gives for a number;
* `converts_iff`       when the conversion of one coordinate is its encoding;
* `ecdsaToBitaddr_iff` when the bytes that are hashed are the encoding of the point.
-/

set_option linter.unusedVariables false

namespace MTower.Wallet
open Lib Lib.Fields Cryp Oper

/-! ## the function -/

def teeGetObjectBufferAttribute (e : BignumWriter) (object attributeID size : Nat) : O ToUser := do
  let info ← sys (Oper.uteeCrypObjGetInfo object)
  let r ← if info.1 ≠ Kernel.teeSuccess then pure (info.1, size, [])
    else if attributeID &&& teeAttrBitValue ≠ 0 then pure (Kernel.teeErrorBadParameters, size, [])
    else do
      let r ← sys (uteeCrypObjGetAttr e object attributeID size)
      pure (r.1, r.2.1 % 2 ^ 32, r.2.2)
  let res ← leave [Kernel.teeSuccess, Kernel.teeErrorItemNotFound, Cryp.teeErrorShortBuffer,
    teeErrorCorruptObject, teeErrorStorageNotAvailable] r.1
  pure (res, r.2)

def bcVersionByte : UInt8 := 0x04

/-- SHA-256, and RIPEMD-160 -/
structure Hashes where
  sha256 : List UInt8 → List.Vector UInt8 32
  ripemd160 : List UInt8 → List.Vector UInt8 20

/-- the bytes of the first hash, and `extripe` -/
structure BitAddr where
  extkey : List UInt8
  extripe : List UInt8

/-- `pubkey[i]`, little endian, and the four bytes the loop makes of it -/
def convertWord (pubkey : Nat → UInt8) (i : Nat) : List UInt8 :=
  let w := number (bytesAt pubkey (4 * i) 4).reverse
  [UInt8.ofNat (w >>> 24 &&& 0xFF), UInt8.ofNat (w >>> 16 &&& 0xFF),
    UInt8.ofNat (w >>> 8 &&& 0xFF), UInt8.ofNat (w &&& 0xFF)]

/-- the buffers `pubX` and `pubY`, copied behind one another -/
def pubkeyOf (x y : List UInt8) : Nat → UInt8 :=
  let pubX := blit (fun _ => 0) 0 x
  let pubY := blit (fun _ => 0) 0 y
  blit (blit (fun _ => 0) 0 (bytesAt pubX 0 32)) 32 (bytesAt pubY 0 32)

def extkeyOf (pubkey : Nat → UInt8) : List UInt8 :=
  bcVersionByte :: (List.range 16).flatMap (convertWord pubkey)

def bitAddrOf (h : Hashes) (net : UInt8) (extkey : List UInt8) : BitAddr :=
  let extripe := net :: (h.ripemd160 (h.sha256 extkey).toList).toList
  let shahash := h.sha256 (h.sha256 extripe).toList
  ⟨extkey, extripe ++ shahash.toList.take 4⟩

/-- the results of the two reads are only printed -/
def ecdsaToBitaddr (e : BignumWriter) (h : Hashes) (obj : Nat) (net : UInt8) : O BitAddr := do
  let x ← teeGetObjectBufferAttribute e obj teeAttrEccPublicValueX 32
  let y ← teeGetObjectBufferAttribute e obj teeAttrEccPublicValueY x.2.1
  pure (bitAddrOf h net (extkeyOf (pubkeyOf x.2.2 y.2.2)))

/-! ## the key pair -/

/-- `crypto_bignum_bn2bin` writes no zero in front -/
structure Minimal (e : BignumWriter) : Prop extends e.Writes where
  head : ∀ v, (e.bn2bin v).head? ≠ some 0

/-- a key pair object that is ready and has the public point `(vx, vy)` -/
structure KeyPair (u : Utc) (a vx vy : Nat) (o : TeeObj) : Prop where
  obj : u.obj a = some o
  type : o.info.objectType = teeTypeEcdsaKeypair
  ready : o.info.has teeHandleFlagInitialized = true
  hasX : o.haveAttrs.testBit 1 = true
  hasY : o.haveAttrs.testBit 2 = true
  x : Cryp.Entry u o.attr a ⟨teeAttrEccPublicValueX, teeTypeAttrRequired, .bignum, .x⟩ (.number vx)
  y : Cryp.Entry u o.attr a ⟨teeAttrEccPublicValueY, teeTypeAttrRequired, .bignum, .y⟩ (.number vy)

/-- the standard encoding of a point -/
def pointOctets (vx vy : Nat) : List UInt8 := 0x04 :: (beBytes 32 vx ++ beBytes 32 vy)

/-- what the conversion makes of the octets of a number is the number in 32 octets: no octet is
moved, or every word is as many zeros as the number has in front and a palindrome -/
def Converts (v : Nat) : Prop :=
  v = 0 ∨ leadingZeros (beBytes 32 v) ≤ 3 ∧
    ∀ g ∈ words (beBytes 32 v), MirrorsAfter (leadingZeros (beBytes 32 v)) g

section
variable {p : Provider} {e : BignumWriter} {s : Sys} {a vx vy n id i : Nat} {o : TeeObj}
  {ta : TypeAttr}

/-! ## reading a number -/

/-- what the call gives for a number that is there -/
def answer (e : BignumWriter) (v n : Nat) : ToUser :=
  if n < (e.bn2bin v).length then (Cryp.teeErrorShortBuffer, (e.bn2bin v).length, [])
  else (Kernel.teeSuccess, (e.bn2bin v).length, e.bn2bin v)

theorem getObjectBufferAttribute_number {v : Nat} (hc : Core p s.utc) (he : e.Writes)
    (hk : KeyPair s.utc a vx vy o) (hid : teeSvcCrypObjFindTypeAttrIdx id eccKeypairProp = some i)
    (hta : eccKeypairProp.typeAttrs[i]? = some ta) (hops : ta.opsIndex = .bignum)
    (hhas : o.haveAttrs.testBit i = true) (hprot : id &&& teeAttrBitProtected ≠ 0)
    (hval : ¬ id &&& teeAttrBitValue ≠ 0) (hv : Cryp.Entry s.utc o.attr a ta (.number v))
    (hlen : (e.bn2bin v).length < 2 ^ 32) :
    wp (teeGetObjectBufferAttribute e a id n) (fun r t => t = s ∧ r = answer e v n) s := by
  have hmem : a ∈ s.utc.objects := (hc.objMem a).mpr (by rw [hk.obj]; rfl)
  have hblock := Utc.obj_iff.mp hk.obj
  have hready : ¬ ((!o.info.has teeHandleFlagInitialized) = true) := by simp [hk.ready]
  have hprops : teeSvcFindTypeProps o.info.objectType = some eccKeypairProp := by
    rw [hk.type]
    rfl
  have hbit : ¬ o.haveAttrs &&& 1 <<< i = 0 := Bits.and_bit.mpr hhas
  have hread : wp (uteeCrypObjGetAttr e a id n) (fun r t => t = s.utc ∧ r = answer e v n) s.utc := by
    rw [uteeCrypObjGetAttr, wp_bind, wp_teeObjGet hc, if_pos hmem, if_neg (not_not.mpr rfl), wp_bind,
      wp_objAt hblock, if_neg hready, if_neg fun h => hprot h.1, hprops]
    dsimp only
    rw [hid]
    dsimp only
    rw [if_neg hbit, hta]
    dsimp only
    rw [attrToUser, hops]
    generalize hval : AttrValue.number v = value at hv
    cases hv with
    | secret ops raw block le length => cases hval
    | word ops raw block => cases hval
    | @number y bn w ops block get bignum =>
      cases hval
      exact opAttrBignumToUser_eq he block get bignum
  have hanswer : (answer e v n).1 ∈ [Kernel.teeSuccess, Kernel.teeErrorItemNotFound,
      Cryp.teeErrorShortBuffer, teeErrorCorruptObject, teeErrorStorageNotAvailable] ∧
      ((answer e v n).1, (answer e v n).2.1 % 2 ^ 32, (answer e v n).2.2) = answer e v n := by
    rw [answer]
    by_cases hs : n < (e.bn2bin v).length
    · rw [if_pos hs]
      exact ⟨List.mem_of_getElem? (i := 2) rfl, by rw [Nat.mod_eq_of_lt hlen]⟩
    · rw [if_neg hs]
      exact ⟨List.mem_of_getElem? (i := 0) rfl, by rw [Nat.mod_eq_of_lt hlen]⟩
  rw [teeGetObjectBufferAttribute, wp_bind, wp_sys, Oper.uteeCrypObjGetInfo, wp_bind,
    wp_teeObjGet hc, if_pos hmem, if_neg (not_not.mpr rfl), wp_bind, wp_objAt hblock, wp_pure,
    if_neg (not_not.mpr rfl), if_neg hval, wp_bind, wp_sys]
  apply wp_mono hread
  rintro r t ⟨rfl, rfl⟩
  rw [wp_bind, wp_pure, wp_bind, leave, if_pos hanswer.1, wp_pure, wp_pure]
  exact ⟨rfl, hanswer.2⟩

end

/-! ## the conversion -/

/-- the buffer is the octets and zeros behind them -/
theorem bytesAt_filled {l : List UInt8} (hl : l.length ≤ 32) :
    bytesAt (blit (fun _ => 0) 0 l) 0 32 = l ++ List.replicate (32 - l.length) 0 := by
  apply List.ext_getElem
  · rw [length_bytesAt, List.length_append, List.length_replicate]
    omega
  · intro i hi hi'
    rw [length_bytesAt] at hi
    simp only [bytesAt, List.getElem_map, List.getElem_range, Nat.zero_add]
    by_cases hin : i < l.length
    · rw [List.getElem_append_left hin, blit, if_pos ⟨Nat.zero_le i, by omega⟩, Nat.sub_zero,
        List.getD_eq_getElem _ _ hin]
    · rw [List.getElem_append_right (by omega), List.getElem_replicate]
      exact blit_out (Or.inr (by omega))

theorem bytesAt_pubkeyOf (x y : List UInt8) :
    bytesAt (pubkeyOf x y) 0 64 =
      bytesAt (blit (fun _ => 0) 0 x) 0 32 ++ bytesAt (blit (fun _ => 0) 0 y) 0 32 := by
  have hx := length_bytesAt (blit (fun _ => 0) 0 x) 0 32
  have hy := length_bytesAt (blit (fun _ => 0) 0 y) 0 32
  have happ := blit_append (fun _ => 0) 0 (bytesAt (blit (fun _ => 0) 0 x) 0 32)
    (bytesAt (blit (fun _ => 0) 0 y) 0 32)
  rw [hx, Nat.zero_add] at happ
  rw [pubkeyOf, ← happ]
  generalize hl : bytesAt (blit (fun _ => 0) 0 x) 0 32 ++ bytesAt (blit (fun _ => 0) 0 y) 0 32 = l
  have hlen : l.length = 64 := by rw [← hl, List.length_append, hx, hy]
  apply List.ext_getElem
  · rw [length_bytesAt, hlen]
  · intro i hi hi'
    simp only [bytesAt, List.getElem_map, List.getElem_range, Nat.zero_add]
    rw [blit, if_pos ⟨Nat.zero_le i, by omega⟩, Nat.sub_zero, List.getD_eq_getElem _ _ hi']

/-- a little endian word, written big endian, is turned round -/
theorem convertWord_eq (d : Nat → UInt8) (i : Nat) :
    convertWord d i = (bytesAt d (4 * i) 4).reverse := by
  have hlen : (bytesAt d (4 * i) 4).reverse.length = 4 := by
    rw [List.length_reverse, length_bytesAt]
  have hbytes := beBytes_number (bytesAt d (4 * i) 4).reverse
  rw [hlen] at hbytes
  rw [convertWord]
  generalize number (bytesAt d (4 * i) 4).reverse = w at hbytes
  rw [← hbytes]
  have hmask : ∀ k, UInt8.ofNat (w >>> k &&& 0xFF) = UInt8.ofNat (w / 2 ^ k) := by
    intro k
    apply UInt8.toNat_inj.mp
    rw [UInt8.toNat_ofNat', UInt8.toNat_ofNat', Nat.shiftRight_eq_div_pow]
    have h : w / 2 ^ k &&& 0xFF = w / 2 ^ k % 256 := Nat.and_two_pow_sub_one_eq_mod _ 8
    rw [h, Nat.mod_mod]
  have h0 := hmask 0
  rw [Nat.shiftRight_zero, Nat.pow_zero, Nat.div_one] at h0
  rw [hmask, hmask, hmask, h0]
  simp only [beBytes, Nat.div_div_eq_div_mul, List.nil_append, List.cons_append]
  rfl

theorem extkeyOf_eq (x y : List UInt8) :
    extkeyOf (pubkeyOf x y) = 0x04 :: (swapWords (bytesAt (blit (fun _ => 0) 0 x) 0 32) ++
      swapWords (bytesAt (blit (fun _ => 0) 0 y) 0 32)) := by
  have h32 : (bytesAt (blit (fun _ => 0) 0 x) 0 32).length = 4 * 8 := length_bytesAt _ _ _
  rw [← swapWords_append _ _ h32, ← bytesAt_pubkeyOf]
  have hloop := swapWords_bytesAt (pubkeyOf x y) 0 16
  simp only [Nat.zero_add] at hloop
  rw [hloop, extkeyOf, bcVersionByte, funext (convertWord_eq _)]

/-- **One coordinate.** -/
theorem converts_iff {l : List UInt8} (hhead : l.head? ≠ some 0) (hlt : number l < 256 ^ 32) :
    swapWords (bytesAt (blit (fun _ => 0) 0 l) 0 32) = beBytes 32 (number l) ↔
      Converts (number l) := by
  have hle := length_le_of_number hhead hlt
  have hpad := beBytes_pad hhead hlt
  have hlz := leadingZeros_pad hhead (32 - l.length)
  generalize hz : 32 - l.length = z at hpad hlz
  -- the buffer is the encoding, moved to the left by `z` octets
  have hbuf : bytesAt (blit (fun _ => 0) 0 l) 0 32 =
      (beBytes 32 (number l) ++ List.replicate z 0).drop z := by
    have hdrop : (List.replicate z 0 ++ (l ++ List.replicate z 0)).drop z
        = l ++ List.replicate z 0 := List.drop_left' List.length_replicate
    rw [bytesAt_filled hle, hz, hpad, List.append_assoc, hdrop]
  rw [Converts, hpad, hlz, ← hpad, hbuf]
  have hlen : (beBytes 32 (number l)).length = 4 * 8 := length_beBytes 32 _
  by_cases h0 : l = []
  · -- zero: nothing is moved
    have hnum : number l = 0 := by rw [h0]; rfl
    have hz32 : z = 32 := by rw [← hz, h0]; rfl
    refine iff_of_true ?_ (Or.inl hnum)
    rw [hnum, hz32]
    decide
  have hnz : number l ≠ 0 := by
    intro hnum
    have hlen0 := length_le_of_number (k := 0) hhead (by rw [hnum]; exact Nat.one_pos)
    exact h0 (List.eq_nil_of_length_eq_zero (Nat.le_zero.mp hlen0))
  rw [or_iff_right hnz]
  by_cases h3 : z ≤ 3
  · rw [and_iff_right h3]
    apply swapWords_shifted (by omega) hlen
    rw [hpad, List.append_assoc, List.take_left' List.length_replicate]
  · -- the first octet stays in the first word, where the encoding has zeros
    refine iff_of_false ?_ fun h => h3 h.1
    intro heq
    have hdrop : (beBytes 32 (number l) ++ List.replicate z 0).drop z = l ++ List.replicate z 0 := by
      rw [hpad, List.append_assoc, List.drop_left' List.length_replicate]
    rw [hdrop, hpad] at heq
    have hlong : 4 ≤ (l ++ List.replicate z 0).length := by
      rw [List.length_append, List.length_replicate]
      omega
    obtain ⟨k, rfl⟩ : ∃ k, z = k + 4 := ⟨z - 4, by omega⟩
    cases l with
    | nil => exact h0 rfl
    | cons b l =>
      rw [List.cons_append] at heq hlong
      have hb := head_of_swapWords (Nat.le_of_succ_le_succ hlong) heq
      exact hhead (by rw [hb]; rfl)

/-! ## the address -/

/-- a number has as many octets as are left behind the zeros of its encoding -/
theorem length_bn2bin {e : BignumWriter} (he : Minimal e) {v : Nat} (hv : v < 2 ^ 256) :
    (e.bn2bin v).length + leadingZeros (beBytes 32 v) = 32 := by
  have hlt : number (e.bn2bin v) < 256 ^ 32 := by
    rw [he.number]
    exact hv
  have hle := length_le_of_number (he.head v) hlt
  have hpad := beBytes_pad (he.head v) hlt
  rw [he.number] at hpad
  rw [hpad, leadingZeros_pad (he.head v)]
  omega

section
variable {p : Provider} {e : BignumWriter} {s : Sys} {a vx vy : Nat} {o : TeeObj}

/-- what is read: the second coordinate only when it is not longer than the first -/
theorem ecdsaToBitaddr_eq (h : Hashes) (net : UInt8) (hc : Core p s.utc) (he : Minimal e)
    (hk : KeyPair s.utc a vx vy o) (hx : vx < 2 ^ 256) (hy : vy < 2 ^ 256) :
    wp (ecdsaToBitaddr e h a net) (fun r _ => r = bitAddrOf h net (extkeyOf
      (pubkeyOf (e.bn2bin vx) (answer e vy (e.bn2bin vx).length).2.2))) s := by
  have hlx := length_bn2bin he hx
  have hly := length_bn2bin he hy
  have hsize : answer e vx 32 = (Kernel.teeSuccess, (e.bn2bin vx).length, e.bn2bin vx) :=
    if_neg (by omega)
  rw [ecdsaToBitaddr, wp_bind]
  apply wp_mono (getObjectBufferAttribute_number hc he.toWrites hk (i := 1) (by decide) rfl rfl
    hk.hasX (by decide) (by decide) hk.x (by omega))
  rintro r t ⟨rfl, rfl⟩
  rw [hsize, wp_bind]
  apply wp_mono (getObjectBufferAttribute_number hc he.toWrites hk (i := 2) (by decide) rfl rfl
    hk.hasY (by decide) (by decide) hk.y (by omega))
  rintro r t ⟨rfl, rfl⟩
  rfl

theorem extkey_iff (he : Minimal e) (hx : vx < 2 ^ 256) (hy : vy < 2 ^ 256) :
    extkeyOf (pubkeyOf (e.bn2bin vx) (answer e vy (e.bn2bin vx).length).2.2) = pointOctets vx vy ↔
      leadingZeros (beBytes 32 vx) ≤ leadingZeros (beBytes 32 vy) ∧ Converts vx ∧ Converts vy := by
  have hlx := length_bn2bin he hx
  have hly := length_bn2bin he hy
  have hone : ∀ v, v < 2 ^ 256 → (swapWords (bytesAt (blit (fun _ => 0) 0 (e.bn2bin v)) 0 32) =
      beBytes 32 v ↔ Converts v) := by
    intro v hv
    have hconv := converts_iff (l := e.bn2bin v) (he.head v) (by rw [he.number]; exact hv)
    rwa [he.number] at hconv
  have hlen : ∀ d, (swapWords (bytesAt d 0 32)).length = 32 := fun d =>
    length_swapWords (n := 8) (length_bytesAt d 0 32)
  have hsplit : ∀ d d' : Nat → UInt8,
      ((0x04 : UInt8) :: (swapWords (bytesAt d 0 32) ++ swapWords (bytesAt d' 0 32)) =
        pointOctets vx vy) ↔
      swapWords (bytesAt d 0 32) = beBytes 32 vx ∧ swapWords (bytesAt d' 0 32) = beBytes 32 vy := by
    intro d d'
    rw [pointOctets, List.cons.injEq, and_iff_right rfl]
    constructor
    · exact fun heq => List.append_inj heq (by rw [hlen, length_beBytes])
    · exact fun heq => by rw [heq.1, heq.2]
  rw [extkeyOf_eq, hsplit, hone vx hx]
  by_cases hle : leadingZeros (beBytes 32 vx) ≤ leadingZeros (beBytes 32 vy)
  · have hread : answer e vy (e.bn2bin vx).length =
        (Kernel.teeSuccess, (e.bn2bin vy).length, e.bn2bin vy) := if_neg (by omega)
    rw [hread, hone vy hy, and_iff_right hle]
  · -- the second coordinate is not read, and it is not zero
    have hshort : answer e vy (e.bn2bin vx).length =
        (Cryp.teeErrorShortBuffer, (e.bn2bin vy).length, []) := if_pos (by omega)
    rw [hshort]
    refine iff_of_false ?_ fun h => hle h.1
    rintro ⟨-, hzero⟩
    have hbytes : beBytes 32 vy = beBytes 32 0 := by
      rw [← hzero]
      show swapWords (bytesAt (blit (fun _ => 0) 0 []) 0 32) = beBytes 32 0
      decide
    have hlt : vy < 256 ^ 32 := hy
    have hvy : vy = 0 := by
      have hnum := congrArg number hbytes
      rwa [number_beBytes, number_beBytes, Nat.mod_eq_of_lt hlt, Nat.zero_mod] at hnum
    subst hvy
    have h32 : leadingZeros (beBytes 32 0) = 32 := by decide
    omega

end

/-- **The bytes that are hashed.**  They are the encoding of the point when the second coordinate
is not longer than the first and the conversion keeps the octets of both. -/
theorem ecdsaToBitaddr_iff {p : Provider} {e : BignumWriter} {s : Sys} {a vx vy : Nat} {o : TeeObj}
    {h : Hashes} {net : UInt8} (hc : Core p s.utc) (he : Minimal e) (hk : KeyPair s.utc a vx vy o)
    (hx : vx < 2 ^ 256) (hy : vy < 2 ^ 256) :
    wp (ecdsaToBitaddr e h a net) (fun r _ => r.extkey = pointOctets vx vy) s ↔
      leadingZeros (beBytes 32 vx) ≤ leadingZeros (beBytes 32 vy) ∧ Converts vx ∧ Converts vy := by
  obtain ⟨r, t, hrun, rfl⟩ := wp_iff.mp (ecdsaToBitaddr_eq h net hc he hk hx hy)
  rw [wp_of_eq hrun, ← extkey_iff he hx hy]
  rfl

/-- populate makes such a key pair -/
theorem populate_keyPair {p : Provider} {u : Utc} {a : Nat} {x : TeeObj} {mem : Nat → UInt8}
    {l : List UteeAttribute} {ex ey : TeeAttribute} (hc : Core p u) (hp : p.Reads)
    (hx : u.obj a = some x) (htype : x.info.objectType = teeTypeEcdsaKeypair)
    (husage : x.info.objectUsage &&& teeUsageExtractable ≠ 0)
    (hex : ex ∈ copyInAttrs l) (hexId : ex.attributeID = teeAttrEccPublicValueX)
    (hey : ey ∈ copyInAttrs l) (heyId : ey.attributeID = teeAttrEccPublicValueY) :
    wp (uteeCrypObjPopulate p mem a l) (fun r t => Core p t ∧ (r = Kernel.teeSuccess → ∃ o,
      KeyPair t a (number (ex.buffer mem)) (number (ey.buffer mem)) o)) u := by
  have htp : teeSvcFindTypeProps x.info.objectType = some eccKeypairProp := by
    rw [htype]
    rfl
  apply wp_mono (populate_supplied hc hp hx htp husage)
  rintro r t ⟨hct, -, hsup⟩
  refine ⟨hct, fun hr => ?_⟩
  obtain ⟨-, o, hs, hty⟩ := hsup hr
  have hix : teeSvcCrypObjFindTypeAttrIdx ex.attributeID eccKeypairProp = some 1 := by
    rw [hexId]
    decide
  have hiy : teeSvcCrypObjFindTypeAttrIdx ey.attributeID eccKeypairProp = some 2 := by
    rw [heyId]
    decide
  exact ⟨o, {
    obj := hs.obj
    type := hty.trans htype
    ready := hs.ready
    hasX := (hs.mask 1).mpr ⟨ex, hex, hix⟩
    hasY := (hs.mask 2).mpr ⟨ey, hey, hiy⟩
    x := hs.filled ex hex 1 _ hix rfl
    y := hs.filled ey hey 2 _ hiy rfl }⟩

/-! ## samples -/

/-- the memory of the TA: the coordinates, and a private value -/
def pointMem (vx vy i : Nat) : UInt8 := (beBytes 32 vx ++ beBytes 32 vy).getD i 1

def pointAttrs : List UteeAttribute :=
  [⟨64, 1, teeAttrEccPrivateValue⟩, ⟨0, 32, teeAttrEccPublicValueX⟩,
    ⟨32, 32, teeAttrEccPublicValueY⟩, ⟨3, 4, teeAttrEccCurve⟩]

def pointState (vx vy : Nat) : Utc :=
  match uteeCrypObjPopulate bigEndianProvider (pointMem vx vy) 0x1000 pointAttrs keypairState with
  | .ok (_, u) => u
  | .error _ => keypairState

theorem pointState_eq (vx vy : Nat) :
    uteeCrypObjPopulate bigEndianProvider (pointMem vx vy) 0x1000 pointAttrs keypairState =
      .ok (Kernel.teeSuccess, pointState vx vy) := by rfl

/-- a reference to octets that stand in the memory -/
theorem buffer_ref {id : Nat} (mem : Nat → UInt8) (addr : Nat) (l : List UInt8)
    (hid : ¬ id &&& teeAttrBitValue ≠ 0) (hmem : ∀ i, i < l.length → mem (addr + i) = l.getD i 0) :
    TeeAttribute.buffer mem ⟨id, (addr, l.length)⟩ = l := by
  rw [TeeAttribute.buffer, if_neg hid]
  apply List.ext_getElem
  · rw [List.length_map, List.length_range]
  · intro i hi hi'
    rw [List.getElem_map, List.getElem_range, hmem i hi', List.getD_eq_getElem _ _ hi']

theorem number_pointMem {vx vy id addr v : Nat} (hid : ¬ id &&& teeAttrBitValue ≠ 0)
    (hv : v < 2 ^ 256) (hmem : ∀ i, i < 32 → pointMem vx vy (addr + i) = (beBytes 32 v).getD i 0) :
    number (TeeAttribute.buffer (pointMem vx vy) ⟨id, (addr, 32)⟩) = v := by
  have href := buffer_ref (pointMem vx vy) addr (beBytes 32 v) hid
  rw [length_beBytes] at href
  rw [href hmem, number_beBytes]
  exact Nat.mod_eq_of_lt hv

theorem pointState_spec {vx vy : Nat} (hx : vx < 2 ^ 256) (hy : vy < 2 ^ 256) :
    Core bigEndianProvider (pointState vx vy) ∧ ∃ o, KeyPair (pointState vx vy) 0x1000 vx vy o := by
  have hlx := length_beBytes 32 vx
  have hly := length_beBytes 32 vy
  have hnx : number (TeeAttribute.buffer (pointMem vx vy) ⟨teeAttrEccPublicValueX, (0, 32)⟩) = vx := by
    apply number_pointMem (by decide) hx
    intro i hi
    rw [pointMem, Nat.zero_add, List.getD_append _ _ _ _ (by omega), List.getD_eq_getElem _ _ (by omega),
      List.getD_eq_getElem _ _ (by omega)]
  have hny : number (TeeAttribute.buffer (pointMem vx vy) ⟨teeAttrEccPublicValueY, (32, 32)⟩) = vy := by
    apply number_pointMem (by decide) hy
    intro i hi
    rw [pointMem, List.getD_append_right _ _ _ _ (by omega), hlx, Nat.add_sub_cancel_left,
      List.getD_eq_getElem _ _ (by omega), List.getD_eq_getElem _ _ (by omega)]
  obtain ⟨hct, hkey⟩ := (wp_of_eq (pointState_eq vx vy)).mp (populate_keyPair
    (keypairState_core _) bigEndianProvider_reads keypairState_obj rfl (by decide)
    (List.mem_of_getElem? (i := 1) rfl) rfl (List.mem_of_getElem? (i := 2) rfl) rfl)
  rw [hnx, hny] at hkey
  exact ⟨hct, hkey rfl⟩

theorem digitsWriter_minimal : Minimal digitsWriter where
  toWrites := digitsWriter_writes
  head := by
    intro v hv
    change ((Nat.digits 256 v).map UInt8.ofNat).reverse.head? = some 0 at hv
    have hne : Nat.digits 256 v ≠ [] := by
      intro h
      rw [h] at hv
      cases hv
    have hlast := Nat.getLast_digit_ne_zero 256 (m := v) (by
      intro h
      exact hne (by rw [h, Nat.digits_zero]))
    have hlt : (Nat.digits 256 v).getLast hne < 256 :=
      Nat.digits_lt_base (by decide) (List.getLast_mem hne)
    rw [List.head?_reverse, List.getLast?_map, List.getLast?_eq_some_getLast hne,
      Option.map_some, Option.some.injEq] at hv
    have h0 := congrArg UInt8.toNat hv
    rw [UInt8.toNat_ofNat', Nat.mod_eq_of_lt hlt] at h0
    exact hlast h0

def sampleHashes : Hashes := ⟨fun _ => List.Vector.replicate 32 0, fun _ => List.Vector.replicate 20 0⟩

/-- the point of the private key `1`, on secp256k1 -/
def generatorX : Nat := 0x79BE667EF9DCBBAC55A06295CE870B07029BFCDB2DCE28D959F2815B16F81798
def generatorY : Nat := 0x483ADA7726A3C4655DA4FBFC0E1108A8FD17B448A68554199C47D08FFB10D4B8

theorem generator_converts : ¬ Converts generatorX := by
  rw [Converts]
  decide

/-- **The octets of the generator are turned round**, word by word. -/
theorem ecdsaToBitaddr_fails : ¬ ∀ (p : Provider) (e : BignumWriter) (s : Sys) (a vx vy : Nat)
    (o : TeeObj) (h : Hashes) (net : UInt8), Core p s.utc → Minimal e → KeyPair s.utc a vx vy o →
    vx < 2 ^ 256 → vy < 2 ^ 256 →
    wp (ecdsaToBitaddr e h a net) (fun r _ => r.extkey = pointOctets vx vy) s := by
  intro hall
  have hx : generatorX < 2 ^ 256 := by decide
  have hy : generatorY < 2 ^ 256 := by decide
  obtain ⟨hc, o, hk⟩ := pointState_spec hx hy
  generalize pointState generatorX generatorY = u at hc hk
  generalize generatorY = vy at hy hk
  have hno := generator_converts
  generalize generatorX = vx at hx hk hno
  have hwp := hall bigEndianProvider digitsWriter (Sys.start u Cryp.sampleAnswers) 0x1000 vx vy o sampleHashes 0x6f hc
    digitsWriter_minimal hk hx hy
  obtain ⟨r, t, hrun, rfl⟩ := wp_iff.mp (ecdsaToBitaddr_eq (s := Sys.start u Cryp.sampleAnswers) sampleHashes 0x6f hc
    digitsWriter_minimal hk hx hy)
  exact hno ((extkey_iff digitsWriter_minimal hx hy).mp ((wp_of_eq hrun).mp hwp)).2.1

/-- octets that are all the same -/
def onesX : Nat := 0x0101010101010101010101010101010101010101010101010101010101010101

theorem ecdsaToBitaddr_iff_ones :
    wp (ecdsaToBitaddr digitsWriter sampleHashes 0x1000 0x6f)
      (fun r _ => r.extkey = pointOctets onesX onesX) (Sys.start (pointState onesX onesX) Cryp.sampleAnswers) := by
  have hx : onesX < 2 ^ 256 := by decide
  have hconv : Converts onesX := by
    rw [Converts]
    decide
  obtain ⟨hc, o, hk⟩ := pointState_spec hx hx
  exact (ecdsaToBitaddr_iff (s := Sys.start (pointState onesX onesX) Cryp.sampleAnswers) hc digitsWriter_minimal hk hx hx).mpr
    ⟨Nat.le_refl _, hconv, hconv⟩

end MTower.Wallet
