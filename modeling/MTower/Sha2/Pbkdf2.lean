import MTower.Sha2.Hmac

/-!
# Keys derived from passwords

The iterated keyed digests of a password.  Both blocks of its key are transformed once, at the start;
an iteration takes two transforms of a block that already ends with its padding.

* `pbkdf2Init`, `pbkdf2Update`, `pbkdf2Final`, `pbkdf2`   the functions, over the members of the family;
* `Standard.U`, `Standard.T`   the iterated keyed digests, and their exclusive or;
* `step_digest`       two transforms are a keyed digest;
* `Derives`           what a context says after some iterations, `derives_init`, `derives_update`;
* `pbkdf2_of_updates`, `pbkdf2_key`   the keys, with a context and in one call.
-/

set_option linter.unusedVariables false

namespace MTower.Sha2

open Lib.Fields Lib.Iterated Lib.WordBytes

/-! ## the functions -/

/-- what a member of the family has of its own -/
structure Kdf (w : Nat) (C : Type) where
  sha : Member w C
  digestLength : Nat
  opad : BitVec w
  ipad : BitVec w
  /-- the first word of the padding -/
  mark : BitVec w
  /-- the bit count behind a block -/
  bitcount : C

structure Pbkdf2Context (w : Nat) where
  odig : List (BitVec w)
  idig : List (BitVec w)
  f : List (BitVec w)
  g : List (BitVec w)
  first : Nat

section
variable {w : Nat} {C : Type} (k : Kdf w C)

/-- the number of words of a digest -/
def Kdf.words : Nat := k.digestLength / (w / 8)

/-- the block `g` when the digest at its start is not written yet -/
def Kdf.padded : List (BitVec w) :=
  ((List.replicate 16 0).set 8 k.mark).set 15
    (BitVec.ofNat w ((k.sha.blockLength + k.digestLength) * 8))

/-- the buffer of the local context is not initialized: `junk` is what it holds -/
def pbkdf2Init (junk : List (BitVec w)) (pass salt : List UInt8) (blocknr : BitVec 32) :
    Pbkdf2Context w :=
  let blocknr := REVERSE32 blocknr
  let r := hmacPrepare k.sha k.opad k.ipad pass
  let ctx := update k.sha (update k.sha ⟨r.2, k.bitcount, junk⟩ salt) (lowBytes [blocknr])
  let g := poke k.padded 0 ((final k.sha ctx true).2.getD [])
  let g := hostOrder k.sha k.words g
  let g := splice g 0 (k.sha.transform r.1 g)
  ⟨r.1, r.2, g.take k.words, g, 1⟩

/-- the body of the loop of the iterations -/
def pbkdf2Step (c : Pbkdf2Context w) : Pbkdf2Context w :=
  let g := splice c.g 0 (k.sha.transform c.idig c.g)
  let g := splice g 0 (k.sha.transform c.odig g)
  ⟨c.odig, c.idig, List.zipWith (· ^^^ ·) c.f (g.take k.words), g, c.first⟩

def pbkdf2Update (c : Pbkdf2Context w) (iterations : Nat) : Pbkdf2Context w :=
  let c := (List.range' c.first (iterations - c.first)).foldl (fun c _ => pbkdf2Step k c) c
  ⟨c.odig, c.idig, c.f, c.g, 0⟩

/-- the context is wiped -/
def pbkdf2Final (c : Pbkdf2Context w) : Pbkdf2Context w × List UInt8 :=
  (⟨List.replicate c.odig.length 0, List.replicate c.idig.length 0, List.replicate c.f.length 0,
    List.replicate c.g.length 0, 0⟩, lowBytes (c.f.map k.sha.reverse))

/-- the length of the last block, and how many there are -/
def pbkdf2Blocks (keylen : Nat) : Nat × Nat :=
  if keylen % k.digestLength ≠ 0 then (keylen % k.digestLength, keylen / k.digestLength + 1)
  else (k.digestLength, keylen / k.digestLength)

/-- the body of the loop over the blocks of the key -/
def pbkdf2Block (junk : Nat → List (BitVec w)) (pass salt : List UInt8) (iterations : Nat)
    (size : Nat × Nat) (key : List UInt8) (blocknr : Nat) : List UInt8 :=
  let pctx := pbkdf2Init k (junk blocknr) pass salt (BitVec.ofNat 32 blocknr)
  let digest := (pbkdf2Final k (pbkdf2Update k pctx iterations)).2
  splice key ((blocknr - 1) * k.digestLength)
    (if blocknr < size.2 then digest else digest.take size.1)

def pbkdf2 (junk : Nat → List (BitVec w)) (pass salt : List UInt8) (iterations : Nat)
    (key : List UInt8) (keylen : Nat) : List UInt8 :=
  let size := pbkdf2Blocks k keylen
  (List.range' 1 size.2).foldl (pbkdf2Block k junk pass salt iterations size) key

end

def kdf256 : Kdf 32 (BitVec 64) where
  sha := sha256
  digestLength := sha256DigestLength
  opad := 0x5c5c5c5c
  ipad := 0x36363636
  mark := 0x80000000
  bitcount := BitVec.ofNat 64 (sha256BlockLength * 8)

def kdf512 : Kdf 64 (BitVec 64 × BitVec 64) where
  sha := sha512
  digestLength := sha512DigestLength
  opad := 0x5c5c5c5c5c5c5c5c
  ipad := 0x3636363636363636
  mark := 0x8000000000000000
  bitcount := (BitVec.ofNat 64 (sha512BlockLength * 8), 0)

def pbkdf2HmacSha256Init (junk : List (BitVec 32)) (pass salt : List UInt8) (blocknr : BitVec 32) :
    Pbkdf2Context 32 := pbkdf2Init kdf256 junk pass salt blocknr
def pbkdf2HmacSha256Update (c : Pbkdf2Context 32) (iterations : Nat) : Pbkdf2Context 32 :=
  pbkdf2Update kdf256 c iterations
def pbkdf2HmacSha256Final (c : Pbkdf2Context 32) : Pbkdf2Context 32 × List UInt8 :=
  pbkdf2Final kdf256 c
def pbkdf2HmacSha256 (junk : Nat → List (BitVec 32)) (pass salt : List UInt8) (iterations : Nat)
    (key : List UInt8) (keylen : Nat) : List UInt8 :=
  pbkdf2 kdf256 junk pass salt iterations key keylen

def pbkdf2HmacSha512Init (junk : List (BitVec 64)) (pass salt : List UInt8) (blocknr : BitVec 32) :
    Pbkdf2Context 64 := pbkdf2Init kdf512 junk pass salt blocknr
def pbkdf2HmacSha512Update (c : Pbkdf2Context 64) (iterations : Nat) : Pbkdf2Context 64 :=
  pbkdf2Update kdf512 c iterations
def pbkdf2HmacSha512Final (c : Pbkdf2Context 64) : Pbkdf2Context 64 × List UInt8 :=
  pbkdf2Final kdf512 c
def pbkdf2HmacSha512 (junk : Nat → List (BitVec 64)) (pass salt : List UInt8) (iterations : Nat)
    (key : List UInt8) (keylen : Nat) : List UInt8 :=
  pbkdf2 kdf512 junk pass salt iterations key keylen

/-! ## the standard -/

namespace Standard
variable {w : Nat} (q : Standard w)

/-- the keyed digests of block `i`, each of the one before -/
def U (pass salt : List UInt8) (i : Nat) : Nat → List UInt8
  | 0 => q.hmac pass (salt ++ beBytes 4 i)
  | j + 1 => q.hmac pass (U pass salt i j)

/-- the exclusive or of the first `j + 1` of them -/
def T (pass salt : List UInt8) (i : Nat) : Nat → List UInt8
  | 0 => q.U pass salt i 0
  | j + 1 => xorBytes (T pass salt i j) (q.U pass salt i (j + 1))

section
variable {q} {n : Nat} (hq : q.Keeps n)
include hq

theorem length_U (pass salt : List UInt8) (i j : Nat) : (q.U pass salt i j).length = w / 8 * n := by
  cases j with
  | zero => exact length_hash hq _
  | succ j => exact length_hash hq _

theorem length_T (pass salt : List UInt8) (i j : Nat) : (q.T pass salt i j).length = w / 8 * n := by
  induction j with
  | zero => exact length_U hq _ _ _ _
  | succ j ih => rw [T, length_xorBytes (by rw [ih, length_U hq]), ih]

end

end Standard

/-! ## iterations -/

section
variable {w : Nat} {C : Type} {k : Kdf w C} {q : Standard w} {value : C → Nat}

/-- a state over the start of the block -/
theorem splice_words {x y t : List (BitVec w)} (h : x.length = y.length) :
    splice (x ++ t) 0 y = y ++ t := by
  rw [splice_zero, List.drop_left' h]

/-- the words behind a digest: its padding, and the bit count of a block and a digest -/
def Kdf.tail (k : Kdf w C) : List (BitVec w) :=
  [k.mark, 0, 0, 0, 0, 0, 0, BitVec.ofNat w ((k.sha.blockLength + k.digestLength) * 8)]

/-- the constants of the derivation fit the hash function -/
structure Kdf.Fits (k : Kdf w C) (q : Standard w) (value : C → Nat) : Prop where
  sha : Implements k.sha q value
  keeps : q.Keeps 8
  digestLength : k.digestLength = w / 8 * 8
  opad : k.opad = BitVec.ofNat w (number (List.replicate (w / 8) 0x5c))
  ipad : k.ipad = BitVec.ofNat w (number (List.replicate (w / 8) 0x36))
  tail : k.tail = highWords w 8 (q.padding (q.block + k.digestLength))
  bitcount : value k.bitcount = 8 * q.block

section
variable (hk : k.Fits q value)
include hk

theorem words_eq : k.words = 8 := by
  have := hk.sha.four
  rw [Kdf.words, hk.digestLength, Nat.mul_div_cancel_left _ (by omega)]

theorem length_padding : (q.padding (q.block + k.digestLength)).length = w / 8 * 8 := by
  have hblock : q.block = w / 8 * 16 := by rw [hk.sha.block_eq, hk.sha.block]
  have hlb := hk.sha.lengthBytes
  have hd := hk.digestLength
  have hfour := hk.sha.four
  have hfill : fill q.block (q.block + k.digestLength + 1 + q.lengthBytes) =
      w / 8 * 16 - (w / 8 * 8 + 1 + w / 8 * 2) := by
    apply fill_unique (by omega)
    refine ⟨2, ?_⟩
    omega
  rw [Standard.padding, hfill, List.length_cons, List.length_append, List.length_replicate,
    length_beBytes]
  omega

/-- the digest of a key block and a digest, by one transform of a block that ends with its padding -/
theorem digest_state {d u : List UInt8} (hd : d.length = q.block) (hu : u.length = w / 8 * 8) :
    k.sha.transform (q.state d) (highWords w 8 u ++ k.tail) = highWords w 8 (q.hash (d ++ u)) := by
  have hlen : (d ++ u).length = q.block + k.digestLength := by
    rw [List.length_append, hd, hu, hk.digestLength]
  have hpad := length_padding hk
  have hblock : (u ++ q.padding (q.block + k.digestLength)).length = q.block := by
    rw [List.length_append, hu, hpad, hk.sha.block_eq, hk.sha.block]
    omega
  have hwords : highWords w 8 u ++ k.tail =
      highWords w 16 (u ++ q.padding (q.block + k.digestLength)) := by
    rw [hk.tail, ← highWords_append hu 8]
  have hstate : q.state (d ++ u ++ q.padding (q.block + k.digestLength)) =
      q.step (q.state d) (u ++ q.padding (q.block + k.digestLength)) := by
    rw [Standard.state, List.append_assoc, chain_block hk.sha.block_pos hd,
      chain_one hk.sha.block_pos hblock, Standard.state, chain_one hk.sha.block_pos hd]
  rw [hwords, hk.sha.transform _ _ (length_highWords _ _ _), Standard.hash, hlen,
    highWords_highBytes hk.sha.width (Standard.length_state hk.keeps _), hstate]
  rfl

/-- **Two transforms are a keyed digest.** -/
theorem step_digest (pass : List UInt8) {u : List UInt8} (hu : u.length = w / 8 * 8) :
    k.sha.transform (q.state (q.outerKey pass))
      (k.sha.transform (q.state (q.innerKey pass)) (highWords w 8 u ++ k.tail) ++ k.tail) =
        highWords w 8 (q.hmac pass u) := by
  have hin := length_innerKey hk.sha hk.keeps (by omega) pass
  have hout := length_outerKey hk.sha hk.keeps (by omega) pass
  rw [digest_state hk hin hu, digest_state hk hout (Standard.length_hash hk.keeps _)]
  rfl

end

/-- a context of block `i` of the key, after `n` iterations behind the first one -/
structure Derives (k : Kdf w C) (q : Standard w) (pass salt : List UInt8) (i n : Nat)
    (c : Pbkdf2Context w) : Prop where
  odig : c.odig = q.state (q.outerKey pass)
  idig : c.idig = q.state (q.innerKey pass)
  g : c.g = highWords w 8 (q.U pass salt i n) ++ k.tail
  f : c.f = highWords w 8 (q.T pass salt i n)

section
variable (hk : k.Fits q value) {pass salt : List UInt8} {i n : Nat} {c : Pbkdf2Context w}
include hk

theorem derives_step (h : Derives k q pass salt i n c) :
    Derives k q pass salt i (n + 1) (pbkdf2Step k c) := by
  have hu := Standard.length_U hk.keeps pass salt i n
  have ht := Standard.length_T hk.keeps pass salt i n
  have hu' := Standard.length_U hk.keeps pass salt i (n + 1)
  have hinner : splice c.g 0 (k.sha.transform c.idig c.g) =
      k.sha.transform c.idig c.g ++ k.tail := by
    have hin := length_innerKey hk.sha hk.keeps (by omega) pass
    rw [h.g, h.idig, digest_state hk hin hu]
    exact splice_words (by rw [length_highWords, length_highWords])
  have hstep := step_digest hk pass hu
  have hg : (pbkdf2Step k c).g = highWords w 8 (q.U pass salt i (n + 1)) ++ k.tail := by
    simp only [pbkdf2Step]
    rw [hinner, h.g, h.idig, h.odig, hstep]
    refine splice_words ?_
    have hin := length_innerKey hk.sha hk.keeps (by omega) pass
    rw [digest_state hk hin hu, length_highWords, length_highWords]
  have hf : (pbkdf2Step k c).f =
      List.zipWith (· ^^^ ·) c.f ((pbkdf2Step k c).g.take k.words) := rfl
  refine ⟨h.odig, h.idig, hg, ?_⟩
  rw [hf, hg, words_eq hk, List.take_left' (length_highWords _ _ _), h.f, Standard.T,
    highWords_xorBytes ht hu']

theorem derives_steps {m : Nat} (a : Nat) (h : Derives k q pass salt i n c) :
    Derives k q pass salt i (n + m) ((List.range' a m).foldl (fun c _ => pbkdf2Step k c) c) := by
  induction m with
  | zero => exact h
  | succ m ih =>
    rw [List.range'_1_concat, List.foldl_append]
    exact derives_step hk ih

/-- **Some more iterations.** -/
theorem derives_update (h : Derives k q pass salt i n c) (iterations : Nat) :
    Derives k q pass salt i (n + (iterations - c.first)) (pbkdf2Update k c iterations) := by
  have hs := derives_steps hk (m := iterations - c.first) c.first h
  exact ⟨hs.odig, hs.idig, hs.g, hs.f⟩

omit hk in
/-- the start of the block, and its end -/
theorem padded_drop : k.padded.drop 8 = k.tail := rfl

omit hk in
theorem lowBytes_blocknr (blocknr : BitVec 32) :
    lowBytes [REVERSE32 blocknr] = beBytes 4 blocknr.toNat := by
  have h := lowBytes_map turns_REVERSE32 [blocknr]
  rw [List.map_cons, List.map_nil] at h
  rw [h]
  exact List.append_nil _

/-- **The first keyed digest**, from the prepared states. -/
theorem derives_init {junk : List (BitVec w)} (hj : junk.length = 16) (pass salt : List UInt8)
    (blocknr : BitVec 32) :
    Derives k q pass salt blocknr.toNat 0 (pbkdf2Init k junk pass salt blocknr) := by
  have hin := length_innerKey hk.sha hk.keeps (by omega) pass
  have hout := length_outerKey hk.sha hk.keeps (by omega) pass
  have hprep := hmacPrepare_eq hk.sha hk.keeps (by omega) hk.opad hk.ipad pass
  have hpos := hk.sha.block_pos
  -- the local context is that of the inner key block
  have hmod : (q.innerKey pass).length % q.block = 0 := by rw [hin, Nat.mod_self]
  have hstart : Holds q value ⟨q.state (q.innerKey pass), k.bitcount, junk⟩ (q.innerKey pass) := by
    refine ⟨rfl, ?_, hj, ?_⟩
    · have hsmall := hk.sha.small
      have hlt : 8 * q.block < 256 ^ q.lengthBytes := by
        have hlb : 8 ≤ q.lengthBytes := by
          have := hk.sha.four
          rw [hk.sha.lengthBytes]
          omega
        have hpow : 256 ^ 8 ≤ 256 ^ q.lengthBytes := Nat.pow_le_pow_right (by omega) hlb
        rw [hk.sha.block_eq]
        omega
      rw [hin, Nat.mod_eq_of_lt hlt]
      exact hk.bitcount
    · rw [hmod, List.take_zero]
      refine (List.eq_nil_of_length_eq_zero ?_).symm
      rw [length_rest, hmod]
  have hctx := holds_update hk.sha (holds_update hk.sha hstart salt) (beBytes 4 blocknr.toNat)
  rw [List.append_assoc] at hctx
  have hdigest : ((q.hash (q.innerKey pass ++ (salt ++ beBytes 4 blocknr.toNat)))).length =
      w / 8 * 8 := Standard.length_hash hk.keeps _
  have hg : hostOrder k.sha 8 (poke k.padded 0
      (q.hash (q.innerKey pass ++ (salt ++ beBytes 4 blocknr.toNat)))) =
        highWords w 8 (q.hash (q.innerKey pass ++ (salt ++ beBytes 4 blocknr.toNat))) ++ k.tail := by
    have hlow := length_lowWords w 8 (q.hash (q.innerKey pass ++ (salt ++ beBytes 4 blocknr.toNat)))
    rw [poke_words hk.sha.width hdigest (by show 8 ≤ 16; omega), padded_drop, hostOrder,
      List.take_left' hlow, List.drop_left' hlow,
      map_lowWords hk.sha.width hk.sha.turns (Nat.le_of_eq hdigest.symm)]
  have hfirst := digest_state hk hout hdigest
  have hsplice := splice_words (t := k.tail) (x := highWords w 8 (q.hash
    (q.innerKey pass ++ (salt ++ beBytes 4 blocknr.toNat)))) (y := highWords w 8
      (q.hash (q.outerKey pass ++ q.hash (q.innerKey pass ++ (salt ++ beBytes 4 blocknr.toNat)))))
    (by rw [length_highWords, length_highWords])
  have hg0 : (pbkdf2Init k junk pass salt blocknr).g =
      highWords w 8 (q.U pass salt blocknr.toNat 0) ++ k.tail := by
    simp only [pbkdf2Init]
    rw [hprep, lowBytes_blocknr, final_eq hk.sha hctx, words_eq hk]
    simp only [Option.getD_some]
    rw [hg, hfirst, hsplice]
    rfl
  have hf : (pbkdf2Init k junk pass salt blocknr).f =
      (pbkdf2Init k junk pass salt blocknr).g.take k.words := rfl
  refine ⟨congrArg Prod.fst hprep, congrArg Prod.snd hprep, hg0, ?_⟩
  rw [hf, hg0, words_eq hk, List.take_left' (length_highWords _ _ _)]
  rfl

/-- the key of a context -/
theorem derives_final (h : Derives k q pass salt i n c) :
    (pbkdf2Final k c).2 = q.T pass salt i n := by
  show lowBytes (c.f.map k.sha.reverse) = _
  rw [lowBytes_map hk.sha.turns, h.f,
    highBytes_highWords hk.sha.width (Standard.length_T hk.keeps pass salt i n)]

theorem derives_updates (h : Derives k q pass salt i n c) (hc : c.first = 0) (counts : List Nat) :
    Derives k q pass salt i (n + counts.sum) (counts.foldl (pbkdf2Update k) c) := by
  induction counts generalizing c n with
  | nil => exact h
  | cons m counts ih =>
    have hm := derives_update hk h m
    rw [hc, Nat.sub_zero] at hm
    rw [List.foldl_cons, List.sum_cons, ← Nat.add_assoc]
    exact ih hm rfl

/-- the iterations in one go or in several -/
theorem final_updates {junk : List (BitVec w)} (hj : junk.length = 16) (pass salt : List UInt8)
    (blocknr : BitVec 32) (m : Nat) (counts : List Nat) :
    (pbkdf2Final k ((m :: counts).foldl (pbkdf2Update k)
      (pbkdf2Init k junk pass salt blocknr))).2 =
        q.T pass salt blocknr.toNat (m - 1 + counts.sum) := by
  have h := derives_update hk (derives_init hk hj pass salt blocknr) m
  rw [Nat.zero_add] at h
  exact derives_final hk (derives_updates hk h rfl counts)

/-! ## keys of any length -/

omit hk in
/-- only the low four bytes of a block number count -/
theorem T_mod (pass salt : List UInt8) (i j : Nat) :
    q.T pass salt (i % 2 ^ 32) j = q.T pass salt i j := by
  have hU : ∀ j, q.U pass salt (i % 2 ^ 32) j = q.U pass salt i j := by
    intro j
    induction j with
    | zero =>
      have hbytes : beBytes 4 (i % 2 ^ 32) = beBytes 4 i := beBytes_mod 4 i
      rw [Standard.U, Standard.U, hbytes]
    | succ j ih => rw [Standard.U, Standard.U, ih]
  induction j with
  | zero => exact hU 0
  | succ j ih => rw [Standard.T, Standard.T, ih, hU]

/-- a block of the key -/
theorem pbkdf2Block_eq {junk : Nat → List (BitVec w)} (hj : ∀ i, (junk i).length = 16)
    (pass salt : List UInt8) (iterations : Nat) (size : Nat × Nat) (key : List UInt8) (b : Nat) :
    pbkdf2Block k junk pass salt iterations size key b =
      splice key ((b - 1) * k.digestLength)
        (if b < size.2 then q.T pass salt b (iterations - 1)
          else (q.T pass salt b (iterations - 1)).take size.1) := by
  have h := final_updates hk (hj b) pass salt (BitVec.ofNat 32 b) iterations []
  rw [BitVec.toNat_ofNat, T_mod] at h
  simp only [pbkdf2Block]
  rw [show (pbkdf2Final k (pbkdf2Update k (pbkdf2Init k (junk b) pass salt (BitVec.ofNat 32 b))
    iterations)).2 = q.T pass salt b (iterations - 1) from h]

omit hk in
/-- the key has so many whole blocks and the last one -/
theorem pbkdf2Blocks_eq {keylen : Nat} (hd : 0 < k.digestLength) (hlen : 0 < keylen) :
    ∃ b, (pbkdf2Blocks k keylen).2 = b + 1 ∧ 0 < (pbkdf2Blocks k keylen).1 ∧
      (pbkdf2Blocks k keylen).1 ≤ k.digestLength ∧
      keylen = b * k.digestLength + (pbkdf2Blocks k keylen).1 := by
  have hdiv := Nat.div_add_mod keylen k.digestLength
  have hlt := Nat.mod_lt keylen hd
  unfold pbkdf2Blocks
  by_cases h0 : keylen % k.digestLength ≠ 0
  · rw [if_pos h0]
    refine ⟨keylen / k.digestLength, rfl, Nat.pos_of_ne_zero h0, hlt.le, ?_⟩
    rw [Nat.mul_comm]
    exact hdiv.symm
  · rw [if_neg h0]
    have h0 := not_not.mp h0
    have hpos : 0 < keylen / k.digestLength := Nat.div_pos (Nat.le_of_dvd hlen
      (Nat.dvd_of_mod_eq_zero h0)) hd
    obtain ⟨b, hb⟩ := Nat.exists_eq_succ_of_ne_zero (Nat.pos_iff_ne_zero.mp hpos)
    refine ⟨b, hb, hd, Nat.le_refl _, ?_⟩
    rw [h0, hb, Nat.add_zero, Nat.mul_succ, Nat.mul_comm] at hdiv
    exact hdiv.symm

/-- the whole blocks, one after the other -/
theorem foldl_blocks {junk : Nat → List (BitVec w)} (hj : ∀ i, (junk i).length = 16)
    (pass salt : List UInt8) (iterations : Nat) {size : Nat × Nat} {key : List UInt8} {b : Nat}
    (hb : b < size.2) (hkey : b * k.digestLength ≤ key.length) :
    (List.range' 1 b).foldl (pbkdf2Block k junk pass salt iterations size) key =
      (List.range' 1 b).flatMap (fun i => q.T pass salt i (iterations - 1)) ++
        key.drop (b * k.digestLength) ∧
    ((List.range' 1 b).flatMap fun i => q.T pass salt i (iterations - 1)).length =
      b * k.digestLength := by
  induction b with
  | zero => simp
  | succ b ih =>
    rw [Nat.succ_mul] at hkey
    obtain ⟨hfold, hlen⟩ := ih (by omega) (by omega)
    have hT : (q.T pass salt (1 + b) (iterations - 1)).length = k.digestLength := by
      rw [Standard.length_T hk.keeps, hk.digestLength]
    have hone : 1 + b - 1 = b := by omega
    rw [List.range'_1_concat, List.foldl_append, List.flatMap_append, hfold]
    constructor
    · rw [List.foldl_cons, List.foldl_nil, pbkdf2Block_eq hk hj, if_pos (by omega), hone,
        splice_append _ _ _ hlen.symm, hT, List.drop_drop, List.flatMap_singleton, List.append_assoc,
        Nat.succ_mul]
    · rw [List.length_append, hlen, List.flatMap_singleton, hT, Nat.succ_mul]

/-- **The key is the start of the blocks**, what lies behind it stays. -/
theorem pbkdf2_eq {junk : Nat → List (BitVec w)} (hj : ∀ i, (junk i).length = 16)
    (pass salt : List UInt8) (iterations : Nat) {key : List UInt8} {keylen : Nat}
    (hkey : keylen ≤ key.length) :
    pbkdf2 k junk pass salt iterations key keylen =
      ((List.range' 1 (pbkdf2Blocks k keylen).2).flatMap
        fun i => q.T pass salt i (iterations - 1)).take keylen ++ key.drop keylen := by
  have hd : 0 < k.digestLength := by
    have := hk.sha.four
    rw [hk.digestLength]
    omega
  cases Nat.eq_zero_or_pos keylen with
  | inl h0 =>
    have hnone : (pbkdf2Blocks k keylen).2 = 0 := by
      rw [h0, pbkdf2Blocks, Nat.zero_mod, if_neg (not_not.mpr rfl), Nat.zero_div]
    simp only [pbkdf2]
    rw [hnone, h0]
    rfl
  | inr hpos =>
    obtain ⟨b, hb, hlast, hle, hlen⟩ := pbkdf2Blocks_eq hd hpos
    have hroom : b * k.digestLength ≤ key.length := by omega
    obtain ⟨hfold, hfull⟩ := foldl_blocks hk hj pass salt iterations
      (show b < (pbkdf2Blocks k keylen).2 by omega) hroom
    have hT : (q.T pass salt (1 + b) (iterations - 1)).length = k.digestLength := by
      rw [Standard.length_T hk.keeps, hk.digestLength]
    have hone : 1 + b - 1 = b := by omega
    have htake : ((q.T pass salt (1 + b) (iterations - 1)).take (pbkdf2Blocks k keylen).1).length =
        (pbkdf2Blocks k keylen).1 := by
      rw [List.length_take]
      omega
    have hend : keylen = ((List.range' 1 b).flatMap fun i => q.T pass salt i (iterations - 1)).length +
        (pbkdf2Blocks k keylen).1 := by rw [hfull, ← hlen]
    have hrest : (key.drop (b * k.digestLength)).drop (pbkdf2Blocks k keylen).1 = key.drop keylen := by
      rw [List.drop_drop, ← hlen]
    simp only [pbkdf2]
    rw [hb, List.range'_1_concat, List.foldl_append, hfold, List.foldl_cons, List.foldl_nil,
      pbkdf2Block_eq hk hj, if_neg (by omega), hone, splice_append _ _ _ hfull.symm, htake, hrest,
      List.flatMap_append, List.flatMap_singleton]
    conv => rhs; rw [hend, List.take_length_add_append, ← hend]
    rw [List.append_assoc]

end

end

/-! ## the members -/

theorem fits_kdf256 : kdf256.Fits fips256 BitVec.toNat where
  sha := implements_sha256
  keeps := keeps_fips256
  digestLength := rfl
  opad := by decide
  ipad := by decide
  tail := by decide
  bitcount := rfl

theorem fits_kdf512 : kdf512.Fits fips512 value128 where
  sha := implements_sha512
  keeps := keeps_fips512
  digestLength := rfl
  opad := by decide
  ipad := by decide
  tail := by decide
  bitcount := rfl

/-- **Iterations in several goes.** The first go has one iteration less to do. -/
theorem pbkdf2_of_updates (j : List.Vector (BitVec 32) 16) (k : List.Vector (BitVec 64) 16)
    (pass salt : List UInt8) (blocknr : BitVec 32) (m : Nat) (counts : List Nat) :
    (pbkdf2HmacSha256Final ((m :: counts).foldl pbkdf2HmacSha256Update
      (pbkdf2HmacSha256Init j.toList pass salt blocknr))).2 =
        fips256.T pass salt blocknr.toNat (m - 1 + counts.sum) ∧
    (pbkdf2HmacSha512Final ((m :: counts).foldl pbkdf2HmacSha512Update
      (pbkdf2HmacSha512Init k.toList pass salt blocknr))).2 =
        fips512.T pass salt blocknr.toNat (m - 1 + counts.sum) :=
  ⟨final_updates fits_kdf256 j.toList_length pass salt blocknr m counts,
    final_updates fits_kdf512 k.toList_length pass salt blocknr m counts⟩

theorem pbkdf2Blocks_count {w : Nat} {C : Type} {k : Kdf w C} (hd : 0 < k.digestLength)
    (keylen : Nat) :
    (pbkdf2Blocks k keylen).2 = (keylen + k.digestLength - 1) / k.digestLength := by
  cases Nat.eq_zero_or_pos keylen with
  | inl h0 =>
    rw [h0, pbkdf2Blocks, Nat.zero_mod, if_neg (not_not.mpr rfl), Nat.zero_div, Nat.zero_add,
      Nat.div_eq_of_lt (by omega)]
  | inr hpos =>
    obtain ⟨b, hb, hlast, hle, hlen⟩ := pbkdf2Blocks_eq hd hpos
    have hsum : keylen + k.digestLength - 1 =
        k.digestLength * (b + 1) + ((pbkdf2Blocks k keylen).1 - 1) := by
      rw [Nat.mul_comm, Nat.succ_mul]
      omega
    rw [hb, hsum, Nat.mul_add_div hd, Nat.div_eq_of_lt (by omega), Nat.add_zero]

/-- **A key of any length**, in one call. -/
theorem pbkdf2_key (j : Nat → List.Vector (BitVec 32) 16) (k : Nat → List.Vector (BitVec 64) 16)
    (pass salt : List UInt8) (iterations keylen : Nat) (key : List UInt8)
    (hkey : keylen ≤ key.length) :
    pbkdf2HmacSha256 (fun i => (j i).toList) pass salt iterations key keylen =
      ((List.range' 1 ((keylen + 31) / 32)).flatMap
        fun i => fips256.T pass salt i (iterations - 1)).take keylen ++ key.drop keylen ∧
    pbkdf2HmacSha512 (fun i => (k i).toList) pass salt iterations key keylen =
      ((List.range' 1 ((keylen + 63) / 64)).flatMap
        fun i => fips512.T pass salt i (iterations - 1)).take keylen ++ key.drop keylen := by
  have h256 := pbkdf2_eq fits_kdf256 (fun i => (j i).toList_length) pass salt iterations hkey
  have h512 := pbkdf2_eq fits_kdf512 (fun i => (k i).toList_length) pass salt iterations hkey
  rw [pbkdf2Blocks_count (by decide)] at h256 h512
  exact ⟨h256, h512⟩

theorem pbkdf2_key_sample :
    pbkdf2HmacSha256 (fun _ => List.replicate 16 0) [1] [2] 3 [4, 5, 6] 2 =
      ((List.range' 1 1).flatMap fun i => fips256.T [1] [2] i 2).take 2 ++ [6] ∧
    pbkdf2HmacSha512 (fun _ => List.replicate 16 0) [1] [2] 3 [4, 5, 6] 2 =
      ((List.range' 1 1).flatMap fun i => fips512.T [1] [2] i 2).take 2 ++ [6] :=
  pbkdf2_key (fun _ => List.Vector.replicate 16 0) (fun _ => List.Vector.replicate 16 0) [1] [2] 3 2
    [4, 5, 6] (by decide)

end MTower.Sha2
