import MTower.Sha2.Messages

/-!
# Keyed digests

* `hmacInit`, `hmacUpdate`, `hmacFinal`   the functions with a context;
* `hmacPrepare`       the states behind the two key blocks, computed without a context;
* `Standard.hmac`     the digest over a digest;
* `hmac_of_pieces`    however a message is cut;
* `opad_digest`, `ipad_digest`   the prepared states are those behind the key blocks.
-/

set_option linter.unusedVariables false

namespace MTower.Sha2

open Lib.Fields Lib.Iterated Lib.WordBytes

/-! ## the functions -/

section
variable {w : Nat} {C : Type} (p : Member w C)

structure HmacContext (w : Nat) (C : Type) where
  oKeyPad : List UInt8
  ctx : Context w C

/-- the key, or its digest when it is longer than a block, at the start of a block of zeros -/
def keyPad (key : List UInt8) : List UInt8 :=
  splice (List.replicate p.blockLength 0) 0
    (if p.blockLength < key.length then (raw p key).getD [] else key)

def hmacInit (key : List UInt8) : HmacContext w C :=
  let iKeyPad := keyPad p key
  ⟨iKeyPad.map (· ^^^ 0x5c), update p (init p) (iKeyPad.map (· ^^^ 0x36))⟩

def hmacUpdate (h : HmacContext w C) (msg : List UInt8) : HmacContext w C :=
  ⟨h.oKeyPad, update p h.ctx msg⟩

def hmacFinal (h : HmacContext w C) : HmacContext w C × Option (List UInt8) :=
  let hmac := (final p h.ctx true).2.bind fun d =>
    (final p (update p (update p (init p) h.oKeyPad) d) true).2
  (⟨List.replicate h.oKeyPad.length 0, wiped p h.ctx⟩, hmac)

def hmac (key msg : List UInt8) : Option (List UInt8) :=
  (hmacFinal p (hmacUpdate p (hmacInit p key) msg)).2

/-- `opad` and `ipad` are the words of the bytes `0x5c` and `0x36` -/
def hmacPrepare (opad ipad : BitVec w) (key : List UInt8) : List (BitVec w) × List (BitVec w) :=
  let keyPad := poke (List.replicate 16 0) 0
    (if p.blockLength < key.length then (raw p key).getD [] else key)
  let oKeyPad := keyPad.map fun x => p.reverse x ^^^ opad
  let iKeyPad := oKeyPad.map fun x => x ^^^ opad ^^^ ipad
  (p.transform p.initialHashValue oKeyPad, p.transform p.initialHashValue iKeyPad)

end

def hmacSha256Init (key : List UInt8) : HmacContext 32 (BitVec 64) := hmacInit sha256 key
def hmacSha256Update (h : HmacContext 32 (BitVec 64)) (msg : List UInt8) :
    HmacContext 32 (BitVec 64) := hmacUpdate sha256 h msg
def hmacSha256Final (h : HmacContext 32 (BitVec 64)) :
    HmacContext 32 (BitVec 64) × Option (List UInt8) := hmacFinal sha256 h
def hmacSha256 (key msg : List UInt8) : Option (List UInt8) := hmac sha256 key msg
def hmacSha256Prepare (key : List UInt8) : List (BitVec 32) × List (BitVec 32) :=
  hmacPrepare sha256 0x5c5c5c5c 0x36363636 key

def hmacSha512Init (key : List UInt8) : HmacContext 64 (BitVec 64 × BitVec 64) := hmacInit sha512 key
def hmacSha512Update (h : HmacContext 64 (BitVec 64 × BitVec 64)) (msg : List UInt8) :
    HmacContext 64 (BitVec 64 × BitVec 64) := hmacUpdate sha512 h msg
def hmacSha512Final (h : HmacContext 64 (BitVec 64 × BitVec 64)) :
    HmacContext 64 (BitVec 64 × BitVec 64) × Option (List UInt8) := hmacFinal sha512 h
def hmacSha512 (key msg : List UInt8) : Option (List UInt8) := hmac sha512 key msg
def hmacSha512Prepare (key : List UInt8) : List (BitVec 64) × List (BitVec 64) :=
  hmacPrepare sha512 0x5c5c5c5c5c5c5c5c 0x3636363636363636 key

/-! ## the standard -/

namespace Standard
variable {w : Nat} (q : Standard w)

/-- the block of a key -/
def keyBlock (key : List UInt8) : List UInt8 :=
  let k := if q.block < key.length then q.hash key else key
  k ++ List.replicate (q.block - k.length) 0

def innerKey (key : List UInt8) : List UInt8 := (q.keyBlock key).map (· ^^^ 0x36)

def outerKey (key : List UInt8) : List UInt8 := (q.keyBlock key).map (· ^^^ 0x5c)

def hmac (key m : List UInt8) : List UInt8 :=
  q.hash (q.outerKey key ++ q.hash (q.innerKey key ++ m))

/-- the state has `n` words after every block -/
structure Keeps (n : Nat) : Prop where
  initial : q.initial.length = n
  compress : ∀ H M, H.length = n → (q.compress H M).length = n

section
variable {q} {n : Nat} (hq : q.Keeps n)
include hq

theorem length_state (m : List UInt8) : (q.state m).length = n :=
  chain_inv (fun H d h => hq.compress H _ h) hq.initial m

theorem length_hash (m : List UInt8) : (q.hash m).length = w / 8 * n := by
  rw [hash, length_highBytes, length_state hq]

end

end Standard

theorem keeps_fips256 : fips256.Keeps 8 where
  initial := rfl
  compress H M h := by
    show (List.zipWith _ H _).length = 8
    rw [List.length_zipWith, h]
    rfl

theorem keeps_fips512 : fips512.Keeps 8 where
  initial := rfl
  compress H M h := by
    show (List.zipWith _ H _).length = 8
    rw [List.length_zipWith, h]
    rfl

/-! ## keyed digests -/

section
variable {w : Nat} {C : Type} {p : Member w C} {q : Standard w} {value : C → Nat} {n : Nat}
variable (hp : Implements p q value) (hq : q.Keeps n) (hn : n ≤ 16)
include hp hq hn

theorem length_hash_le (m : List UInt8) : (q.hash m).length ≤ q.block := by
  rw [Standard.length_hash hq, hp.block_eq, hp.block]
  exact Nat.mul_le_mul_left _ hn

/-- what goes into the block of a key fits -/
theorem key_le (key : List UInt8) :
    (if q.block < key.length then q.hash key else key).length ≤ q.block := by
  by_cases hk : q.block < key.length
  · rw [if_pos hk]
    exact length_hash_le hp hq hn key
  · rw [if_neg hk]
    exact Nat.le_of_not_lt hk

theorem length_keyBlock (key : List UInt8) : (q.keyBlock key).length = q.block := by
  have h := key_le hp hq hn key
  simp only [Standard.keyBlock, List.length_append, List.length_replicate]
  omega

theorem length_innerKey (key : List UInt8) : (q.innerKey key).length = q.block := by
  rw [Standard.innerKey, List.length_map, length_keyBlock hp hq hn]

theorem length_outerKey (key : List UInt8) : (q.outerKey key).length = q.block := by
  rw [Standard.outerKey, List.length_map, length_keyBlock hp hq hn]

omit hq hn in
/-- the key, or its digest -/
theorem key_eq (key : List UInt8) :
    (if p.blockLength < key.length then (raw p key).getD [] else key) =
      if q.block < key.length then q.hash key else key := by
  rw [raw_eq hp, hp.block_eq]
  rfl

omit hq hn in
theorem keyPad_eq (key : List UInt8) : keyPad p key = q.keyBlock key := by
  rw [keyPad, key_eq hp, splice_zero, List.drop_replicate, ← hp.block_eq]
  rfl

omit hq hn in
/-- the contexts of a key and a message in pieces -/
theorem hmacUpdate_pieces (key : List UInt8) (pieces : List (List UInt8)) :
    (pieces.foldl (hmacUpdate p) (hmacInit p key)).oKeyPad = q.outerKey key ∧
    Holds q value (pieces.foldl (hmacUpdate p) (hmacInit p key)).ctx
      (q.innerKey key ++ pieces.flatten) := by
  have hstart : (hmacInit p key).oKeyPad = q.outerKey key ∧
      Holds q value (hmacInit p key).ctx (q.innerKey key) := by
    constructor
    · show (keyPad p key).map (· ^^^ 0x5c) = _
      rw [keyPad_eq hp]
      rfl
    · have h := holds_update hp (holds_init hp) ((keyPad p key).map (· ^^^ 0x36))
      rw [keyPad_eq hp, List.nil_append] at h
      show Holds q value (update p (init p) ((keyPad p key).map (· ^^^ 0x36))) _
      rw [keyPad_eq hp]
      exact h
  generalize hmacInit p key = h at *
  generalize q.innerKey key = m at *
  induction pieces generalizing h m with
  | nil =>
    rw [List.flatten_nil, List.append_nil]
    exact hstart
  | cons d pieces ih =>
    rw [List.foldl_cons, List.flatten_cons, ← List.append_assoc]
    exact ih _ _ ⟨hstart.1, holds_update hp hstart.2 d⟩

omit hq hn in
/-- **However a message is cut.** -/
theorem hmacFinal_pieces (key : List UInt8) (pieces : List (List UInt8)) :
    (hmacFinal p (pieces.foldl (hmacUpdate p) (hmacInit p key))).2 =
      some (q.hmac key pieces.flatten) := by
  obtain ⟨ho, hi⟩ := hmacUpdate_pieces hp key pieces
  have houter := holds_update hp (holds_update hp (holds_init hp) (q.outerKey key))
    (q.hash (q.innerKey key ++ pieces.flatten))
  rw [List.nil_append] at houter
  simp only [hmacFinal]
  rw [final_eq hp hi, Option.bind_some, ho, final_eq hp houter]
  rfl

end

/-- **HMAC**, with a context, however the message is cut. -/
theorem hmac_of_pieces (key : List UInt8) (pieces : List (List UInt8)) :
    (hmacSha256Final (pieces.foldl hmacSha256Update (hmacSha256Init key))).2 =
      some (fips256.hmac key pieces.flatten) ∧
    (hmacSha512Final (pieces.foldl hmacSha512Update (hmacSha512Init key))).2 =
      some (fips512.hmac key pieces.flatten) :=
  ⟨hmacFinal_pieces implements_sha256 key pieces,
    hmacFinal_pieces implements_sha512 key pieces⟩

/-! ## prepared states -/

section
variable {w : Nat} {C : Type} {p : Member w C} {q : Standard w} {value : C → Nat} {n : Nat}
variable (hp : Implements p q value) (hq : q.Keeps n) (hn : n ≤ 16)
variable {opad ipad : BitVec w}
include hp hq hn

/-- the words of a key block, with the same byte everywhere -/
theorem keyPad_words {x : BitVec w} {b : UInt8}
    (hx : x = BitVec.ofNat w (number (List.replicate (w / 8) b))) (key : List UInt8) :
    (poke (List.replicate 16 0) 0
      (if p.blockLength < key.length then (raw p key).getD [] else key)).map
        (fun y => p.reverse y ^^^ x) = highWords w 16 ((q.keyBlock key).map (· ^^^ b)) := by
  have hblock : w / 8 * 16 = q.block := by rw [hp.block_eq, hp.block]
  have hlen := length_keyBlock hp hq hn key
  have hbytes : splice (List.replicate (w / 8 * 16) 0) 0
      (if q.block < key.length then q.hash key else key) = q.keyBlock key := by
    rw [splice_zero, List.drop_replicate, hblock]
    rfl
  have hwords : poke (List.replicate 16 (0 : BitVec w)) 0
      (if q.block < key.length then q.hash key else key) = lowWords w 16 (q.keyBlock key) := by
    rw [poke, lowBytes_zeros, hbytes, List.length_replicate]
  have hmap : (lowWords w 16 (q.keyBlock key)).map (fun y => p.reverse y ^^^ x) =
      ((lowWords w 16 (q.keyBlock key)).map p.reverse).map (· ^^^ x) := by
    rw [List.map_map]
    rfl
  rw [key_eq hp, hwords, hmap, map_lowWords hp.width hp.turns (by omega),
    highWords_map_xor (by omega), hx]

omit hq hn in
/-- a block of a key, transformed -/
theorem key_state {d : List UInt8} (hd : d.length = q.block) :
    p.transform p.initialHashValue (highWords w 16 d) = q.state d := by
  rw [Standard.state, chain_one hp.block_pos hd, hp.transform _ _ (length_highWords _ _ _),
    hp.initial]
  rfl

/-- **The prepared states** are those behind the key blocks. -/
theorem hmacPrepare_eq (ho : opad = BitVec.ofNat w (number (List.replicate (w / 8) 0x5c)))
    (hi : ipad = BitVec.ofNat w (number (List.replicate (w / 8) 0x36))) (key : List UInt8) :
    hmacPrepare p opad ipad key = (q.state (q.outerKey key), q.state (q.innerKey key)) := by
  have hinner : ∀ ws : List (BitVec w), (ws.map fun y => p.reverse y ^^^ opad).map
      (fun y => y ^^^ opad ^^^ ipad) = ws.map fun y => p.reverse y ^^^ ipad := by
    intro ws
    rw [List.map_map]
    apply List.map_congr_left
    intro y _
    rw [Function.comp_apply, BitVec.xor_assoc (p.reverse y), BitVec.xor_self, BitVec.xor_zero]
  simp only [hmacPrepare]
  rw [hinner, keyPad_words hp hq hn ho, keyPad_words hp hq hn hi]
  exact congrArg₂ Prod.mk (key_state hp (length_outerKey hp hq hn key))
    (key_state hp (length_innerKey hp hq hn key))

end

end MTower.Sha2
