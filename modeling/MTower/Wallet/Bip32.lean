import MTower.Lib.Counter
import Mathlib.Data.Nat.ModEq
import Mathlib.Data.Vector.Basic

/-!
# Child keys of the wallet

`bip32.c` derives the child key of an index from a parent key and a chain code.  HMAC-SHA512 and the
public point are parameters, and `bignum256` numbers are numbers.  The loop of `hdnode_private_ckd`
does not change what it starts from; it runs on a fuel, and the function diverges when no fuel is
enough.

* `hdnodePrivateCkd`, `hdnodePublicCkd`   the two derivations;
* `getChildPrivatekey`, `getChildPublickey`  the derivations for an account;
* `ckdLoop_eq`          the loop leaves in its first iteration or never;
* `bip32Child`          the derivation as the standard has it;
* `hdnode_ckd_iff`      when the code follows the standard;
* `accounts_share_keys` every account gets the same keys.
-/

set_option linter.unusedVariables false

namespace MTower.Wallet
open Lib.Fields

def teeSuccess : Nat := 0

/-- `curve->order` of secp256k1 -/
def curveOrder : Nat := 0xFFFFFFFFFFFFFFFFFFFFFFFFFFFFFFFEBAAEDCE6AF48A03BBFD25E8CD0364141

/-- the index of a hardened child -/
def Hardened (i : Nat) : Prop := 2 ^ 31 ≤ i ∧ i < 2 ^ 32

/-- HMAC-SHA512: the key and the data -/
abbrev Hmac512 := List UInt8 → List UInt8 → List.Vector UInt8 64

/-! ## `bip32.c` -/

/-- `bn_mod` with `curve->order` -/
def bnMod (x : Nat) : Nat := if x < curveOrder then x else x - curveOrder

/-- the loop of `hdnode_private_ckd`: the number written to `child_sk` -/
def ckdLoop (il a : Nat) : Nat → Option Nat
  | 0 => none
  | fuel + 1 =>
    let b := il
    let r : Bool × Nat :=
      if ¬ b < curveOrder then (true, b)
      else
        let b := bnMod (b + a)
        (decide (b = 0), b)
    if r.1 = false then some r.2 else ckdLoop il a fuel

structure Ckd where
  res : Nat
  childSk : List UInt8
  childChaincode : List UInt8
deriving DecidableEq, Repr

/-- the `entropy` that is authenticated -/
def ckdInput (parentSk : List UInt8) (i : Nat) : List UInt8 :=
  [0] ++ parentSk ++ [0x80, 0, 0, 0]

def hdnodePrivateCkd (hmac : Hmac512) (fuel : Nat) (parentSk parentChaincode : List UInt8)
    (i : Nat) : Option Ckd :=
  let mac := (hmac parentChaincode (ckdInput parentSk i)).val
  let il := mac.take 32
  let ir := mac.drop 32
  (ckdLoop (number il) (number parentSk) fuel).map fun b => ⟨teeSuccess, beBytes 32 b, ir⟩

structure PublicCkd where
  res : Nat
  childPkX : List UInt8
  childPkY : List UInt8
deriving DecidableEq, Repr

/-- `point` is the public point of a private key -/
def hdnodePublicCkd (hmac : Hmac512) (point : Nat → Nat × Nat) (fuel : Nat)
    (parentSk parentChaincode : List UInt8) (i : Nat) : Option PublicCkd := do
  let r ← hdnodePrivateCkd hmac fuel parentSk parentChaincode i
  let p := point (number r.childSk)
  pure ⟨teeSuccess, beBytes 32 p.1, beBytes 32 p.2⟩

/-! ## `bw_ta.c` -/

/-- `get_child_privatekey`; `masterkeyExt` is what was read from the object -/
def getChildPrivatekey (hmac : Hmac512) (fuel : Nat) (masterkeyExt : List UInt8) (i : Nat) :
    Option Ckd :=
  let level := i / 10
  let i := i % 10
  let i := if level = 0 then (i + 2 ^ 31) % 2 ^ 32 else i
  hdnodePrivateCkd hmac fuel (masterkeyExt.take 32) (masterkeyExt.drop 32) i

def getChildPublickey (hmac : Hmac512) (point : Nat → Nat × Nat) (fuel : Nat)
    (masterkeyExt : List UInt8) (i : Nat) : Option PublicCkd :=
  hdnodePublicCkd hmac point fuel (masterkeyExt.take 32) (masterkeyExt.drop 32)
    ((i + 2 ^ 31) % 2 ^ 32)

/-! ## the loop -/

/-- the left half of the MAC gives a child of `a` -/
def Valid (il a : Nat) : Prop := il < curveOrder ∧ bnMod (il + a) ≠ 0

instance (il a : Nat) : Decidable (Valid il a) := inferInstanceAs (Decidable (_ ∧ _))

/-- **The loop leaves in its first iteration or never.** -/
theorem ckdLoop_eq (il a fuel : Nat) :
    ckdLoop il a fuel = if fuel ≠ 0 ∧ Valid il a then some (bnMod (il + a)) else none := by
  induction fuel with
  | zero => rfl
  | succ fuel ih =>
    rw [ckdLoop]
    by_cases hlt : il < curveOrder
    · by_cases h0 : bnMod (il + a) = 0
      · have hnot : ¬ Valid il a := fun h => h.2 h0
        have hrec : ckdLoop il a fuel = none := by
          rw [ih, if_neg fun h => hnot h.2]
        simp [hlt, h0, hrec, hnot]
      · have hv : Valid il a := ⟨hlt, h0⟩
        simp [hlt, h0, hv]
    · have hnot : ¬ Valid il a := fun h => hlt h.1
      have hrec : ckdLoop il a fuel = none := by
        rw [ih, if_neg fun h => hnot h.2]
      simp [hlt, hrec, hnot]

theorem bnMod_eq {x : Nat} (h : x < 2 * curveOrder) : bnMod x = x % curveOrder := by
  unfold bnMod
  by_cases hlt : x < curveOrder
  · rw [if_pos hlt, Nat.mod_eq_of_lt hlt]
  · rw [if_neg hlt, Nat.mod_eq_sub_mod (Nat.not_lt.mp hlt), Nat.mod_eq_of_lt (by omega)]

/-! ## the standard -/

/-- the child key and the chain code of hardened child `i`, when there is one -/
def bip32Child (hmac : Hmac512) (k : Nat) (c : List UInt8) (i : Nat) : Option (Nat × List UInt8) :=
  let mac := (hmac c ([0] ++ beBytes 32 k ++ beBytes 4 i)).val
  let il := number (mac.take 32)
  if il < curveOrder ∧ (il + k) % curveOrder ≠ 0 then
    some ((il + k) % curveOrder, mac.drop 32)
  else none

section
variable (hmac : Hmac512) (point : Nat → Nat × Nat) (k : Nat) (c : List UInt8) (i : Nat)

/-- `hdnode_private_ckd` returns, with the child of the standard or with an error -/
def FollowsPrivate : Prop :=
  ∃ fuel r, hdnodePrivateCkd hmac fuel (beBytes 32 k) c i = some r ∧
    match bip32Child hmac k c i with
    | some (key, chain) => r = ⟨teeSuccess, beBytes 32 key, chain⟩
    | none => r.res ≠ teeSuccess

/-- `hdnode_public_ckd` returns the point of the child of the standard -/
def FollowsPublic : Prop :=
  ∀ key chain, bip32Child hmac k c i = some (key, chain) →
    ∃ fuel, hdnodePublicCkd hmac point fuel (beBytes 32 k) c i =
      some ⟨teeSuccess, beBytes 32 (point key).1, beBytes 32 (point key).2⟩

/-- other hardened children are derived from other data -/
def SeparatesIndices : Prop :=
  ∀ j, Hardened j → j ≠ i → ckdInput (beBytes 32 k) j ≠ ckdInput (beBytes 32 k) i

/-- the child exists and its MAC is the one of index `2^31` -/
def SameMac : Prop :=
  (bip32Child hmac k c i).isSome = true ∧
    hmac c ([0] ++ beBytes 32 k ++ beBytes 4 i) = hmac c ([0] ++ beBytes 32 k ++ beBytes 4 (2 ^ 31))

end

variable {hmac : Hmac512} {point : Nat → Nat × Nat} {k : Nat} {c : List UInt8} {i : Nat}

theorem curveOrder_lt : curveOrder < 256 ^ 32 := by decide

theorem number_parent (hk : k < curveOrder) : number (beBytes 32 k) = k := by
  rw [number_beBytes]
  exact Nat.mod_eq_of_lt (lt_trans hk curveOrder_lt)

theorem ckdInput_eq (sk : List UInt8) (i : Nat) :
    ckdInput sk i = [0] ++ sk ++ beBytes 4 (2 ^ 31) := rfl

theorem ckdInput_index (sk : List UInt8) (i j : Nat) : ckdInput sk i = ckdInput sk j := rfl

/-- the child of index `2^31` is what the code computes, whatever the index -/
theorem privateCkd_eq (hk : k < curveOrder) (fuel : Nat) :
    hdnodePrivateCkd hmac (fuel + 1) (beBytes 32 k) c i =
      (bip32Child hmac k c (2 ^ 31)).map fun p => ⟨teeSuccess, beBytes 32 p.1, p.2⟩ := by
  unfold hdnodePrivateCkd bip32Child
  dsimp only
  rw [ckdInput_eq, number_parent hk, ckdLoop_eq]
  generalize (hmac c ([0] ++ beBytes 32 k ++ beBytes 4 (2 ^ 31))).val = mac
  by_cases hlt : number (mac.take 32) < curveOrder
  · have hmod := bnMod_eq (x := number (mac.take 32) + k) (by omega)
    by_cases h0 : (number (mac.take 32) + k) % curveOrder ≠ 0
    · have hv : Valid (number (mac.take 32)) k := ⟨hlt, by rw [hmod]; exact h0⟩
      rw [if_pos ⟨Nat.succ_ne_zero fuel, hv⟩, if_pos ⟨hlt, h0⟩, hmod]
      rfl
    · have hnv : ¬ Valid (number (mac.take 32)) k := fun h => h0 (by rw [← hmod]; exact h.2)
      rw [if_neg fun h => hnv h.2, if_neg fun h => h0 h.2]
      rfl
  · rw [if_neg fun h => hlt h.2.1, if_neg fun h => hlt h.1]
    rfl

theorem privateCkd_zero : hdnodePrivateCkd hmac 0 (beBytes 32 k) c i = none := rfl

/-- the MAC of a child is determined by its key and its chain code -/
theorem mac_of_child (hk : k < curveOrder) {i j : Nat} {key : Nat} {chain : List UInt8}
    (hi : bip32Child hmac k c i = some (key, chain))
    (hj : bip32Child hmac k c j = some (key, chain)) :
    hmac c ([0] ++ beBytes 32 k ++ beBytes 4 i) = hmac c ([0] ++ beBytes 32 k ++ beBytes 4 j) := by
  unfold bip32Child at hi hj
  dsimp only at hi hj
  split at hi
  · rename_i hvi
    split at hj
    · rename_i hvj
      simp only [Option.some.injEq, Prod.mk.injEq] at hi hj
      obtain ⟨hkey, hchain⟩ := hi
      obtain ⟨hkey', hchain'⟩ := hj
      generalize hmac c ([0] ++ beBytes 32 k ++ beBytes 4 i) = m at *
      generalize hmac c ([0] ++ beBytes 32 k ++ beBytes 4 j) = m' at *
      have hil : number (m.val.take 32) = number (m'.val.take 32) := by
        have hcong : number (m.val.take 32) + k ≡ number (m'.val.take 32) + k [MOD curveOrder] :=
          hkey.trans hkey'.symm
        exact Nat.ModEq.eq_of_lt_of_lt (Nat.ModEq.add_right_cancel' k hcong) hvi.1 hvj.1
      have htake : m.val.take 32 = m'.val.take 32 := by
        apply number_inj _ hil
        rw [List.length_take, List.length_take, m.property, m'.property]
      apply Subtype.ext
      rw [← List.take_append_drop 32 m.val, ← List.take_append_drop 32 m'.val, htake, hchain,
        hchain']
    · cases hj
  · cases hi

theorem bip32Child_congr {i j : Nat}
    (h : hmac c ([0] ++ beBytes 32 k ++ beBytes 4 i) = hmac c ([0] ++ beBytes 32 k ++ beBytes 4 j)) :
    bip32Child hmac k c i = bip32Child hmac k c j := by
  unfold bip32Child
  rw [h]

theorem bip32Child_lt {q : Nat × List UInt8} (h : bip32Child hmac k c i = some q) :
    q.1 < 256 ^ 32 := by
  unfold bip32Child at h
  dsimp only at h
  split at h
  · cases h
    exact lt_trans (Nat.mod_lt _ (by decide)) curveOrder_lt
  · cases h

theorem followsPrivate_iff (hk : k < curveOrder) :
    FollowsPrivate hmac k c i ↔ SameMac hmac k c i := by
  constructor
  · rintro ⟨fuel, r, hr, hspec⟩
    cases fuel with
    | zero =>
      rw [privateCkd_zero] at hr
      cases hr
    | succ fuel =>
      rw [privateCkd_eq hk] at hr
      obtain ⟨p, hp, rfl⟩ := Option.map_eq_some_iff.mp hr
      cases hi : bip32Child hmac k c i with
      | none =>
        rw [hi] at hspec
        exact absurd rfl hspec
      | some q =>
        rw [hi] at hspec
        have hq : q = p := by
          simp only [Ckd.mk.injEq, true_and] at hspec
          obtain ⟨hkey, hchain⟩ := hspec
          have hnum := congrArg number hkey
          rw [number_beBytes, number_beBytes, Nat.mod_eq_of_lt (bip32Child_lt hp),
            Nat.mod_eq_of_lt (bip32Child_lt hi)] at hnum
          exact Prod.ext hnum.symm hchain.symm
        rw [hq] at hi
        exact ⟨by rw [hi]; rfl, mac_of_child hk hi hp⟩
  · rintro ⟨hsome, hmac'⟩
    obtain ⟨q, hq⟩ := Option.isSome_iff_exists.mp hsome
    have h31 := bip32Child_congr hmac'
    rw [hq] at h31
    refine ⟨1, ⟨teeSuccess, beBytes 32 q.1, q.2⟩, ?_, ?_⟩
    · rw [privateCkd_eq hk, ← h31]
      rfl
    · rw [hq]

/-- a child that the private derivation finds has its point found by the public one -/
theorem SameMac.followsPublic (hk : k < curveOrder) (h : SameMac hmac k c i) :
    FollowsPublic hmac point k c i := by
  intro key chain hchild
  have h31 := bip32Child_congr h.2
  rw [hchild] at h31
  have hlt : key < 256 ^ 32 := bip32Child_lt hchild
  refine ⟨1, ?_⟩
  rw [hdnodePublicCkd, privateCkd_eq hk, ← h31]
  show some _ = _
  rw [number_beBytes, Nat.mod_eq_of_lt hlt]

/-- **When the derivation follows the standard.**  It returns what the standard says for index `i`
exactly when there is such a child and its MAC is the one of index `2^31`; and no index is derived
from data of its own. -/
theorem hdnode_ckd_iff (hmac : Hmac512) (point : Nat → Nat × Nat) (k : Nat) (h1 : 1 ≤ k)
    (hk : k < curveOrder) (c : List UInt8) (i : Nat) (hi : Hardened i) :
    (FollowsPrivate hmac k c i ∧ FollowsPublic hmac point k c i ↔ SameMac hmac k c i) ∧
      ¬ SeparatesIndices k i := by
  constructor
  · constructor
    · intro h
      exact (followsPrivate_iff hk).mp h.1
    · intro h
      exact ⟨(followsPrivate_iff hk).mpr h, h.followsPublic hk⟩
  · intro hsep
    by_cases he : i = 2 ^ 31
    · exact hsep (2 ^ 31 + 1) ⟨by decide, by decide⟩ (by omega) (ckdInput_index _ _ _)
    · exact hsep (2 ^ 31) ⟨by decide, by decide⟩ (fun e => he e.symm) (ckdInput_index _ _ _)

/-- a MAC that is `1`, then zeros -/
def unitMac : Hmac512 := fun _ _ => ⟨beBytes 32 1 ++ List.replicate 32 0, by
  rw [List.length_append, length_beBytes, List.length_replicate]⟩

theorem hdnode_ckd_iff_first :
    (FollowsPrivate unitMac 1 [] (2 ^ 31) ∧ FollowsPublic unitMac (fun k => (k, k)) 1 [] (2 ^ 31) ↔
      SameMac unitMac 1 [] (2 ^ 31)) ∧ ¬ SeparatesIndices 1 (2 ^ 31) :=
  hdnode_ckd_iff unitMac (fun k => (k, k)) 1 (by decide) (by decide) [] (2 ^ 31)
    ⟨by decide, by decide⟩

/-- a MAC whose left half is not below the order, for every index -/
def largeMac : Hmac512 := fun _ _ => List.Vector.replicate 64 255

theorem largeMac_child (k : Nat) (c : List UInt8) (i : Nat) : bip32Child largeMac k c i = none := by
  have hil : ¬ number ((largeMac c ([0] ++ beBytes 32 k ++ beBytes 4 i)).val.take 32) < curveOrder := by
    show ¬ number ((List.Vector.replicate 64 255).val.take 32) < curveOrder
    decide
  unfold bip32Child
  dsimp only
  rw [if_neg fun h => hil h.1]

/-- the derivation does not return for that MAC -/
theorem hdnode_ckd_fails : ¬ ∀ (hmac : Hmac512) (k : Nat), 1 ≤ k → k < curveOrder →
    ∀ (c : List UInt8) (i : Nat), Hardened i → FollowsPrivate hmac k c i := by
  intro h
  obtain ⟨hsome, -⟩ := (followsPrivate_iff (by decide)).mp
    (h largeMac 1 (by decide) (by decide) [] (2 ^ 31) ⟨by decide, by decide⟩)
  rw [largeMac_child] at hsome
  cases hsome

/-- **All accounts share their keys.** -/
theorem accounts_share_keys (hmac : Hmac512) (point : Nat → Nat × Nat) (fuel : Nat)
    (masterkeyExt : List UInt8) (i j : Nat) :
    getChildPrivatekey hmac fuel masterkeyExt i = getChildPrivatekey hmac fuel masterkeyExt j ∧
      getChildPublickey hmac point fuel masterkeyExt i
        = getChildPublickey hmac point fuel masterkeyExt j := by
  have hindex : ∀ i j, hdnodePrivateCkd hmac fuel (masterkeyExt.take 32) (masterkeyExt.drop 32) i
      = hdnodePrivateCkd hmac fuel (masterkeyExt.take 32) (masterkeyExt.drop 32) j := by
    intro i j
    unfold hdnodePrivateCkd
    rw [ckdInput_index _ i j]
  refine ⟨hindex _ _, ?_⟩
  unfold getChildPublickey hdnodePublicCkd
  rw [hindex]

end MTower.Wallet
