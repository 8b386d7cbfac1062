import MTower.Cryp.Objects
import MTower.Kernel.Param

/-!
# Parameters and attributes across the system call

The library of a TA packs its parameters and attributes into words, and they are unpacked again:
the parameters by the library itself, the attributes by the kernel.

* `uteeFromParam`, `uteeToParam`  `struct utee_params`, a loop over the four slots each;
* `uteeFromAttr`, `copyInAttr`    `struct utee_attribute`, and the kernel's loop body;
* `Slot.view`, `TeeAttribute.view`  which members of a union a reader takes;
* `convert_inverse`               both round trips.
-/

set_option linter.unusedVariables false

namespace MTower.Cryp
open Lib Kernel

/-! ## parameters -/

/-- `struct utee_params` -/
structure UteeParams where
  types : Nat
  vals : Nat → Nat

def UteeParams.put (up : UteeParams) (n a b : Nat) : UteeParams :=
  { up with vals := Function.update (Function.update up.vals (n * 2) a) (n * 2 + 1) b }

/-- the members of the union `TEE_Param`: a value and a memory reference lie over each other -/
def Slot.buffer (s : Slot) : Nat := s.a

def Slot.size (s : Slot) : Nat := s.b

/-- the body of the loop of `__utee_from_param` -/
def uteeFromParamStep (paramTypes : Nat) (params : Nat → Slot) (up : UteeParams) (n : Nat) :
    UteeParams :=
  if IsValue (teeParamTypeGet paramTypes n) then up.put n (params n).a (params n).b
  else if IsMemref (teeParamTypeGet paramTypes n) then
    up.put n (Slot.buffer (params n)) (Slot.size (params n))
  else up.put n 0 0

def uteeFromParam (up : UteeParams) (paramTypes : Nat) (params : Nat → Slot) : UteeParams :=
  (List.range teeNumParams).foldl (uteeFromParamStep paramTypes params)
    { up with types := paramTypes }

/-- the body of the loop of `__utee_to_param` -/
def uteeToParamStep (types : Nat) (up : UteeParams) (params : Nat → Slot) (n : Nat) :
    Nat → Slot :=
  let a := up.vals (n * 2)
  let b := up.vals (n * 2 + 1)
  if IsValue (teeParamTypeGet types n) then
    Function.update params n { params n with a := a, b := b }
  else if IsMemref (teeParamTypeGet types n) then
    -- `memref.buffer` and `memref.size`
    Function.update params n { params n with a := a, b := b }
  else params

/-- the parameters and `*param_types` -/
def uteeToParam (params : Nat → Slot) (up : UteeParams) : (Nat → Slot) × Nat :=
  ((List.range teeNumParams).foldl (uteeToParamStep up.types up) params, up.types)

/-- what a reader that goes by the type takes from a slot -/
inductive ParamView where
  | none
  | value (a b : Nat)
  | memref (buffer size : Nat)
deriving DecidableEq, Repr

def Slot.view (type : Nat) (s : Slot) : ParamView :=
  if IsValue type then .value s.a s.b
  else if IsMemref type then .memref (Slot.buffer s) (Slot.size s)
  else .none

/-- the words of a packed slot -/
def packed (type : Nat) (s : Slot) : Nat × Nat :=
  match Slot.view type s with
  | .none => (0, 0)
  | .value a b => (a, b)
  | .memref buffer size => (buffer, size)

section
variable {paramTypes type n : Nat} {params target : Nat → Slot} {up : UteeParams} {s t : Slot}

theorem UteeParams.put_at (up : UteeParams) (n a b : Nat) :
    ((up.put n a b).vals (n * 2), (up.put n a b).vals (n * 2 + 1)) = (a, b) := by
  simp [UteeParams.put]

theorem UteeParams.put_other {m a b : Nat} (h : m ≠ n) :
    ((up.put n a b).vals (m * 2), (up.put n a b).vals (m * 2 + 1)) =
      (up.vals (m * 2), up.vals (m * 2 + 1)) := by
  have h1 : m * 2 ≠ n * 2 + 1 := by omega
  have h2 : m * 2 ≠ n * 2 := by omega
  have h3 : m * 2 + 1 ≠ n * 2 + 1 := by omega
  have h4 : m * 2 + 1 ≠ n * 2 := by omega
  simp [UteeParams.put, Function.update_of_ne h1, Function.update_of_ne h2,
    Function.update_of_ne h3, Function.update_of_ne h4]

/-- one iteration stores the packed slot -/
theorem fromParamStep_eq : uteeFromParamStep paramTypes params up n =
    up.put n (packed (teeParamTypeGet paramTypes n) (params n)).1
      (packed (teeParamTypeGet paramTypes n) (params n)).2 := by
  unfold uteeFromParamStep packed Slot.view
  by_cases hv : IsValue (teeParamTypeGet paramTypes n)
  · rw [if_pos hv, if_pos hv]
  · rw [if_neg hv, if_neg hv]
    by_cases hm : IsMemref (teeParamTypeGet paramTypes n)
    · rw [if_pos hm, if_pos hm]
    · rw [if_neg hm, if_neg hm]

/-- **All four slots are packed**, one that is neither a value nor a reference as zeros. -/
theorem uteeFromParam_packed (up : UteeParams) (paramTypes : Nat) (params : Nat → Slot) :
    (uteeFromParam up paramTypes params).types = paramTypes ∧ ∀ n < teeNumParams,
      ((uteeFromParam up paramTypes params).vals (n * 2),
        (uteeFromParam up paramTypes params).vals (n * 2 + 1)) =
        packed (teeParamTypeGet paramTypes n) (params n) := by
  have h := foldl_range_inv (f := uteeFromParamStep paramTypes params) (k := teeNumParams)
    (fun k (w : UteeParams) => w.types = paramTypes ∧ ∀ n < k,
      (w.vals (n * 2), w.vals (n * 2 + 1)) = packed (teeParamTypeGet paramTypes n) (params n))
    ?_ (s := { up with types := paramTypes }) ⟨rfl, fun n hn => absurd hn (Nat.not_lt_zero n)⟩
  · exact h
  · intro k w _ hw
    rw [fromParamStep_eq]
    refine ⟨hw.1, fun n hn => ?_⟩
    by_cases hnk : n = k
    · rw [hnk, UteeParams.put_at]
    · rw [UteeParams.put_other hnk]
      exact hw.2 n (by omega)

/-- a slot that was packed and is unpacked over `t` -/
def unpacked (type : Nat) (s t : Slot) : Slot :=
  if IsValue type ∨ IsMemref type then { t with a := s.a, b := s.b } else t

theorem toParamStep_eq (h : (up.vals (n * 2), up.vals (n * 2 + 1)) =
      packed (teeParamTypeGet paramTypes n) s) :
    uteeToParamStep paramTypes up target n =
      Function.update target n (unpacked (teeParamTypeGet paramTypes n) s (target n)) := by
  unfold uteeToParamStep unpacked
  unfold packed Slot.view at h
  by_cases hv : IsValue (teeParamTypeGet paramTypes n)
  · rw [if_pos hv] at h ⊢
    obtain ⟨ha, hb⟩ := Prod.mk.inj h
    rw [if_pos (Or.inl hv), ha, hb]
  · rw [if_neg hv] at h ⊢
    by_cases hm : IsMemref (teeParamTypeGet paramTypes n)
    · rw [if_pos hm] at h ⊢
      obtain ⟨ha, hb⟩ := Prod.mk.inj h
      rw [if_pos (Or.inr hm), ha, hb]
      rfl
    · have hno : ¬ (IsValue (teeParamTypeGet paramTypes n) ∨
          IsMemref (teeParamTypeGet paramTypes n)) := fun e => e.elim hv hm
      rw [if_neg hm, if_neg hno, Function.update_eq_self]

/-- **The way back** restores the slots that were packed and leaves all others. -/
theorem uteeToParam_unpacked {w : UteeParams} (target : Nat → Slot) (htypes : w.types = paramTypes)
    (hw : ∀ n < teeNumParams, (w.vals (n * 2), w.vals (n * 2 + 1)) =
      packed (teeParamTypeGet paramTypes n) (params n)) :
    (uteeToParam target w).1 =
      filled (fun n => unpacked (teeParamTypeGet paramTypes n) (params n) (target n)) target
        teeNumParams := by
  have h := foldl_range_inv (f := uteeToParamStep w.types w) (k := teeNumParams)
    (fun k (q : Nat → Slot) => q =
      filled (fun n => unpacked (teeParamTypeGet paramTypes n) (params n) (target n)) target k)
    ?_ (s := target) (filled_zero _ _).symm
  · exact h
  · rintro k q hk rfl
    rw [htypes, toParamStep_eq (hw k hk), filled_ge _ _ (le_refl k)]
    exact update_filled _ _ k

theorem view_unpacked : Slot.view type (unpacked type s t) = Slot.view type s := by
  unfold Slot.view unpacked
  by_cases hv : IsValue type
  · rw [if_pos hv, if_pos hv, if_pos (Or.inl hv)]
  · rw [if_neg hv, if_neg hv]
    by_cases hm : IsMemref type
    · rw [if_pos hm, if_pos hm, if_pos (Or.inr hm)]
      rfl
    · rw [if_neg hm, if_neg hm]

end

/-! ## attributes -/

def teeAttrFlagValue : Nat := 1 <<< 29

/-- the members of the union in `TEE_Attribute`, which lie over each other -/
def TeeAttribute.valueA (t : TeeAttribute) : Nat := t.content.1

def TeeAttribute.valueB (t : TeeAttribute) : Nat := t.content.2

def TeeAttribute.refBuffer (t : TeeAttribute) : Nat := t.content.1

def TeeAttribute.refLength (t : TeeAttribute) : Nat := t.content.2

/-- the body of the loop of `__utee_from_attr` -/
def uteeFromAttrStep (t : TeeAttribute) : UteeAttribute :=
  if t.attributeID &&& teeAttrFlagValue ≠ 0 then ⟨t.valueA, t.valueB, t.attributeID⟩
  else ⟨t.refBuffer, t.refLength, t.attributeID⟩

/-- `attr_count` is the length of the list -/
def uteeFromAttr (attrs : List TeeAttribute) : List UteeAttribute := attrs.map uteeFromAttrStep

/-- the body of the loop of `copy_in_attrs`, which goes by `TEE_ATTR_BIT_VALUE` -/
def copyInAttr (t : UteeAttribute) : TeeAttribute :=
  if t.attributeId &&& teeAttrBitValue ≠ 0 then
    -- `content.value.a` and `content.value.b`
    ⟨t.attributeId, (t.a, t.b)⟩
  else
    -- `content.ref.buffer` and `content.ref.length`
    ⟨t.attributeId, (t.a, t.b)⟩

theorem copyInAttrs_eq (l : List UteeAttribute) : copyInAttrs l = l.map copyInAttr := by
  refine List.map_congr_left fun t _ => ?_
  unfold copyInAttr
  rw [ite_self]

/-- what a reader that goes by the flag of the id takes from an attribute -/
inductive AttrView where
  | value (a b : Nat)
  | ref (buffer length : Nat)
deriving DecidableEq, Repr

def TeeAttribute.view (flag : Nat) (t : TeeAttribute) : AttrView :=
  if t.attributeID &&& flag ≠ 0 then .value t.valueA t.valueB else .ref t.refBuffer t.refLength

theorem copyInAttr_fromAttr (t : TeeAttribute) : copyInAttr (uteeFromAttrStep t) = t := by
  unfold uteeFromAttrStep copyInAttr
  rw [ite_self]
  by_cases h : t.attributeID &&& teeAttrFlagValue ≠ 0
  · rw [if_pos h]
    rfl
  · rw [if_neg h]
    rfl

theorem copyInAttrs_fromAttr (l : List TeeAttribute) : copyInAttrs (uteeFromAttr l) = l := by
  rw [copyInAttrs_eq]
  induction l with
  | nil => rfl
  | cons t l ih =>
    rw [uteeFromAttr, List.map_cons, List.map_cons, copyInAttr_fromAttr]
    exact congrArg (t :: ·) ih

/-- **Both conversions are undone.**  The types word comes back; a slot that is a value or a
reference reads as it did, and one that is neither is packed as zeros and left as it is; the words
of a slot that its type does not name, and the slots from the fourth on, stay.  A list of
attributes comes back, and the kernel reads each of them the way the TA wrote it. -/
theorem convert_inverse :
    (∀ (up : UteeParams) (paramTypes : Nat) (params target : Nat → Slot),
      (uteeToParam target (uteeFromParam up paramTypes params)).2 = paramTypes ∧
      (∀ n < teeNumParams, ∀ type, type = teeParamTypeGet paramTypes n →
        Slot.view type ((uteeToParam target (uteeFromParam up paramTypes params)).1 n) =
          Slot.view type (params n) ∧
        ((uteeToParam target (uteeFromParam up paramTypes params)).1 n).c = (target n).c ∧
        (¬ IsValue type → ¬ IsMemref type →
          (uteeToParam target (uteeFromParam up paramTypes params)).1 n = target n ∧
          (uteeFromParam up paramTypes params).vals (n * 2) = 0 ∧
          (uteeFromParam up paramTypes params).vals (n * 2 + 1) = 0)) ∧
      (∀ n, teeNumParams ≤ n →
        (uteeToParam target (uteeFromParam up paramTypes params)).1 n = target n) ∧
      (uteeToParam params (uteeFromParam up paramTypes params)).1 = params) ∧
    ∀ l : List TeeAttribute, copyInAttrs (uteeFromAttr l) = l ∧
      (copyInAttrs (uteeFromAttr l)).map (TeeAttribute.view teeAttrBitValue) =
        l.map (TeeAttribute.view teeAttrFlagValue) := by
  refine ⟨fun up paramTypes params target => ?_, fun l => ?_⟩
  · obtain ⟨htypes, hpacked⟩ := uteeFromParam_packed up paramTypes params
    have hback := fun target => uteeToParam_unpacked target htypes hpacked
    refine ⟨htypes, fun n hn type htype => ?_, fun n hn => ?_, ?_⟩
    · subst htype
      rw [hback, filled_lt _ _ hn]
      refine ⟨view_unpacked, ?_, fun hv hm => ⟨?_, ?_⟩⟩
      · unfold unpacked
        by_cases h : IsValue (teeParamTypeGet paramTypes n) ∨ IsMemref (teeParamTypeGet paramTypes n)
        · rw [if_pos h]
        · rw [if_neg h]
      · exact if_neg fun e => e.elim hv hm
      · have hzero := hpacked n hn
        unfold packed Slot.view at hzero
        rw [if_neg hv, if_neg hm] at hzero
        exact Prod.mk.inj hzero
    · rw [hback]
      exact filled_ge _ _ hn
    · rw [hback]
      funext n
      by_cases hn : n < teeNumParams
      · rw [filled_lt _ _ hn]
        exact ite_self _
      · exact filled_ge _ _ (Nat.not_lt.mp hn)
  · rw [copyInAttrs_fromAttr]
    exact ⟨rfl, rfl⟩

end MTower.Cryp
