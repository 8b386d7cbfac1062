import MTower.Lib.Loop

/-!
# Parameters on their way to a Trusted Application

The same twelve bytes are a `param_val`, a `param_mem`, a `TEE_Param` and the union of an
`optee_msg_param`; a `Slot` is their three words.  A request buffer is a sequence of words.

* `copyInParams`      `copy_in_params` of `entry_std.c`: message to `tee_ta_param`;
* `copyOutParam`      `copy_out_param`: the output words back to the message;
* `pseudoCopyIn`, `pseudoUpdateOut`  `copy_in_param` and `update_out_param` of `pseudo_ta.c`;
* `copyInParams_eq`   the loop of `copy_in_params`, slot by slot.

`copy_in_params` leaves `pt[n]` unset for `n ≥ num_params`; `junk` is what the stack held there.
-/

set_option linter.unusedVariables false

namespace MTower.Kernel
open Lib

abbrev Words := Nat → Nat

/-! ## result codes and type codes -/

def teeSuccess : Nat := 0
def teeErrorGeneric : Nat := 0xFFFF0000
def teeErrorBadParameters : Nat := 0xFFFF0006
def teeErrorItemNotFound : Nat := 0xFFFF0008
def teeErrorOutOfMemory : Nat := 0xFFFF000C

def teeOriginTee : Nat := 3
def teeOriginTrustedApp : Nat := 4

def teeNumParams : Nat := 4

/-- `TEE_PARAM_TYPE_*` -/
def paramTypeNone : Nat := 0
def paramTypeValueInput : Nat := 1
def paramTypeValueOutput : Nat := 2
def paramTypeValueInout : Nat := 3
def paramTypeMemrefInput : Nat := 5
def paramTypeMemrefOutput : Nat := 6
def paramTypeMemrefInout : Nat := 7

/-- `OPTEE_MSG_ATTR_TYPE_*` -/
def msgAttrTypeMask : Nat := 0xff
def msgAttrNone : Nat := 0
def msgAttrValueInput : Nat := 1
def msgAttrValueOutput : Nat := 2
def msgAttrValueInout : Nat := 3
def msgAttrRmemInput : Nat := 5
def msgAttrRmemOutput : Nat := 6
def msgAttrRmemInout : Nat := 7
def msgAttrTmemInput : Nat := 9
def msgAttrTmemOutput : Nat := 0xa
def msgAttrTmemInout : Nat := 0xb

/-- `TEE_PARAM_TYPES` and `TEE_PARAM_TYPE_GET` -/
def teeParamTypes (t0 t1 t2 t3 : Nat) : Nat := t0 ||| t1 <<< 4 ||| t2 <<< 8 ||| t3 <<< 12

def teeParamTypeGet (t i : Nat) : Nat := t >>> (i * 4) &&& 0xF

/-! ## slots -/

structure Slot where
  a : Nat
  b : Nat
  c : Nat
deriving DecidableEq, Repr

def Slot.zero : Slot := ⟨0, 0, 0⟩

/-- `TEE_Param params[TEE_NUM_PARAMS]` -/
abbrev TeeParams := Fin 4 → Slot

instance teeParams_neZero : NeZero 4 := ⟨by decide⟩

/-- `struct tee_ta_param` -/
structure TeeTaParam where
  types : Nat
  u : Nat → Slot

def TeeTaParam.params (p : TeeTaParam) : TeeParams := fun i => p.u i

/-- an entry point wrote to the parameters it was given -/
def TeeTaParam.write (p : TeeTaParam) (q : TeeParams) : TeeTaParam :=
  { p with u := fun n => if h : n < 4 then q ⟨n, h⟩ else p.u n }

/-- `struct optee_msg_param` -/
structure MsgParam where
  attr : Nat
  u : Slot
deriving DecidableEq, Repr

/-- the `optee_msg_param` at word `p` of a message -/
def msgParamAt (w : Words) (p : Nat) : MsgParam := ⟨w p, w (p + 1), w (p + 2), w (p + 3)⟩

/-! ## `entry_std.c` -/

/-- the locals of `copy_in_params` -/
structure CopyIn where
  pt : Nat → Nat
  u : Nat → Slot
  savedAttr : Nat → Nat

def CopyIn.put (s : CopyIn) (n type : Nat) (u : Slot) : CopyIn :=
  { s with pt := Function.update s.pt n type, u := Function.update s.u n u }

/-- the body of the loop of `copy_in_params` -/
def copyInStep (params : Nat → MsgParam) (s : CopyIn) (n : Nat) : Except Nat CopyIn :=
  let s := { s with savedAttr := Function.update s.savedAttr n (params n).attr }
  let attr := s.savedAttr n &&& msgAttrTypeMask
  if attr = msgAttrNone then .ok (s.put n paramTypeNone .zero)
  else if attr = msgAttrValueInput ∨ attr = msgAttrValueOutput ∨ attr = msgAttrValueInout then
    .ok (s.put n (paramTypeValueInput + attr - msgAttrValueInput)
      { s.u n with a := (params n).u.a, b := (params n).u.b })
  else if attr = msgAttrTmemInput ∨ attr = msgAttrTmemOutput ∨ attr = msgAttrTmemInout then
    .ok (s.put n (paramTypeMemrefInput + attr - msgAttrTmemInput)
      { s.u n with a := (params n).u.a, b := (params n).u.b })
  else if attr = msgAttrRmemInput ∨ attr = msgAttrRmemOutput ∨ attr = msgAttrRmemInout then
    .ok (s.put n (paramTypeMemrefInput + attr - msgAttrRmemInput)
      { s.u n with a := (params n).u.a, b := (params n).u.b })
  else .error teeErrorBadParameters

def copyInParams (junk : Nat → Nat) (params : Nat → MsgParam) (numParams : Nat) :
    Except Nat (TeeTaParam × (Nat → Nat)) :=
  if numParams > teeNumParams then .error teeErrorBadParameters
  else do
    let s ← (List.range numParams).foldlM (copyInStep params) ⟨junk, fun _ => .zero, fun _ => 0⟩
    pure (⟨teeParamTypes (s.pt 0) (s.pt 1) (s.pt 2) (s.pt 3), s.u⟩, s.savedAttr)

/-- the body of the loop of `copy_out_param`, on the message parameters at word `base` -/
def copyOutStep (p : TeeTaParam) (savedAttr : Nat → Nat) (base : Nat) (w : Words) (n : Nat) :
    Words :=
  let type := teeParamTypeGet p.types n
  let attr := savedAttr n &&& msgAttrTypeMask
  if type = paramTypeMemrefOutput ∨ type = paramTypeMemrefInout then
    if attr = msgAttrTmemOutput ∨ attr = msgAttrTmemInout ∨ attr = msgAttrRmemOutput ∨
        attr = msgAttrRmemInout then
      Function.update w (base + 4 * n + 2) (p.u n).b
    else w
  else if type = paramTypeValueOutput ∨ type = paramTypeValueInout then
    Function.update (Function.update w (base + 4 * n + 1) (p.u n).a) (base + 4 * n + 2) (p.u n).b
  else w

def copyOutParam (p : TeeTaParam) (numParams : Nat) (savedAttr : Nat → Nat) (base : Nat)
    (w : Words) : Words :=
  (List.range numParams).foldl (copyOutStep p savedAttr base) w

/-! ## `pseudo_ta.c` -/

def IsValue (type : Nat) : Prop :=
  type = paramTypeValueInput ∨ type = paramTypeValueOutput ∨ type = paramTypeValueInout

def IsMemref (type : Nat) : Prop :=
  type = paramTypeMemrefInput ∨ type = paramTypeMemrefOutput ∨ type = paramTypeMemrefInout

instance (type : Nat) : Decidable (IsValue type) := inferInstanceAs (Decidable (_ ∨ _ ∨ _))
instance (type : Nat) : Decidable (IsMemref type) := inferInstanceAs (Decidable (_ ∨ _ ∨ _))

/-- `copy_in_param`; `junk` is what the local `tee_param` array held -/
def pseudoCopyIn (p : TeeTaParam) (junk : TeeParams) : TeeParams := fun n =>
  if IsValue (teeParamTypeGet p.types n) ∨ IsMemref (teeParamTypeGet p.types n) then
    { junk n with a := (p.u n).a, b := (p.u n).b }
  else .zero

/-- `update_out_param`: only value outputs come back -/
def pseudoUpdateOut (q : TeeParams) (p : TeeTaParam) : TeeTaParam :=
  p.write fun n =>
    if teeParamTypeGet p.types n = paramTypeValueOutput ∨
        teeParamTypeGet p.types n = paramTypeValueInout then
      { p.u n with a := (q n).a, b := (q n).b }
    else p.u n

/-! ## the loop of `copy_in_params`, slot by slot -/

/-- the `TEE_PARAM_TYPE_*` of an attribute word, `none` when it has none -/
def typeOfAttr (attr : Nat) : Option Nat :=
  let t := attr &&& msgAttrTypeMask
  if t = 0 ∨ t = 1 ∨ t = 2 ∨ t = 3 ∨ t = 5 ∨ t = 6 ∨ t = 7 then some t
  else if t = 9 ∨ t = 10 ∨ t = 11 then some (t - 4)
  else none

def slotOfMsg (p : MsgParam) : Slot :=
  if p.attr &&& msgAttrTypeMask = 0 then .zero else ⟨p.u.a, p.u.b, 0⟩

/-- What one iteration of the loop of `copy_in_params` does. -/
theorem copyInStep_eq (params : Nat → MsgParam) (s : CopyIn) (n : Nat) (hz : s.u n = .zero) :
    copyInStep params s n = match typeOfAttr (params n).attr with
      | none => .error teeErrorBadParameters
      | some t => .ok ⟨Function.update s.pt n t, Function.update s.u n (slotOfMsg (params n)),
          Function.update s.savedAttr n (params n).attr⟩ := by
  unfold copyInStep typeOfAttr slotOfMsg CopyIn.put
  simp only [Function.update_self, hz, Slot.zero, msgAttrNone, msgAttrValueInput,
    msgAttrValueOutput, msgAttrValueInout, msgAttrTmemInput, msgAttrTmemOutput, msgAttrTmemInout,
    msgAttrRmemInput, msgAttrRmemOutput, msgAttrRmemInout, paramTypeNone, paramTypeValueInput,
    paramTypeMemrefInput]
  generalize (params n).attr &&& msgAttrTypeMask = t
  by_cases h0 : t = 0
  · subst h0; rfl
  by_cases h1 : t = 1 ∨ t = 2 ∨ t = 3
  · rcases h1 with rfl | rfl | rfl <;> rfl
  by_cases h2 : t = 9 ∨ t = 10 ∨ t = 11
  · rcases h2 with rfl | rfl | rfl <;> rfl
  by_cases h3 : t = 5 ∨ t = 6 ∨ t = 7
  · rcases h3 with rfl | rfl | rfl <;> rfl
  have h4 : ¬ (t = 0 ∨ t = 1 ∨ t = 2 ∨ t = 3 ∨ t = 5 ∨ t = 6 ∨ t = 7) := by omega
  rw [if_neg h0, if_neg h1, if_neg h2, if_neg h3, if_neg h4, if_neg h2]

section
variable (junk : Nat → Nat) (params : Nat → MsgParam)

/-- every one of the first `k` attribute words has a type -/
def Typed (k : Nat) : Prop := ∀ n < k, (typeOfAttr (params n).attr).isSome = true

instance (k : Nat) : Decidable (Typed params k) :=
  inferInstanceAs (Decidable (∀ n < k, (typeOfAttr (params n).attr).isSome = true))

/-- `copy_in_params` accepts the first `k` parameters -/
def Decodes (k : Nat) : Prop := k ≤ teeNumParams ∧ Typed params k

instance (k : Nat) : Decidable (Decodes params k) := inferInstanceAs (Decidable (_ ∧ _))

def typesIn : Nat → Nat → Nat := filled (fun n => (typeOfAttr (params n).attr).getD 0) junk

def slotsIn : Nat → Nat → Slot := filled (fun n => slotOfMsg (params n)) fun _ => .zero

def attrsIn : Nat → Nat → Nat := filled (fun n => (params n).attr) fun _ => 0

theorem copyIn_loop (k : Nat) :
    (List.range k).foldlM (copyInStep params) ⟨junk, fun _ => .zero, fun _ => 0⟩ =
      if Typed params k then
        .ok ⟨typesIn junk params k, slotsIn params k, attrsIn params k⟩
      else .error teeErrorBadParameters := by
  induction k with
  | zero =>
    have h0 : Typed params 0 := fun n hn => absurd hn (by omega)
    rw [if_pos h0, typesIn, slotsIn, attrsIn, filled_zero, filled_zero, filled_zero]
    rfl
  | succ k ih =>
    rw [List.range_succ, List.foldlM_append, ih]
    by_cases ht : Typed params k
    · rw [if_pos ht]
      show (copyInStep params _ k >>= pure) = _
      have hz : slotsIn params k k = .zero := filled_ge _ _ (le_refl k)
      rw [copyInStep_eq params _ k hz]
      cases hk : typeOfAttr (params k).attr with
      | none =>
        rw [if_neg]
        · rfl
        · intro h
          have := h k (by omega)
          rw [hk] at this
          cases this
      | some t =>
        rw [if_pos]
        · have e : t = (typeOfAttr (params k).attr).getD 0 := by rw [hk]; rfl
          rw [e]
          simp only [typesIn, slotsIn, attrsIn]
          rw [← update_filled (fun n => (typeOfAttr (params n).attr).getD 0) junk k,
            ← update_filled (fun n => slotOfMsg (params n)) (fun _ => Slot.zero) k,
            ← update_filled (fun n => (params n).attr) (fun _ => 0) k]
          rfl
        · intro n hn
          by_cases hnk : n = k
          · subst hnk
            rw [hk]
            rfl
          · exact ht n (by omega)
    · rw [if_neg ht, if_neg fun h => ht fun n hn => h n (by omega)]
      rfl

/-- **`copy_in_params`, slot by slot.** -/
theorem copyInParams_eq (k : Nat) : copyInParams junk params k =
    if Decodes params k then
      .ok (⟨teeParamTypes (typesIn junk params k 0) (typesIn junk params k 1)
          (typesIn junk params k 2) (typesIn junk params k 3), slotsIn params k⟩,
        attrsIn params k)
    else .error teeErrorBadParameters := by
  unfold copyInParams
  rw [copyIn_loop]
  by_cases h4 : k > teeNumParams
  · have hd : ¬ Decodes params k := fun h => absurd h.1 (by omega)
    rw [if_pos h4, if_neg hd]
  · rw [if_neg h4]
    by_cases ht : Typed params k
    · have hd : Decodes params k := ⟨by omega, ht⟩
      rw [if_pos ht, if_pos hd]
      rfl
    · have hd : ¬ Decodes params k := fun h => ht h.2
      rw [if_neg ht, if_neg hd]
      rfl

end

end MTower.Kernel
