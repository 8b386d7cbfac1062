import MTower.Arith.Runs

/-!
# What a call stores

* `Call.temporary`   the number that a call hands to `copy_mpi_to_bigint`;
* `Effect`           a call panics, answers, or stores that number;
* `run_eq`           every call does what its effect says;
* `Call.result`      the value that a call is to store, when its operands are valid;
* `temporary_value`  it is the value of the temporary.
-/

set_option linter.unusedVariables false

namespace MTower.Arith
open Lib

/-- the object that a call writes -/
def Call.dest : Call → Option Nat
  | .add dest _ _ | .sub dest _ _ | .neg dest _ | .mod dest _ _ | .addMod dest _ _ _
  | .subMod dest _ _ _ | .mulMod dest _ _ _ | .invMod dest _ _ | .expMod dest _ _ _
  | .shiftRight dest _ _ | .setBit dest _ _ => some dest
  | .relativePrime _ _ => none

/-- the number for `copy_mpi_to_bigint`; none when the library refuses the operands -/
def Call.temporary (lib : Mbedtls) (s : Sys) : Call → Option Mpi
  | .add dest op1 op2 => some (lib.addMpi (s.read dest) (s.read op1) (s.read op2))
  | .sub dest op1 op2 => some (lib.subMpi (s.read dest) (s.read op1) (s.read op2))
  | .neg dest src => some ((negSourceMpi lib s dest src).mulSign (-1))
  | .mod dest op n => lib.modMpi (s.read dest) (s.read op) (s.read n)
  | .addMod dest op1 op2 n =>
    lib.modMpi (s.read dest) (lib.addMpi (mpiOf none) (s.read op1) (s.read op2)) (s.read n)
  | .subMod dest op1 op2 n =>
    lib.modMpi (s.read dest) (lib.subMpi (mpiOf none) (s.read op1) (s.read op2)) (s.read n)
  | .mulMod dest op1 op2 n =>
    lib.modMpi (s.read dest) (lib.mulMpi (mpiOf none) (s.read op1) (s.read op2)) (s.read n)
  | .invMod dest op n => lib.invMod (s.read dest) (s.read op) (s.read n)
  | .expMod dest op1 op2 n =>
    lib.expMod (s.read dest) (s.read op1) (s.read op2) (s.read n)
  | .shiftRight dest op bits => some (shifted lib s dest op bits)
  | .setBit op bitIndex value => some (lib.setBit (s.read op) bitIndex value)
  | .relativePrime _ _ => none

/-- the operands with which the code goes on -/
def Call.Checked (s : Sys) : Call → Prop
  | .mod _ _ n | .addMod _ _ _ n | .subMod _ _ _ n | .mulMod _ _ _ n => 2 ≤ (s.big n).value
  | .invMod _ op n => 2 ≤ (s.big n).value ∧ (s.big op).value ≠ 0
  | .expMod _ _ _ n => 2 < (s.big n).value
  | _ => True

instance (s : Sys) : (call : Call) → Decidable (call.Checked s)
  | .mod _ _ n | .addMod _ _ _ n | .subMod _ _ _ n | .mulMod _ _ _ n =>
    inferInstanceAs (Decidable (2 ≤ (s.big n).value))
  | .invMod _ op n => inferInstanceAs (Decidable (2 ≤ (s.big n).value ∧ (s.big op).value ≠ 0))
  | .expMod _ _ _ n => inferInstanceAs (Decidable (2 < (s.big n).value))
  | .add _ _ _ | .sub _ _ _ | .neg _ _ | .shiftRight _ _ _ | .setBit _ _ _
  | .relativePrime _ _ => inferInstanceAs (Decidable True)

inductive Effect
  | fault (f : Fault)
  | answer (res : Nat)
  /-- `full` is how the call ends when there is no room -/
  | store (dest : Nat) (x : Mpi) (full : Except Fault Nat)

def Effect.outcome (s : Sys) : Effect → Except Fault (Nat × Sys)
  | .fault f => .error f
  | .answer res => .ok (res, s)
  | .store dest x full =>
    match s.store dest x with
    | some s' => .ok (teeSuccess, s')
    | none => full.map fun res => (res, s)

/-- a number that the library may refuse to compute -/
def Effect.ofTemporary (dest : Nat) (full : Except Fault Nat) : Option Mpi → Effect
  | none => .fault .panic
  | some x => .store dest x full

/-- `MPI_CHECK` panics, `TEE_BigIntSetBit` returns -/
def Call.full : Call → Except Fault Nat
  | .setBit _ _ _ => .ok teeErrorOverflow
  | _ => .error .panic

def Call.effect (lib : Mbedtls) (s : Sys) (call : Call) : Effect :=
  match call with
  | .relativePrime op1 op2 =>
    if op1 = op2 then .fault .uninitialised
    else .answer (cmpInt (lib.gcd (mpiOf none) (s.read op1) (s.read op2)) 1 == 0).toNat
  | .expMod dest op1 op2 n =>
    if ¬ call.Checked s then .fault .panic
    else if (s.big n).value % 2 ≠ 1 then .answer teeErrorNotSupported
    else .ofTemporary dest call.full (call.temporary lib s)
  | _ =>
    if ¬ call.Checked s then .fault .panic
    else match call.dest with
      | some dest => .ofTemporary dest call.full (call.temporary lib s)
      | none => .fault .panic

section
variable {s : Sys} {call : Call} {dest : Nat}

theorem stored_outcome (s : Sys) (dest : Nat) (o : Option Mpi) :
    stored teeSuccess (o.bind (s.store dest)) =
      (Effect.ofTemporary dest (.error .panic) o).outcome s := by
  cases o with
  | none => rfl
  | some x =>
    rw [Option.bind_some]
    simp only [Effect.ofTemporary, Effect.outcome]
    cases s.store dest x <;> rfl

theorem stored_bind {x : O Unit} {o : Option Mpi} (h : x s = stored () (o.bind (s.store dest))) :
    (x >>= fun _ => pure teeSuccess : O Nat) s =
      (Effect.ofTemporary dest (.error .panic) o).outcome s := by
  rw [← stored_outcome]
  cases ho : o.bind (s.store dest) with
  | none =>
    rw [ho] at h
    exact bind_of_error h
  | some s' =>
    rw [ho] at h
    exact bind_of_ok h

/-- a function that checks its operands first -/
theorem checked_bind {x : O Unit} {o : Option Mpi} {p c : Prop} [Decidable p] [Decidable c]
    (hc : ¬ c ↔ p) (h : x s = if p then .error .panic else stored () (o.bind (s.store dest))) :
    (x >>= fun _ => pure teeSuccess : O Nat) s = (if ¬ c then Effect.fault .panic
      else .ofTemporary dest (.error .panic) o).outcome s := by
  by_cases hp : p
  · rw [if_pos hp] at h
    rw [if_pos (hc.mpr hp)]
    exact bind_of_error h
  · rw [if_neg hp] at h
    rw [if_neg (hc.not.mpr hp)]
    exact stored_bind h

theorem mod_run (lib : Mbedtls) (hs : s.Idle) (op n : Nat) : teeBigIntMod lib dest op n s =
    if (s.big n).value < 2 then .error .panic
    else stored () ((lib.modMpi (s.read dest) (s.read op) (s.read n)).bind (s.store dest)) := by
  have hcheck := checkModulus_run (n := n) hs
  rw [teeBigIntMod]
  by_cases hn : (s.big n).value < 2
  · rw [if_pos hn] at hcheck ⊢
    exact bind_of_error hcheck
  · rw [if_neg hn] at hcheck ⊢
    rw [bind_of_ok hcheck]
    exact binary_run hs _

/-- **A call does what its effect says.** -/
theorem run_eq (lib : Mbedtls) (hs : s.Idle) (call : Call) :
    call.run lib s = (call.effect lib s).outcome s := by
  have hmod : ∀ v : Int, ¬ 2 ≤ v ↔ v < 2 := fun v => not_le
  cases call with
  | add dest op1 op2 => exact stored_bind (binary_run hs _)
  | sub dest op1 op2 => exact stored_bind (binary_run hs _)
  | neg dest src => exact stored_bind (o := some _) (neg_run lib hs src)
  | mod dest op n => exact checked_bind (hmod _) (mod_run lib hs op n)
  | addMod dest op1 op2 n => exact checked_bind (hmod _) (binaryMod_run lib hs _)
  | subMod dest op1 op2 n => exact checked_bind (hmod _) (binaryMod_run lib hs _)
  | mulMod dest op1 op2 n => exact checked_bind (hmod _) (binaryMod_run lib hs _)
  | invMod dest op n =>
    refine checked_bind ?_ (invMod_run lib hs op)
    show ¬ (2 ≤ (s.big n).value ∧ (s.big op).value ≠ 0) ↔ _
    rw [not_and_or, hmod, not_not]
  | expMod dest op1 op2 n =>
    refine (expMod_run lib hs).trans ?_
    have hchecked : ¬ (Call.expMod dest op1 op2 n).Checked s ↔ (s.big n).value ≤ 2 := not_lt
    rw [Call.effect]
    by_cases h2 : (s.big n).value ≤ 2
    · rw [if_pos h2, if_pos (hchecked.mpr h2)]
      rfl
    rw [if_neg h2, if_neg (hchecked.not.mpr h2)]
    by_cases hodd : (s.big n).value % 2 ≠ 1
    · rw [if_pos hodd, if_pos hodd]
      rfl
    · rw [if_neg hodd, if_neg hodd, stored_outcome]
      rfl
  | shiftRight dest op bits => exact stored_bind (o := some _) (shiftRight_run lib hs op bits)
  | setBit op bitIndex value =>
    refine (setBit_run lib hs bitIndex value).trans ?_
    show _ = (Effect.store op (lib.setBit (s.read op) bitIndex value) (.ok teeErrorOverflow)).outcome s
    rw [Effect.outcome]
    cases s.store op (lib.setBit (s.read op) bitIndex value) <;> rfl
  | relativePrime op1 op2 =>
    rw [Call.run, Call.effect]
    by_cases h : op1 = op2
    · rw [if_pos h]
      refine bind_of_error ((relativePrime_run lib hs).trans (if_pos h))
    · rw [if_neg h]
      exact bind_of_ok ((relativePrime_run lib hs).trans (if_neg h))

end

/-! ## the value that is stored -/

/-- the value of `BigIntNeg`, …; none when the operands are not valid -/
def Call.result (s : Sys) : Call → Option Int
  | .add _ op1 op2 => some ((s.big op1).value + (s.big op2).value)
  | .sub _ op1 op2 => some ((s.big op1).value - (s.big op2).value)
  | .neg _ src => some (-(s.big src).value)
  | .mod _ op n => if 2 ≤ (s.big n).value then some ((s.big op).value % (s.big n).value) else none
  | .addMod _ op1 op2 n => if 2 ≤ (s.big n).value then
      some (((s.big op1).value + (s.big op2).value) % (s.big n).value) else none
  | .subMod _ op1 op2 n => if 2 ≤ (s.big n).value then
      some (((s.big op1).value - (s.big op2).value) % (s.big n).value) else none
  | .mulMod _ op1 op2 n => if 2 ≤ (s.big n).value then
      some ((s.big op1).value * (s.big op2).value % (s.big n).value) else none
  | .invMod _ op n => if 2 ≤ (s.big n).value ∧ (s.big op).value ≠ 0 then
      inverse (s.big op).value (s.big n).value else none
  | .expMod _ op1 op2 n => if 2 < (s.big n).value ∧ (s.big n).value % 2 = 1 then
      power (s.big op1).value (s.big op2).value (s.big n).value else none
  | .shiftRight _ op bits => some ((s.big op).value.tdiv (2 ^ bits))
  | .setBit op bitIndex value =>
    some ((s.big op).sign * withBit (mag (s.big op).limbs (s.big op).nblimbs) bitIndex value)
  | .relativePrime _ _ => none

/-- the call stores a number of this value if there is room -/
structure Call.Stores (lib : Mbedtls) (s : Sys) (call : Call) (dest : Nat) (x : Mpi) (v : Int) :
    Prop where
  target : call.dest = some dest
  temporary : call.temporary lib s = some x
  value : x.value = v
  effect : call.effect lib s = .store dest x call.full

section
variable {s : Sys} {dest op op1 op2 n bits : Nat} {v : Int} {call : Call}

theorem modMpi_some (lib : Mbedtls) (x a : Mpi) (h : 2 ≤ (s.big n).value) :
    ∃ r, lib.modMpi x a (s.read n) = some r ∧ r.value = a.value % (s.big n).value := by
  have hmap := lib.value_modMpi x a (s.read n)
  rw [modulo, value_read, if_pos (by omega)] at hmap
  exact Option.map_eq_some_iff.mp hmap

theorem shifted_value (lib : Mbedtls) (s : Sys) (dest op bits : Nat) :
    (shifted lib s dest op bits).value = (s.big op).value.tdiv (2 ^ bits) := by
  unfold shifted
  by_cases h : dest = op
  · rw [if_pos h, lib.value_shiftR, value_read, h]
  rw [if_neg h]
  split
  · rw [lib.value_shiftR, lib.value_copy, value_read]
  · rw [lib.value_copy, lib.value_shiftR, lib.value_copy, value_read]

theorem negSource_value (lib : Mbedtls) (s : Sys) (dest src : Nat) :
    (negSourceMpi lib s dest src).value = (s.big src).value := by
  unfold negSourceMpi
  by_cases h : dest = src
  · rw [if_neg (not_not.mpr h), value_read, h]
  · rw [if_pos h, lib.value_copy, value_read]

/-- a call that checks a modulus -/
theorem stores_mod (lib : Mbedtls) {x a : Mpi} {w : Int} (htarget : call.dest = some dest)
    (htemp : call.temporary lib s = lib.modMpi x a (s.read n))
    (heffect : 2 ≤ (s.big n).value →
      call.effect lib s = .ofTemporary dest call.full (call.temporary lib s))
    (ha : a.value = w) (h : (if 2 ≤ (s.big n).value then some (w % (s.big n).value) else none) = some v) :
    ∃ dest x, call.Stores lib s dest x v := by
  by_cases hn : 2 ≤ (s.big n).value
  · rw [if_pos hn] at h
    obtain ⟨r, hr, hv⟩ := modMpi_some lib x a hn
    refine ⟨dest, r, htarget, htemp.trans hr, hv.trans ?_, ?_⟩
    · rw [ha]
      exact Option.some.inj h
    · rw [heffect hn, htemp, hr]
      rfl
  · rw [if_neg hn] at h
    cases h

/-- **The temporary has the value of the result.** -/
theorem stores_of_result (lib : Mbedtls) (h : call.result s = some v) :
    ∃ dest x, call.Stores lib s dest x v := by
  cases call with
  | add dest op1 op2 =>
    cases h
    exact ⟨dest, _, rfl, rfl, by rw [lib.value_addMpi, value_read, value_read], rfl⟩
  | sub dest op1 op2 =>
    cases h
    exact ⟨dest, _, rfl, rfl, by rw [lib.value_subMpi, value_read, value_read], rfl⟩
  | neg dest src =>
    cases h
    refine ⟨dest, _, rfl, rfl, ?_, rfl⟩
    rw [value_mulSign, negSource_value, Units.val_neg, Units.val_one, Int.neg_one_mul]
  | mod dest op n =>
    exact stores_mod lib rfl rfl (fun hn => if_neg (not_not.mpr hn)) (value_read s op) h
  | addMod dest op1 op2 n =>
    refine stores_mod lib rfl rfl (fun hn => if_neg (not_not.mpr hn)) ?_ h
    rw [lib.value_addMpi, value_read, value_read]
  | subMod dest op1 op2 n =>
    refine stores_mod lib rfl rfl (fun hn => if_neg (not_not.mpr hn)) ?_ h
    rw [lib.value_subMpi, value_read, value_read]
  | mulMod dest op1 op2 n =>
    refine stores_mod lib rfl rfl (fun hn => if_neg (not_not.mpr hn)) ?_ h
    rw [lib.value_mulMpi, value_read, value_read]
  | invMod dest op n =>
    rw [Call.result] at h
    split at h
    · next hn =>
      have hmap := lib.value_invMod (s.read dest) (s.read op) (s.read n)
      rw [value_read, value_read, h] at hmap
      obtain ⟨r, hr, hv⟩ := Option.map_eq_some_iff.mp hmap
      refine ⟨dest, r, rfl, hr, hv, (if_neg (not_not.mpr hn)).trans ?_⟩
      show Effect.ofTemporary dest _ (lib.invMod _ _ _) = _
      rw [hr]
      rfl
    · cases h
  | expMod dest op1 op2 n =>
    rw [Call.result] at h
    split at h
    · next hn =>
      have hmap := lib.value_expMod (s.read dest) (s.read op1) (s.read op2) (s.read n)
      rw [value_read, value_read, value_read, h] at hmap
      obtain ⟨r, hr, hv⟩ := Option.map_eq_some_iff.mp hmap
      refine ⟨dest, r, rfl, hr, hv, ?_⟩
      refine (if_neg (not_not.mpr hn.1)).trans ((if_neg (not_not.mpr hn.2)).trans ?_)
      show Effect.ofTemporary dest _ (lib.expMod _ _ _ _) = _
      rw [hr]
      rfl
    · cases h
  | shiftRight dest op bits =>
    cases h
    exact ⟨dest, _, rfl, rfl, shifted_value lib s dest op bits, rfl⟩
  | setBit op bitIndex value =>
    cases h
    refine ⟨op, _, rfl, rfl, ?_, rfl⟩
    rw [lib.value_setBit, Sys.read, mpiOf, mag_trim]
  | relativePrime op1 op2 => cases h

end

end MTower.Arith
