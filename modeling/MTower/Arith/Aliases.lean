import MTower.Arith.Room

/-!
# Operands that are the same object

* `Call.map`          the same call with other objects: some of them may now be one object;
* `Call.seen`         how a call ends, and the value of the object it writes;
* `AliasSafe`         a call does not see which of its operands are one object, initialises what it
  reads and frees what it initialised;
* `aliasSafe_iff`     which calls are.
-/

set_option linter.unusedVariables false

namespace MTower.Arith
open Lib

def Call.map (f : Nat → Nat) : Call → Call
  | .add dest op1 op2 => .add (f dest) (f op1) (f op2)
  | .sub dest op1 op2 => .sub (f dest) (f op1) (f op2)
  | .neg dest src => .neg (f dest) (f src)
  | .mod dest op n => .mod (f dest) (f op) (f n)
  | .addMod dest op1 op2 n => .addMod (f dest) (f op1) (f op2) (f n)
  | .subMod dest op1 op2 n => .subMod (f dest) (f op1) (f op2) (f n)
  | .mulMod dest op1 op2 n => .mulMod (f dest) (f op1) (f op2) (f n)
  | .invMod dest op n => .invMod (f dest) (f op) (f n)
  | .expMod dest op1 op2 n => .expMod (f dest) (f op1) (f op2) (f n)
  | .shiftRight dest op bits => .shiftRight (f dest) (f op) bits
  | .setBit op bitIndex value => .setBit (f op) bitIndex value
  | .relativePrime op1 op2 => .relativePrime (f op1) (f op2)

/-- what a caller sees of a call -/
def seen (dest : Option Nat) : Except Fault (Nat × Sys) → Except Fault (Nat × Option Int)
  | .error e => .error e
  | .ok (c, t) => .ok (c, dest.map fun d => (t.big d).value)

def Call.seen (lib : Mbedtls) (big : Nat → BigInt) (call : Call) :
    Except Fault (Nat × Option Int) :=
  MTower.Arith.seen call.dest (call.run lib (Sys.start big))

/-- The objects of `call` are copies: the one at `a` is a copy of the one at `f a`, and `f` says
which operands were one object. -/
structure AliasSafe (lib : Mbedtls) (big : Nat → BigInt) (f : Nat → Nat) (call : Call) : Prop where
  same : (call.map f).seen lib big = call.seen lib (big ∘ f)
  faults : ∀ e, (call.map f).run lib (Sys.start big) = .error e → e = .panic
  frees : ∀ c t, (call.map f).run lib (Sys.start big) = .ok (c, t) → t.Idle

/-- `TEE_BigIntRelativePrime` of an object and itself -/
def Call.Misused : Call → Prop
  | .relativePrime op1 op2 => op1 = op2
  | _ => False

section
variable {lib : Mbedtls} {big : Nat → BigInt} {f : Nat → Nat} {call : Call} {s : Sys} {dest : Nat}
  {x y : Mpi} {full : Except Fault Nat}

/-! ## effects -/

/-- two effects that a caller who looks at `dest` cannot tell apart -/
inductive Alike (f : Nat → Nat) : Option Nat → Effect → Effect → Prop
  | panic (dest : Option Nat) : Alike f dest (.fault .panic) (.fault .panic)
  | answer (dest : Option Nat) (c : Nat) : Alike f dest (.answer c) (.answer c)
  | store (dest : Nat) (x y : Mpi) (call : Call) (h : x.value = y.value) :
    Alike f (some dest) (.store (f dest) x call.full) (.store dest y call.full)

theorem Alike.ofTemporary (dest : Nat) (call : Call) (o : Option Mpi) :
    Alike f (some dest) (.ofTemporary (f dest) call.full o) (.ofTemporary dest call.full o) := by
  cases o with
  | none => exact .panic _
  | some x => exact .store dest x x call rfl

theorem Alike.checked {o : Option Nat} {p : Prop} {d d' : Decidable p} {e e' : Effect}
    (h : Alike f o e e') : Alike f o (@ite _ p d (.fault .panic) e) (@ite _ p d' (.fault .panic) e') := by
  by_cases hp : p
  · rw [if_pos hp, if_pos hp]
    exact .panic _
  · rw [if_neg hp, if_neg hp]
    exact h

theorem effect_alike (lib : Mbedtls) (big : Nat → BigInt) (h : ¬ (call.map f).Misused) :
    Alike f call.dest ((call.map f).effect lib (Sys.start big))
      (call.effect lib (Sys.start (big ∘ f))) := by
  cases call with
  | add dest op1 op2 => exact .store _ _ _ (.add dest op1 op2) rfl
  | sub dest op1 op2 => exact .store _ _ _ (.sub dest op1 op2) rfl
  | neg dest src =>
    refine .store _ _ _ (.neg dest src) ?_
    rw [value_mulSign, value_mulSign, negSource_value, negSource_value]
    rfl
  | mod dest op n => exact .checked (.ofTemporary _ (.mod dest op n) _)
  | addMod dest op1 op2 n => exact .checked (.ofTemporary _ (.addMod dest op1 op2 n) _)
  | subMod dest op1 op2 n => exact .checked (.ofTemporary _ (.subMod dest op1 op2 n) _)
  | mulMod dest op1 op2 n => exact .checked (.ofTemporary _ (.mulMod dest op1 op2 n) _)
  | invMod dest op n => exact .checked (.ofTemporary _ (.invMod dest op n) _)
  | expMod dest op1 op2 n =>
    refine .checked ?_
    show Alike f (some dest) (if ((big ∘ f) n).value % 2 ≠ 1 then _ else _)
      (if ((big ∘ f) n).value % 2 ≠ 1 then _ else _)
    by_cases hodd : ((big ∘ f) n).value % 2 ≠ 1
    · rw [if_pos hodd, if_pos hodd]
      exact .answer _ _
    · rw [if_neg hodd, if_neg hodd]
      exact .ofTemporary _ (.expMod dest op1 op2 n) _
  | shiftRight dest op bits =>
    refine .store _ _ _ (.shiftRight dest op bits) ?_
    rw [shifted_value, shifted_value]
    rfl
  | setBit op bitIndex value => exact .store _ _ _ (.setBit op bitIndex value) rfl
  | relativePrime op1 op2 =>
    have hf : f op1 ≠ f op2 := h
    have hne : op1 ≠ op2 := fun he => hf (congrArg f he)
    show Alike f none (if f op1 = f op2 then _ else _) (if op1 = op2 then _ else _)
    rw [if_neg hf, if_neg hne]
    exact .answer _ _

theorem map_dest (call : Call) (f : Nat → Nat) : (call.map f).dest = call.dest.map f := by
  cases call <;> rfl

theorem seen_alike {o : Option Nat} {e e' : Effect} (h : Alike f o e e') :
    seen (o.map f) (e.outcome (Sys.start big)) = seen o (e'.outcome (Sys.start (big ∘ f))) := by
  cases h with
  | panic dest => rfl
  | answer dest c => cases o <;> rfl
  | store dest x y call hv =>
    rw [Effect.outcome, Effect.outcome]
    by_cases hfits : (big (f dest)).Fits x.value
    · obtain ⟨t, ht, -, hx, -⟩ := store_some (Sys.start big) (f dest) hfits
      obtain ⟨u, hu, -, hy, -⟩ :=
        store_some (Sys.start (big ∘ f)) dest (x := y) (by rw [← hv]; exact hfits)
      rw [ht, hu]
      show Except.ok (teeSuccess, some (t.big (f dest)).value) = .ok (teeSuccess, some (u.big dest).value)
      rw [hx, hy, hv]
    · rw [store_none (Sys.start big) (f dest) hfits,
        store_none (Sys.start (big ∘ f)) dest (x := y) (by rw [← hv]; exact hfits)]
      cases call.full <;> rfl

/-! ## calls -/

theorem outcome_idle {e : Effect} {c : Nat} {t : Sys} (hs : s.Idle)
    (h : e.outcome s = .ok (c, t)) : t.Idle := by
  cases e with
  | fault e => cases h
  | answer c =>
    cases h
    exact hs
  | store dest x full =>
    rw [Effect.outcome] at h
    cases hx : s.store dest x with
    | some s' =>
      rw [hx] at h
      cases h
      exact (store_temps hx).trans hs
    | none =>
      rw [hx] at h
      cases full with
      | error e => cases h
      | ok res =>
        cases h
        exact hs

theorem Alike.only_panics {o : Option Nat} {e e' : Effect} {c : Fault} (h : Alike f o e e')
    (hc : e.outcome s = .error c) : c = .panic := by
  cases h with
  | panic dest =>
    cases hc
    rfl
  | answer dest res => cases hc
  | store dest x y call hv =>
    rw [Effect.outcome] at hc
    cases hx : s.store (f dest) x with
    | some s' =>
      rw [hx] at hc
      cases hc
    | none =>
      rw [hx] at hc
      obtain hfull | hfull := full_outcome s call
      · exact (Except.error.inj (hfull.symm.trans hc)).symm
      · cases hfull.symm.trans hc

/-- **Which calls do not see that operands are one object**: all but one. -/
theorem aliasSafe_iff (lib : Mbedtls) (big : Nat → BigInt) (f : Nat → Nat) (call : Call) :
    AliasSafe lib big f call ↔ ¬ (call.map f).Misused := by
  have hrun := run_eq lib (start_idle big) (call.map f)
  constructor
  · intro h hmisused
    cases call with
    | relativePrime op1 op2 =>
      have heffect : (Call.map f (.relativePrime op1 op2)).effect lib (Sys.start big) =
          .fault .uninitialised := if_pos hmisused
      rw [heffect] at hrun
      exact absurd (h.faults _ hrun) (by decide)
    | _ => exact hmisused
  · intro h
    have halike := effect_alike lib big h
    refine ⟨?_, fun e he => ?_, fun c t ht => ?_⟩
    · rw [Call.seen, Call.seen, hrun, run_eq lib (start_idle _) call, map_dest]
      exact seen_alike halike
    · rw [hrun] at he
      exact halike.only_panics he
    · rw [hrun] at ht
      exact outcome_idle (start_idle big) ht

end

/-- the same object twice, whatever it is -/
theorem relativePrime_unsafe : ¬ AliasSafe Mbedtls.exact someInts (fun _ => 1) (.relativePrime 0 1) := by
  intro h
  have hrun := run_eq Mbedtls.exact (start_idle someInts) (.relativePrime 1 1)
  exact absurd (h.faults _ hrun) (by decide)

end MTower.Arith
