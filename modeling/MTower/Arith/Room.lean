import MTower.Arith.Calls

/-!
# Room for a result

`copy_mpi_to_bigint` compares the limbs that are left after trimming with the size of the object,
and copies all limbs of the temporary.

* `StaysInside`       a call writes no more limbs than the object has, and succeeds when the value
  fits;
* `staysInside_iff`   when a call does.
-/

set_option linter.unusedVariables false

namespace MTower.Arith
open Lib

/-- before a call -/
def Sys.start (big : Nat → BigInt) : Sys where
  big := big
  temps := fun _ => none
  stores := []

theorem start_idle (big : Nat → BigInt) : (Sys.start big).Idle := rfl

/-- what is written behind the header of an object lies in it, the size of every object stays, and
the call succeeds exactly when there is room for the value -/
structure StaysInside (lib : Mbedtls) (big : Nat → BigInt) (call : Call) (dest : Nat) (v : Int) :
    Prop where
  inside : ∀ c t, call.run lib (Sys.start big) = .ok (c, t) →
    ∀ st ∈ t.stores, st.dest = dest ∧ st.limbs ≤ (big dest).allocSize
  allocSize : ∀ c t, call.run lib (Sys.start big) = .ok (c, t) →
    ∀ b, (t.big b).allocSize = (big b).allocSize
  succeeds : (∃ t, call.run lib (Sys.start big) = .ok (teeSuccess, t)) ↔ (big dest).Fits v
  value : ∀ t, call.run lib (Sys.start big) = .ok (teeSuccess, t) → (t.big dest).value = v

section
variable {lib : Mbedtls} {big : Nat → BigInt} {call : Call} {dest : Nat} {x : Mpi} {v : Int}

theorem value_store (b : BigInt) (x : Mpi) (h : ¬ b.allocSize < trim x.p x.n) :
    (b.store x h).value = x.value := by
  have hlimbs : mag (b.store x h).limbs (trim x.p x.n) = mag x.p (trim x.p x.n) := by
    refine mag_congr fun i hi => ?_
    exact if_pos (lt_of_lt_of_le hi (trim_le x.p x.n))
  rw [BigInt.value]
  show x.s * (mag (b.store x h).limbs (trim x.p x.n) : Int) = _
  rw [hlimbs, mag_trim]
  rfl

/-- a store that has room -/
theorem store_some (s : Sys) (dest : Nat) {x : Mpi} (h : (s.big dest).Fits x.value) :
    ∃ s', s.store dest x = some s' ∧ s'.stores = s.stores ++ [⟨dest, x.n⟩] ∧
      (s'.big dest).value = x.value ∧ ∀ b, (s'.big b).allocSize = (s.big b).allocSize := by
  have hroom := fits_iff.mp h
  refine ⟨_, dif_neg hroom, rfl, ?_, fun b => ?_⟩
  · show (Function.update s.big dest _ dest).value = _
    rw [Function.update_self, value_store]
  · show (Function.update s.big dest _ b).allocSize = _
    by_cases hb : b = dest
    · rw [hb, Function.update_self]
      rfl
    · rw [Function.update_of_ne hb]

theorem store_none (s : Sys) (dest : Nat) {x : Mpi} (h : ¬ (s.big dest).Fits x.value) : s.store dest x = none := by
  rw [fits_iff, not_not] at h
  exact dif_pos h

/-- a call for whose value there is no room does nothing -/
theorem full_outcome (s : Sys) (call : Call) : call.full.map (fun res => (res, s)) =
    .error .panic ∨ call.full.map (fun res => (res, s)) = .ok (teeErrorOverflow, s) := by
  cases call <;> first | exact .inl rfl | exact .inr rfl

/-- **A call stays inside** when the temporary has no more limbs than the object, or when the value
does not fit. -/
theorem stays_iff (h : call.Stores lib (Sys.start big) dest x v) :
    StaysInside lib big call dest v ↔ x.n ≤ (big dest).allocSize ∨ ¬ (big dest).Fits v := by
  have hrun := run_eq lib (start_idle big) call
  rw [h.effect, Effect.outcome] at hrun
  have hv := h.value
  by_cases hfits : (big dest).Fits v
  · obtain ⟨s', hs, hstores, hvalue, halloc⟩ :=
      store_some (Sys.start big) dest (x := x) (by rw [hv]; exact hfits)
    rw [hs] at hrun
    constructor
    · intro hin
      refine .inl (hin.inside _ _ hrun ⟨dest, x.n⟩ ?_).2
      rw [hstores]
      exact List.mem_append_right _ (List.mem_singleton_self _)
    · intro hle
      have hlimbs := hle.resolve_right (not_not.mpr hfits)
      refine ⟨fun c t ht st hst => ?_, fun c t ht b => ?_, iff_of_true ⟨s', hrun⟩ hfits, fun t ht => ?_⟩
      · rw [hrun] at ht
        cases ht
        rw [hstores] at hst
        obtain rfl := List.mem_singleton.mp hst
        exact ⟨rfl, hlimbs⟩
      · rw [hrun] at ht
        cases ht
        exact halloc b
      · rw [hrun] at ht
        cases ht
        exact hvalue.trans hv
  · rw [store_none (Sys.start big) dest (x := x) (by rw [hv]; exact hfits)] at hrun
    refine iff_of_true ?_ (.inr hfits)
    have hkept : ∀ c t, call.run lib (Sys.start big) = .ok (c, t) →
        c = teeErrorOverflow ∧ t = Sys.start big := by
      intro c t ht
      obtain hfull | hfull := full_outcome (Sys.start big) call
      · rw [hrun, hfull] at ht
        cases ht
      · rw [hrun, hfull] at ht
        cases ht
        exact ⟨rfl, rfl⟩
    refine ⟨fun c t ht st hst => ?_, fun c t ht b => ?_, iff_of_false ?_ hfits, fun t ht => ?_⟩
    · rw [(hkept c t ht).2] at hst
      cases hst
    · rw [(hkept c t ht).2]
      rfl
    · rintro ⟨t, ht⟩
      exact absurd (hkept _ t ht).1 (by decide)
    · exact absurd (hkept _ t ht).1 (by decide)

/-- **Results stay inside their allocation** exactly when the library leaves no more limbs in the
temporary than the object has, or the value does not fit. -/
theorem staysInside_iff (hdest : call.dest = some dest)
    (hvalid : call.result (Sys.start big) = some v) : StaysInside lib big call dest v ↔
      ∀ x, call.temporary lib (Sys.start big) = some x →
        x.n ≤ (big dest).allocSize ∨ ¬ (big dest).Fits v := by
  obtain ⟨d, x, hs⟩ := stores_of_result lib hvalid
  have hd : d = dest := Option.some.inj (hs.target.symm.trans hdest)
  subst hd
  rw [stays_iff hs]
  constructor
  · intro h y hy
    rw [← Option.some.inj (hs.temporary.symm.trans hy)]
    exact h
  · intro h
    exact h x hs.temporary

end

theorem one_limb : 1 ≤ 1 := le_rfl

/-- a destination of one limb, 2^32, and 1 -/
def someInts : Nat → BigInt
  | 0 => ⟨1, 1, 0, fun _ => 0, by decide⟩
  | 1 => ⟨1, 2, 2, limbsOf (2 ^ 32), by decide⟩
  | _ => ⟨1, 1, 1, limbsOf 1, one_limb⟩

theorem someInts_one : (someInts 1).value = 2 ^ 32 := by decide

theorem someInts_two : (someInts 2).value = 1 := by decide

theorem someInts_sub : (Call.sub 0 1 2).result (Sys.start someInts) = some (2 ^ 32 - 1) := by
  show some ((someInts 1).value - (someInts 2).value) = _
  rw [someInts_one, someInts_two]

theorem staysInside_iff_sub : StaysInside Mbedtls.exact someInts (.sub 0 1 2) 0 (2 ^ 32 - 1) ↔
    ∀ x, (Call.sub 0 1 2).temporary Mbedtls.exact (Sys.start someInts) = some x →
      x.n ≤ (someInts 0).allocSize ∨ ¬ (someInts 0).Fits (2 ^ 32 - 1) :=
  staysInside_iff rfl someInts_sub

/-- 2^32 - 1 fits into one limb, and the temporary has two -/
theorem sub_outside : ¬ StaysInside Mbedtls.exact someInts (.sub 0 1 2) 0 (2 ^ 32 - 1) := by
  obtain ⟨d, x, hs⟩ := stores_of_result Mbedtls.exact someInts_sub
  obtain rfl : 0 = d := Option.some.inj hs.target
  rw [stays_iff hs]
  have hn : 2 ≤ x.n := by
    rw [← Option.some.inj hs.temporary]
    refine le_trans ?_ (le_max_left _ _)
    refine le_trans ?_ (le_max_right _ _)
    refine le_trans ?_ (le_max_left _ _)
    decide
  have hfits : (someInts 0).Fits (2 ^ 32 - 1) := by
    unfold BigInt.Fits
    decide
  intro h
  obtain h | h := h
  · exact absurd (le_trans hn h) (by decide)
  · exact h hfits

end MTower.Arith
