import MTower.Lib.Exec

/-!
# Two runs side by side

`rel x y R s t` compares `x` started in `s` with `y` started in `t`: both end, and `R` holds of the
two values and the two states, or both stop with the same error.

* `rel_pure`, `rel_bind`, `rel_ite`, …   the rules;
* `rel_refl`                  one program in one state;
* `rel_wlp`, `rel_and`        what is known of one side alone, and two relations;
* `answers`, `outcome`        the values that a list of actions gives, and what a caller sees;
* `rel_answers`               an invariant of every action is an invariant of the list;
* `outcome_eq`                related runs look the same.
-/

set_option linter.unusedVariables false

namespace Lib

section
variable {ε σ τ α β γ δ : Type}

/-- `x` from `s` and `y` from `t` end in `R`, or stop with the same error -/
def rel (x : Exec ε σ α) (y : Exec ε τ β) (R : α → β → σ → τ → Prop) (s : σ) (t : τ) : Prop :=
  match x s, y t with
  | .ok (a, s'), .ok (b, t') => R a b s' t'
  | .error e, .error f => e = f
  | _, _ => False

variable {x : Exec ε σ α} {y : Exec ε τ β} {R S : α → β → σ → τ → Prop} {s : σ} {t : τ}

@[simp] theorem rel_pure {a : α} {b : β} :
    rel (pure a : Exec ε σ α) (pure b : Exec ε τ β) R s t ↔ R a b s t := Iff.rfl

@[simp] theorem rel_get {R : σ → τ → σ → τ → Prop} :
    rel (get : Exec ε σ σ) (get : Exec ε τ τ) R s t ↔ R s t s t := Iff.rfl

@[simp] theorem rel_set {s' : σ} {t' : τ} {R : PUnit → PUnit → σ → τ → Prop} :
    rel (set s' : Exec ε σ PUnit) (set t' : Exec ε τ PUnit) R s t ↔ R ⟨⟩ ⟨⟩ s' t' := Iff.rfl

@[simp] theorem rel_modify {f : σ → σ} {g : τ → τ} {R : PUnit → PUnit → σ → τ → Prop} :
    rel (modify f : Exec ε σ PUnit) (modify g : Exec ε τ PUnit) R s t ↔ R ⟨⟩ ⟨⟩ (f s) (g t) :=
  Iff.rfl

@[simp] theorem rel_throw {e f : ε} :
    rel (throw e : Exec ε σ α) (throw f : Exec ε τ β) R s t ↔ e = f := Iff.rfl

theorem rel_mono (h : rel x y R s t) (hR : ∀ a b u v, R a b u v → S a b u v) :
    rel x y S s t := by
  unfold rel at h ⊢
  cases hx : x s with
  | error e =>
    cases hy : y t with
    | error f =>
      rw [hx, hy] at h
      exact h
    | ok q =>
      rw [hx, hy] at h
      exact h
  | ok p =>
    cases hy : y t with
    | error f =>
      rw [hx, hy] at h
      exact h
    | ok q =>
      rw [hx, hy] at h
      exact hR _ _ _ _ h

theorem rel_bind {f : α → Exec ε σ γ} {g : β → Exec ε τ δ} {Q : γ → δ → σ → τ → Prop}
    (h : rel x y (fun a b => rel (f a) (g b) Q) s t) : rel (x >>= f) (y >>= g) Q s t := by
  have ex : (x >>= f) s = (x s >>= fun p => f p.1 p.2) := rfl
  have ey : (y >>= g) t = (y t >>= fun p => g p.1 p.2) := rfl
  unfold rel at h ⊢
  rw [ex, ey]
  cases hx : x s with
  | error e =>
    cases hy : y t with
    | error f =>
      rw [hx, hy] at h
      exact h
    | ok q =>
      rw [hx, hy] at h
      exact h.elim
  | ok p =>
    cases hy : y t with
    | error f =>
      rw [hx, hy] at h
      exact h.elim
    | ok q =>
      rw [hx, hy] at h
      exact h

theorem rel_ite {p q : Prop} [Decidable p] [Decidable q] {x' : Exec ε σ α} {y' : Exec ε τ β}
    (hpq : p ↔ q) (h : p → rel x y R s t) (h' : ¬ p → rel x' y' R s t) :
    rel (if p then x else x') (if q then y else y') R s t := by
  by_cases hp : p
  · rw [if_pos hp, if_pos (hpq.mp hp)]
    exact h hp
  · rw [if_neg hp, if_neg fun hq => hp (hpq.mpr hq)]
    exact h' hp

/-- one program in one state -/
theorem rel_refl {x : Exec ε σ α} {R : α → α → σ → σ → Prop} {s : σ}
    (h : wlp x (fun a u => R a a u u) s) : rel x x R s s := by
  unfold rel
  unfold wlp at h
  cases hx : x s with
  | error e => rfl
  | ok p =>
    rw [hx] at h
    exact h

/-- what the left side does alone -/
theorem rel_wlp {P : α → σ → Prop} (h : rel x y R s t) (hP : wlp x P s) :
    rel x y (fun a b u v => R a b u v ∧ P a u) s t := by
  unfold rel at h ⊢
  unfold wlp at hP
  cases hx : x s with
  | error e =>
    cases hy : y t with
    | error f =>
      rw [hx, hy] at h
      exact h
    | ok q =>
      rw [hx, hy] at h
      exact h
  | ok p =>
    cases hy : y t with
    | error f =>
      rw [hx, hy] at h
      exact h.elim
    | ok q =>
      rw [hx, hy] at h
      rw [hx] at hP
      exact ⟨h, hP⟩

theorem rel_and (h : rel x y R s t) (h' : rel x y S s t) :
    rel x y (fun a b u v => R a b u v ∧ S a b u v) s t := by
  unfold rel at h h' ⊢
  cases hx : x s with
  | error e =>
    cases hy : y t with
    | error f =>
      rw [hx, hy] at h
      exact h
    | ok q =>
      rw [hx, hy] at h
      exact h
  | ok p =>
    cases hy : y t with
    | error f =>
      rw [hx, hy] at h
      exact h
    | ok q =>
      rw [hx, hy] at h h'
      exact ⟨h, h'⟩

/-- two sides whose ends are known -/
theorem rel_of_ok {a : α} {b : β} {s' : σ} {t' : τ} (hx : x s = .ok (a, s'))
    (hy : y t = .ok (b, t')) : rel x y R s t ↔ R a b s' t' := by
  unfold rel
  rw [hx, hy]

end

/-! ## lists of actions -/

section
variable {ε σ α β : Type}

/-- the actions `l`, one after the other, with the values that they give -/
def answers (step : α → Exec ε σ β) : List α → Exec ε σ (List β)
  | [] => pure []
  | a :: l => do
    let b ← step a
    let bs ← answers step l
    pure (b :: bs)

/-- the value or the error; the state stays hidden -/
def outcome {γ : Type} (x : Exec ε σ γ) (s : σ) : Except ε γ :=
  match x s with
  | .ok (a, _) => .ok a
  | .error e => .error e

/-- **Invariant rule for two runs of one list.** -/
theorem rel_answers {step : α → Exec ε σ β} {R : σ → σ → Prop}
    (hstep : ∀ a s t, R s t → rel (step a) (step a) (fun b b' u v => b = b' ∧ R u v) s t)
    (l : List α) {s t : σ} (h : R s t) :
    rel (answers step l) (answers step l) (fun bs bs' u v => bs = bs' ∧ R u v) s t := by
  induction l generalizing s t with
  | nil => exact ⟨rfl, h⟩
  | cons a l ih =>
    apply rel_bind
    apply rel_mono (hstep a s t h)
    intro b b' u v hb
    obtain ⟨rfl, huv⟩ := hb
    apply rel_bind
    apply rel_mono (ih huv)
    intro bs bs' u v hbs
    obtain ⟨rfl, huv⟩ := hbs
    exact ⟨rfl, huv⟩

theorem outcome_eq {γ : Type} {x : Exec ε σ γ} {R : σ → σ → Prop} {s t : σ}
    (h : rel x x (fun a b u v => a = b ∧ R u v) s t) : outcome x s = outcome x t := by
  unfold rel at h
  unfold outcome
  cases hs : x s with
  | error e =>
    cases ht : x t with
    | error f =>
      rw [hs, ht] at h
      exact congrArg Except.error h
    | ok q =>
      rw [hs, ht] at h
      exact h.elim
  | ok p =>
    cases ht : x t with
    | error f =>
      rw [hs, ht] at h
      exact h.elim
    | ok q =>
      rw [hs, ht] at h
      exact congrArg Except.ok h.1

end

end Lib
