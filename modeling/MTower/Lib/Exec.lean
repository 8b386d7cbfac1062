import Mathlib

/-!
# Programs that can fault

A program over a state `σ` is a `StateT σ (Except ε)`: it returns a value and a new state, or it
faults.  `wp x Q s` says that `x` started in `s` does not fault and ends in `Q`; it is a total
statement, so a program that faults satisfies no `wp`.

* `wp_bind`, `wp_pure`, `wp_get`, `wp_set`, `wp_modify`, `wp_throw`, `wp_ite`  the rules, as equivalences;
* `wp_mono`              consequence;
* `wp_foldlM_range`      invariant of a counting loop;
* `wlp`                  the same statement for a program that may fault, with the same rules;
* `run`, `Guarded`       a list of actions one after the other, each under a guard;
* `wp_run`, `wlp_run`    an invariant of every action is an invariant of every run;
* `guarded_iff`          a guard that is exact for a step is exact for a run;
* `guarded_const`        a guard that does not look at the state;
* `ghost`                a record that is kept beside the state and that no program reads;
* `Maintains`            a property of the state that a program preserves if it ends;
* `wpx`                  a program that may only stop with certain errors;
* `endState`, `Always`   errors that come with the state in which the program stops.
-/

set_option linter.unusedVariables false

namespace Lib

/-- programs over `σ` that can fault with `ε` -/
abbrev Exec (ε σ α : Type) := StateT σ (Except ε) α

section
variable {ε σ α β : Type}

/-- `x` started in `s` ends, without a fault, in `Q` -/
def wp (x : Exec ε σ α) (Q : α → σ → Prop) (s : σ) : Prop :=
  match x s with
  | .ok (a, t) => Q a t
  | .error _ => False

theorem wp_iff {x : Exec ε σ α} {Q : α → σ → Prop} {s : σ} :
    wp x Q s ↔ ∃ a t, x s = .ok (a, t) ∧ Q a t := by
  unfold wp
  cases h : x s with
  | error e => simp
  | ok p =>
    constructor
    · intro hq
      exact ⟨p.1, p.2, rfl, hq⟩
    · rintro ⟨a, t, e, hq⟩
      cases e
      exact hq

@[simp] theorem wp_pure {a : α} {Q : α → σ → Prop} {s : σ} :
    wp (pure a : Exec ε σ α) Q s ↔ Q a s := Iff.rfl

@[simp] theorem wp_bind {x : Exec ε σ α} {f : α → Exec ε σ β} {Q : β → σ → Prop} {s : σ} :
    wp (x >>= f) Q s ↔ wp x (fun a => wp (f a) Q) s := by
  have e : (x >>= f) s = (x s >>= fun p => f p.1 p.2) := rfl
  unfold wp
  rw [e]
  cases h : x s with
  | error e => exact Iff.rfl
  | ok p => exact Iff.rfl

@[simp] theorem wp_get {Q : σ → σ → Prop} {s : σ} :
    wp (get : Exec ε σ σ) Q s ↔ Q s s := Iff.rfl

@[simp] theorem wp_set {t : σ} {Q : PUnit → σ → Prop} {s : σ} :
    wp (set t : Exec ε σ PUnit) Q s ↔ Q ⟨⟩ t := Iff.rfl

@[simp] theorem wp_modify {f : σ → σ} {Q : PUnit → σ → Prop} {s : σ} :
    wp (modify f : Exec ε σ PUnit) Q s ↔ Q ⟨⟩ (f s) := Iff.rfl

@[simp] theorem wp_throw {e : ε} {Q : α → σ → Prop} {s : σ} :
    wp (throw e : Exec ε σ α) Q s ↔ False := Iff.rfl

theorem wp_ite {p : Prop} [Decidable p] {x y : Exec ε σ α} {Q : α → σ → Prop} {s : σ} :
    wp (if p then x else y) Q s ↔ (p → wp x Q s) ∧ (¬ p → wp y Q s) := by
  by_cases h : p <;> simp [h]

theorem wp_mono {x : Exec ε σ α} {Q R : α → σ → Prop} {s : σ} (h : wp x Q s)
    (hQ : ∀ a t, Q a t → R a t) : wp x R s := by
  rw [wp_iff] at h ⊢
  obtain ⟨a, t, e, hq⟩ := h
  exact ⟨a, t, e, hQ a t hq⟩

/-- a program has one outcome -/
theorem wp_of_eq {x : Exec ε σ α} {Q : α → σ → Prop} {s t : σ} {a : α} (e : x s = .ok (a, t)) :
    wp x Q s ↔ Q a t := by
  unfold wp
  rw [e]

theorem bind_of_ok {x : Exec ε σ α} {f : α → Exec ε σ β} {s t : σ} {a : α}
    (e : x s = .ok (a, t)) : (x >>= f) s = f a t := by
  show (x s >>= fun p => f p.1 p.2) = _
  rw [e]
  rfl

theorem bind_of_error {x : Exec ε σ α} {f : α → Exec ε σ β} {s : σ} {y : ε}
    (e : x s = .error y) : (x >>= f) s = .error y := by
  show (x s >>= fun p => f p.1 p.2) = _
  rw [e]
  rfl

instance {x : Exec ε σ α} {Q : α → σ → Prop} {s : σ} [∀ a t, Decidable (Q a t)] :
    Decidable (wp x Q s) :=
  match h : x s with
  | .ok (a, t) => decidable_of_iff (Q a t) (wp_of_eq h).symm
  | .error _ => isFalse fun hw => by
    obtain ⟨a, t, e, -⟩ := wp_iff.mp hw
    rw [h] at e
    cases e

/-- **Invariant rule for a counting loop.** -/
theorem wp_foldlM_range {f : α → Nat → Exec ε σ α} {k : Nat} (I : Nat → α → σ → Prop)
    (hstep : ∀ n a s, n < k → I n a s → wp (f a n) (I (n + 1)) s) {a : α} {s : σ}
    (h0 : I 0 a s) : wp ((List.range k).foldlM f a) (I k) s := by
  induction k with
  | zero => exact h0
  | succ k ih =>
    rw [List.range_succ, List.foldlM_append, wp_bind]
    refine wp_mono (ih fun n a s hn => hstep n a s (by omega)) ?_
    intro b t ht
    rw [List.foldlM_cons, wp_bind]
    exact wp_mono (hstep k b t (by omega) ht) fun _ _ hu => hu

/-! ## programs that may fault -/

/-- if `x` started in `s` ends, it ends in `Q` -/
def wlp (x : Exec ε σ α) (Q : α → σ → Prop) (s : σ) : Prop :=
  match x s with
  | .ok (a, t) => Q a t
  | .error _ => True

@[simp] theorem wlp_pure {a : α} {Q : α → σ → Prop} {s : σ} :
    wlp (pure a : Exec ε σ α) Q s ↔ Q a s := Iff.rfl

@[simp] theorem wlp_bind {x : Exec ε σ α} {f : α → Exec ε σ β} {Q : β → σ → Prop} {s : σ} :
    wlp (x >>= f) Q s ↔ wlp x (fun a => wlp (f a) Q) s := by
  have e : (x >>= f) s = (x s >>= fun p => f p.1 p.2) := rfl
  unfold wlp
  rw [e]
  cases h : x s with
  | error e => exact Iff.rfl
  | ok p => exact Iff.rfl

@[simp] theorem wlp_get {Q : σ → σ → Prop} {s : σ} :
    wlp (get : Exec ε σ σ) Q s ↔ Q s s := Iff.rfl

@[simp] theorem wlp_set {t : σ} {Q : PUnit → σ → Prop} {s : σ} :
    wlp (set t : Exec ε σ PUnit) Q s ↔ Q ⟨⟩ t := Iff.rfl

@[simp] theorem wlp_modify {f : σ → σ} {Q : PUnit → σ → Prop} {s : σ} :
    wlp (modify f : Exec ε σ PUnit) Q s ↔ Q ⟨⟩ (f s) := Iff.rfl

@[simp] theorem wlp_throw {e : ε} {Q : α → σ → Prop} {s : σ} :
    wlp (throw e : Exec ε σ α) Q s := trivial

theorem wlp_mono {x : Exec ε σ α} {Q R : α → σ → Prop} {s : σ} (h : wlp x Q s)
    (hQ : ∀ a t, Q a t → R a t) : wlp x R s := by
  unfold wlp at h ⊢
  cases e : x s with
  | error y => trivial
  | ok p =>
    rw [e] at h
    exact hQ p.1 p.2 h

theorem wlp_of_wp {x : Exec ε σ α} {Q : α → σ → Prop} {s : σ} (h : wp x Q s) : wlp x Q s := by
  obtain ⟨a, t, e, hq⟩ := wp_iff.mp h
  unfold wlp
  rw [e]
  exact hq

/-- what holds of every end holds of the end there is -/
theorem wp_wlp {x : Exec ε σ α} {Q R : α → σ → Prop} {s : σ} (h : wp x Q s) (hR : wlp x R s) :
    ∃ a t, Q a t ∧ R a t := by
  obtain ⟨a, t, e, hq⟩ := wp_iff.mp h
  unfold wlp at hR
  rw [e] at hR
  exact ⟨a, t, hq, hR⟩

/-- what holds of every end can be added to what holds of an end -/
theorem wp_and {x : Exec ε σ α} {Q R : α → σ → Prop} {s : σ} (h : wp x Q s) (hR : wlp x R s) :
    wp x (fun a t => Q a t ∧ R a t) s := by
  obtain ⟨a, t, e, hq⟩ := wp_iff.mp h
  unfold wlp at hR
  rw [e] at hR
  exact wp_iff.mpr ⟨a, t, e, hq, hR⟩

theorem wlp_and {x : Exec ε σ α} {Q R : α → σ → Prop} {s : σ} (h : wlp x Q s) (hR : wlp x R s) :
    wlp x (fun a t => Q a t ∧ R a t) s := by
  unfold wlp at h hR ⊢
  cases e : x s with
  | error y => trivial
  | ok p =>
    rw [e] at h hR
    exact ⟨h, hR⟩

/-- a program that faults satisfies every `wlp` -/
theorem wlp_of_faults {x : Exec ε σ α} {Q : α → σ → Prop} {s : σ}
    (h : ¬ wp x (fun _ _ => True) s) : wlp x Q s := by
  unfold wp at h
  unfold wlp
  cases e : x s with
  | error y => trivial
  | ok p =>
    rw [e] at h
    exact absurd trivial h

theorem wlp_iff {x : Exec ε σ α} {Q : α → σ → Prop} {s : σ} :
    wlp x Q s ↔ ∀ a t, x s = .ok (a, t) → Q a t := by
  unfold wlp
  cases h : x s with
  | error e => simp
  | ok p =>
    constructor
    · intro hq a t e
      cases e
      exact hq
    · intro hq
      exact hq p.1 p.2 rfl

theorem wlp_true (x : Exec ε σ α) (s : σ) : wlp x (fun _ _ => True) s := by
  unfold wlp
  cases x s with
  | error y => trivial
  | ok p => trivial

theorem wlp_of_eq {x : Exec ε σ α} {Q : α → σ → Prop} {s t : σ} {a : α} (e : x s = .ok (a, t)) :
    wlp x Q s ↔ Q a t := by
  unfold wlp
  rw [e]

/-- two programs that agree in the state they start in and in the states they go on from -/
theorem bind_agree {x y : Exec ε σ α} {f g : α → Exec ε σ β} {s : σ} (hx : x s = y s)
    (hf : wlp y (fun a t => f a t = g a t) s) : (x >>= f) s = (y >>= g) s := by
  have e1 : (x >>= f) s = (x s >>= fun p => f p.1 p.2) := rfl
  have e2 : (y >>= g) s = (y s >>= fun p => g p.1 p.2) := rfl
  rw [e1, e2, hx]
  cases e : y s with
  | error z => rfl
  | ok p =>
    unfold wlp at hf
    rw [e] at hf
    exact hf

/-! ## runs -/

/-- the actions `l`, one after the other; the results are dropped -/
def run (step : α → Exec ε σ β) : List α → Exec ε σ PUnit
  | [] => pure ⟨⟩
  | a :: l => do
    let _ ← step a
    run step l

/-- every action of the list meets `G` in the state it is taken from -/
def Guarded (step : α → Exec ε σ β) (G : α → σ → Prop) : List α → σ → Prop
  | [], _ => True
  | a :: l, s => G a s ∧ ∀ b t, step a s = .ok (b, t) → Guarded step G l t

/-- **Invariant rule for runs.** -/
theorem wp_run {step : α → Exec ε σ β} {G : α → σ → Prop} {I : σ → Prop}
    (hstep : ∀ a s, I s → G a s → wp (step a) (fun _ t => I t) s) {l : List α} {s : σ}
    (hg : Guarded step G l s) (h : I s) : wp (run step l) (fun _ t => I t) s := by
  induction l generalizing s with
  | nil => exact h
  | cons a l ih =>
    obtain ⟨hga, hgl⟩ := hg
    obtain ⟨b, t, e, ht⟩ := wp_iff.mp (hstep a s h hga)
    show wp (step a >>= fun _ => run step l) _ s
    rw [wp_bind, wp_of_eq e]
    exact ih (hgl b t e) ht

theorem Guarded.take {step : α → Exec ε σ β} {G : α → σ → Prop} {l m : List α} {s : σ}
    (hm : m <+: l) (h : Guarded step G l s) : Guarded step G m s := by
  induction m generalizing l s with
  | nil => trivial
  | cons a m ih =>
    obtain ⟨r, rfl⟩ := hm
    exact ⟨h.1, fun b t e => ih (List.prefix_append m r) (h.2 b t e)⟩

/-- **Exactness of a guard.**  If, in states of the invariant, the guard says precisely when a step
ends in `D`, then it says along a list of actions precisely when every beginning ends in `D`. -/
theorem guarded_iff {step : α → Exec ε σ β} {G : α → σ → Prop} {I D : σ → Prop}
    (hID : ∀ s, I s → D s) (hfwd : ∀ a s, I s → G a s → wp (step a) (fun _ t => I t) s)
    (hbwd : ∀ a s, I s → wp (step a) (fun _ t => D t) s → G a s) {l : List α} {s : σ} (h : I s) :
    (∀ m, m <+: l → wp (run step m) (fun _ t => D t) s) ↔ Guarded step G l s := by
  constructor
  · intro hall
    induction l generalizing s with
    | nil => trivial
    | cons a l ih =>
      have h1 : wp (step a) (fun _ t => D t) s := by
        have hp := hall [a] ⟨l, rfl⟩
        have e : run step [a] = step a >>= fun _ => pure ⟨⟩ := rfl
        rw [e, wp_bind] at hp
        exact hp
      have hg := hbwd a s h h1
      refine ⟨hg, fun b t e => ih ((wp_of_eq e).mp (hfwd a s h hg)) ?_⟩
      intro m hm
      have hp := hall (a :: m) (by obtain ⟨r, rfl⟩ := hm; exact ⟨r, rfl⟩)
      have e' : run step (a :: m) = step a >>= fun _ => run step m := rfl
      rw [e', wp_bind, wp_of_eq e] at hp
      exact hp
  · intro hg m hm
    exact wp_mono (wp_run hfwd (hg.take hm) h) fun _ t ht => hID t ht

/-- a guard that does not look at the state -/
theorem guarded_const {step : α → Exec ε σ β} {G : α → Prop} {I : σ → Prop}
    (hstep : ∀ a s, I s → G a → wp (step a) (fun _ t => I t) s) {l : List α} {s : σ} (h : I s) :
    Guarded step (fun a _ => G a) l s ↔ ∀ a ∈ l, G a := by
  induction l generalizing s with
  | nil => simp [Guarded]
  | cons a l ih =>
    rw [List.forall_mem_cons]
    constructor
    · rintro ⟨hg, hl⟩
      obtain ⟨b, t, e, ht⟩ := wp_iff.mp (hstep a s h hg)
      exact ⟨hg, (ih ht).mp (hl b t e)⟩
    · rintro ⟨hg, hl⟩
      refine ⟨hg, fun b t e => ?_⟩
      exact (ih ((wp_of_eq e).mp (hstep a s h hg))).mpr hl

/-- **Invariant rule for runs that may fault.** -/
theorem wlp_run {step : α → Exec ε σ β} {I : σ → Prop}
    (hstep : ∀ a s, I s → wlp (step a) (fun _ t => I t) s) {l : List α} {s : σ} (h : I s) :
    wlp (run step l) (fun _ t => I t) s := by
  induction l generalizing s with
  | nil => exact h
  | cons a l ih =>
    show wlp (step a >>= fun _ => run step l) _ s
    rw [wlp_bind]
    exact wlp_mono (hstep a s h) fun _ t ht => ih ht

/-- the same, with a guard on each action -/
theorem wlp_run_guarded {step : α → Exec ε σ β} {G : α → σ → Prop} {I : σ → Prop}
    (hstep : ∀ a s, I s → G a s → wlp (step a) (fun _ t => I t) s) {l : List α} {s : σ}
    (hg : Guarded step G l s) (h : I s) : wlp (run step l) (fun _ t => I t) s := by
  induction l generalizing s with
  | nil => exact h
  | cons a l ih =>
    obtain ⟨hga, hgl⟩ := hg
    show wlp (step a >>= fun _ => run step l) _ s
    rw [wlp_bind]
    have h1 := hstep a s h hga
    cases e : step a s with
    | error y =>
      unfold wlp
      rw [e]
      trivial
    | ok p =>
      rw [wlp_of_eq e] at h1 ⊢
      exact ih (hgl p.1 p.2 e) h1

theorem Guarded.snoc {step : α → Exec ε σ β} {G : α → σ → Prop} {l : List α} {a : α} {s : σ}
    (h : Guarded step G l s) (ha : wlp (run step l) (fun _ t => G a t) s) :
    Guarded step G (l ++ [a]) s := by
  induction l generalizing s with
  | nil => exact ⟨ha, fun _ _ _ => trivial⟩
  | cons b l ih =>
    refine ⟨h.1, fun r t e => ih (h.2 r t e) ?_⟩
    have ha : wlp (step b >>= fun _ => run step l) (fun _ t => G a t) s := ha
    rw [wlp_bind, wlp_of_eq e] at ha
    exact ha

/-! ## ghost state -/

/-- `x` with a record beside the state: `note` extends it by what `x` did, and `x` does not see it -/
def ghost {γ : Type} (note : α → σ → σ → γ → γ) (x : Exec ε σ α) : Exec ε (σ × γ) α := fun w =>
  match x w.1 with
  | .ok (a, t) => .ok (a, (t, note a w.1 t w.2))
  | .error e => .error e

theorem wlp_ghost {γ : Type} {note : α → σ → σ → γ → γ} {x : Exec ε σ α}
    {Q : α → σ × γ → Prop} {w : σ × γ} :
    wlp (ghost note x) Q w ↔ wlp x (fun a t => Q a (t, note a w.1 t w.2)) w.1 := by
  unfold wlp ghost
  cases x w.1 with
  | error e => exact Iff.rfl
  | ok p => exact Iff.rfl

theorem wp_ghost {γ : Type} {note : α → σ → σ → γ → γ} {x : Exec ε σ α}
    {Q : α → σ × γ → Prop} {w : σ × γ} :
    wp (ghost note x) Q w ↔ wp x (fun a t => Q a (t, note a w.1 t w.2)) w.1 := by
  unfold wp ghost
  cases x w.1 with
  | error e => exact Iff.rfl
  | ok p => exact Iff.rfl

end

/-! ## what a program preserves -/

section
variable {ε σ α β : Type} {P : σ → Prop}

/-- if `x` starts in `P` and ends, it ends in `P` -/
def Maintains (P : σ → Prop) (x : Exec ε σ α) : Prop := ∀ s, P s → wlp x (fun _ t => P t) s

namespace Maintains

@[simp] theorem pure (a : α) : Maintains P (pure a : Exec ε σ α) := fun _ h => h

@[simp] theorem get : Maintains P (get : Exec ε σ σ) := fun _ h => h

@[simp] theorem throw (e : ε) : Maintains P (throw e : Exec ε σ α) := fun _ _ => trivial

@[simp] theorem bind {x : Exec ε σ α} {g : α → Exec ε σ β} (hx : Maintains P x)
    (hg : ∀ a, Maintains P (g a)) : Maintains P (x >>= g) := by
  intro s hs
  rw [wlp_bind]
  exact wlp_mono (hx s hs) fun a t ht => hg a t ht

@[simp] theorem map {x : Exec ε σ α} (g : α → β) (hx : Maintains P x) : Maintains P (g <$> x) :=
  bind hx fun _ => pure _

@[simp] theorem ite {p : Prop} [Decidable p] {x y : Exec ε σ α} (hx : Maintains P x)
    (hy : Maintains P y) : Maintains P (if p then x else y) := by
  by_cases hp : p
  · rw [if_pos hp]
    exact hx
  · rw [if_neg hp]
    exact hy

end Maintains

end

/-! ## programs that may stop with certain errors -/

section
variable {ε σ α β : Type} {E : ε → Prop}

/-- `x` started in `s` ends in `Q`, or stops with an error in `E` -/
def wpx (E : ε → Prop) (x : Exec ε σ α) (Q : α → σ → Prop) (s : σ) : Prop :=
  match x s with
  | .ok (a, t) => Q a t
  | .error e => E e

@[simp] theorem wpx_pure {a : α} {Q : α → σ → Prop} {s : σ} :
    wpx E (pure a : Exec ε σ α) Q s ↔ Q a s := Iff.rfl

@[simp] theorem wpx_throw {e : ε} {Q : α → σ → Prop} {s : σ} :
    wpx E (throw e : Exec ε σ α) Q s ↔ E e := Iff.rfl

@[simp] theorem wpx_get {Q : σ → σ → Prop} {s : σ} :
    wpx E (get : Exec ε σ σ) Q s ↔ Q s s := Iff.rfl

@[simp] theorem wpx_modify {f : σ → σ} {Q : PUnit → σ → Prop} {s : σ} :
    wpx E (modify f : Exec ε σ PUnit) Q s ↔ Q ⟨⟩ (f s) := Iff.rfl

@[simp] theorem wpx_bind {x : Exec ε σ α} {f : α → Exec ε σ β} {Q : β → σ → Prop} {s : σ} :
    wpx E (x >>= f) Q s ↔ wpx E x (fun a => wpx E (f a) Q) s := by
  have e : (x >>= f) s = (x s >>= fun p => f p.1 p.2) := rfl
  unfold wpx
  rw [e]
  cases h : x s with
  | error e => exact Iff.rfl
  | ok p => exact Iff.rfl

theorem wpx_mono {x : Exec ε σ α} {Q R : α → σ → Prop} {s : σ} (h : wpx E x Q s)
    (hQ : ∀ a t, Q a t → R a t) : wpx E x R s := by
  unfold wpx at h ⊢
  cases e : x s with
  | error y =>
    rw [e] at h
    exact h
  | ok p =>
    rw [e] at h
    exact hQ p.1 p.2 h

theorem wpx_of_eq {x : Exec ε σ α} {Q : α → σ → Prop} {s t : σ} {a : α} (e : x s = .ok (a, t)) :
    wpx E x Q s ↔ Q a t := by
  unfold wpx
  rw [e]

theorem wpx_of_error {x : Exec ε σ α} {Q : α → σ → Prop} {s : σ} {y : ε} (e : x s = .error y) :
    wpx E x Q s ↔ E y := by
  unfold wpx
  rw [e]

theorem wp_iff_wpx {x : Exec ε σ α} {Q : α → σ → Prop} {s : σ} :
    wp x Q s ↔ wpx (fun _ => False) x Q s := Iff.rfl

theorem wlp_iff_wpx {x : Exec ε σ α} {Q : α → σ → Prop} {s : σ} :
    wlp x Q s ↔ wpx (fun _ => True) x Q s := Iff.rfl

theorem wlp_of_wpx {x : Exec ε σ α} {Q : α → σ → Prop} {s : σ} (h : wpx E x Q s) : wlp x Q s := by
  unfold wpx at h
  unfold wlp
  cases e : x s with
  | error y => trivial
  | ok p =>
    rw [e] at h
    exact h

/-- what holds of every end can be added -/
theorem wpx_and {x : Exec ε σ α} {Q R : α → σ → Prop} {s : σ} (h : wpx E x Q s)
    (hR : wlp x R s) : wpx E x (fun a t => Q a t ∧ R a t) s := by
  unfold wpx wlp at *
  cases e : x s with
  | error y =>
    rw [e] at h
    exact h
  | ok p =>
    rw [e] at h hR
    exact ⟨h, hR⟩

/-- **Invariant rule for runs that may only stop with certain errors.** -/
theorem wpx_run_guarded {step : α → Exec ε σ β} {G : α → σ → Prop} {I : σ → Prop}
    (hstep : ∀ a s, I s → G a s → wpx E (step a) (fun _ t => I t) s) {l : List α} {s : σ}
    (hg : Guarded step G l s) (h : I s) : wpx E (run step l) (fun _ t => I t) s := by
  induction l generalizing s with
  | nil => exact h
  | cons a l ih =>
    obtain ⟨hga, hgl⟩ := hg
    show wpx E (step a >>= fun _ => run step l) _ s
    rw [wpx_bind]
    have h1 := hstep a s h hga
    cases e : step a s with
    | error y =>
      rw [wpx_of_error e] at h1 ⊢
      exact h1
    | ok p =>
      rw [wpx_of_eq e] at h1 ⊢
      exact ih (hgl p.1 p.2 e) h1

/-- behind the actions `l` the guard of the next action holds -/
theorem wpx_run_snoc {step : α → Exec ε σ β} {G : α → σ → Prop} {I : σ → Prop}
    (hstep : ∀ a s, I s → G a s → wpx E (step a) (fun _ t => I t) s) {l : List α} {a : α} {s : σ}
    (hg : Guarded step G (l ++ [a]) s) (h : I s) :
    wpx E (run step l) (fun _ t => I t ∧ G a t) s := by
  induction l generalizing s with
  | nil => exact ⟨h, hg.1⟩
  | cons b l ih =>
    obtain ⟨hb, hl⟩ := hg
    show wpx E (step b >>= fun _ => run step l) _ s
    rw [wpx_bind]
    have h1 := hstep b s h hb
    cases e : step b s with
    | error y =>
      rw [wpx_of_error e] at h1 ⊢
      exact h1
    | ok p =>
      rw [wpx_of_eq e] at h1 ⊢
      exact ih (hl p.1 p.2 e) h1

theorem wpx_ghost {γ : Type} {note : α → σ → σ → γ → γ} {x : Exec ε σ α}
    {Q : α → σ × γ → Prop} {w : σ × γ} :
    wpx E (ghost note x) Q w ↔ wpx E x (fun a t => Q a (t, note a w.1 t w.2)) w.1 := by
  unfold wpx ghost
  cases x w.1 with
  | error e => exact Iff.rfl
  | ok p => exact Iff.rfl

end

/-! ## errors that come with a state -/

section
variable {ε σ α β : Type} {P : σ → Prop}

/-- the state in which a run ends or stops -/
def endState (r : Except (ε × σ) (α × σ)) : σ :=
  match r with
  | .ok (_, t) => t
  | .error (_, t) => t

theorem endState_iff {x : Exec (ε × σ) σ α} {s : σ} :
    P (endState (x s)) ↔ wpx (fun f => P f.2) x (fun _ t => P t) s := by
  unfold endState wpx
  cases x s with
  | error f => exact Iff.rfl
  | ok p => exact Iff.rfl

theorem endState_bind_of_ok {x : Exec (ε × σ) σ α} {f : α → Exec (ε × σ) σ β} {s t : σ} {a : α}
    (e : x s = .ok (a, t)) : endState ((x >>= f) s) = endState (f a t) := by
  rw [bind_of_ok e]

/-- a last step that only returns something -/
@[simp] theorem endState_bind_pure {x : Exec (ε × σ) σ α} {s : σ} (b : β) :
    endState ((x >>= fun _ => (pure b : Exec (ε × σ) σ β)) s) = endState (x s) := by
  cases h : x s with
  | error f => rw [bind_of_error h]; rfl
  | ok p => rw [bind_of_ok h]; rfl

/-- what holds at the start holds wherever `x` ends or stops -/
def Always (P : σ → Prop) (x : Exec (ε × σ) σ α) : Prop :=
  ∀ s, P s → wpx (fun f => P f.2) x (fun _ t => P t) s

namespace Always

@[simp] theorem pure (a : α) : Always P (pure a : Exec (ε × σ) σ α) := fun _ h => h

@[simp] theorem bind {x : Exec (ε × σ) σ α} {g : α → Exec (ε × σ) σ β} (hx : Always P x)
    (hg : ∀ a, Always P (g a)) : Always P (x >>= g) := by
  intro s hs
  rw [wpx_bind]
  exact wpx_mono (hx s hs) fun a t ht => hg a t ht

/-- what a program reads satisfies `P` -/
theorem get_bind {g : σ → Exec (ε × σ) σ β} (hg : ∀ s, P s → Always P (g s)) :
    Always P (get >>= g) := fun s hs => hg s hs s hs

theorem ite {p : Prop} [Decidable p] {x y : Exec (ε × σ) σ α} (hx : p → Always P x)
    (hy : ¬ p → Always P y) : Always P (if p then x else y) := by
  by_cases hp : p
  · rw [if_pos hp]
    exact hx hp
  · rw [if_neg hp]
    exact hy hp

theorem endState {x : Exec (ε × σ) σ α} {s : σ} (hx : Always P x) (hs : P s) :
    P (endState (x s)) := endState_iff.mpr (hx s hs)

end Always

end

end Lib
