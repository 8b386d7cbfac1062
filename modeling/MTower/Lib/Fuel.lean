import Mathlib.Order.Basic

/-!
# Loops that have to end

A program that may run for ever is given fuel, and has no result when the fuel is used up.

* `Fueled`        such programs;
* `whileLoop`     `while (cond) body`;
* `Ends`          with enough fuel there is a result, and it is one of those named;
* `ends_while`    an invariant and a measure for a loop;
* `Agree`         two programs use up the same fuel, and their results are related;
* `agree_while`   a relation that two loops keep.
-/

set_option linter.unusedVariables false

namespace Lib

abbrev Fueled (α : Type) := ReaderT Nat Option α

section
variable {α β σ : Type}

/-- at most so many iterations -/
def iterations (cond : σ → Bool) (body : σ → Fueled σ) : Nat → σ → Fueled σ
  | 0, _ => fun _ => none
  | k + 1, s => if cond s then body s >>= iterations cond body k else pure s

def whileLoop (cond : σ → Bool) (body : σ → Fueled σ) (s : σ) : Fueled σ :=
  fun n => iterations cond body n s n

/-- with enough fuel the result is there, and it satisfies `Q` -/
def Ends (x : Fueled α) (Q : α → Prop) : Prop :=
  ∃ a, Q a ∧ ∃ k, ∀ n, k ≤ n → x n = some a

theorem ends_pure {a : α} {Q : α → Prop} (h : Q a) : Ends (pure a) Q := ⟨a, h, 0, fun _ _ => rfl⟩

theorem ends_mono {x : Fueled α} {Q R : α → Prop} (h : Ends x Q) (hQ : ∀ a, Q a → R a) :
    Ends x R := by
  obtain ⟨a, ha, hx⟩ := h
  exact ⟨a, hQ a ha, hx⟩

theorem bind_of_some {x : Fueled α} {f : α → Fueled β} {n : Nat} {a : α} (h : x n = some a) :
    (x >>= f) n = f a n := by
  show (x n).bind (fun a => f a n) = f a n
  rw [h]
  rfl

theorem ends_bind {x : Fueled α} {f : α → Fueled β} {Q : α → Prop} {R : β → Prop}
    (h : Ends x Q) (hf : ∀ a, Q a → Ends (f a) R) : Ends (x >>= f) R := by
  obtain ⟨a, ha, k, hx⟩ := h
  obtain ⟨b, hb, l, hfa⟩ := hf a ha
  refine ⟨b, hb, max k l, fun n hn => ?_⟩
  rw [bind_of_some (hx n (by omega))]
  exact hfa n (by omega)

/-- **A loop ends** when its body keeps an invariant and makes a measure smaller. -/
theorem ends_while {cond : σ → Bool} {body : σ → Fueled σ} (I : σ → Prop) (measure : σ → Nat)
    (hbody : ∀ s, I s → cond s = true → Ends (body s) fun t => I t ∧ measure t < measure s)
    {s : σ} (h : I s) : Ends (whileLoop cond body s) fun t => I t ∧ cond t = false := by
  -- a number of iterations on one side, fuel for the body on the other
  have hgo : ∀ m s, measure s = m → I s → ∃ t, (I t ∧ cond t = false) ∧
      ∃ k, ∀ j n, k ≤ j → k ≤ n → iterations cond body j s n = some t := by
    intro m
    induction m using Nat.strongRecOn with
    | ind m ih =>
      intro s hm hs
      cases hc : cond s with
      | false =>
        refine ⟨s, ⟨hs, hc⟩, 1, fun j n hj _ => ?_⟩
        obtain ⟨j, rfl⟩ := Nat.exists_eq_add_of_le' hj
        rw [iterations, hc]
        rfl
      | true =>
        obtain ⟨t, ⟨ht, hlt⟩, k, hk⟩ := hbody s hs hc
        obtain ⟨u, hu, l, hl⟩ := ih (measure t) (hm ▸ hlt) t rfl ht
        refine ⟨u, hu, max k l + 1, fun j n hj hn => ?_⟩
        obtain ⟨j, rfl⟩ : ∃ j', j = j' + 1 := ⟨j - 1, by omega⟩
        rw [iterations, hc, if_pos rfl, bind_of_some (hk n (by omega))]
        exact hl j n (by omega) (by omega)
  obtain ⟨t, ht, k, hk⟩ := hgo _ s rfl h
  exact ⟨t, ht, k, fun n hn => hk n n hn hn⟩

end

section
variable {α β γ δ σ τ : Type} {R : α → β → Prop} {S : γ → δ → Prop} {x : Fueled α} {y : Fueled β}

/-- the same fuel is enough for both, and the results are related -/
def Agree (R : α → β → Prop) (x : Fueled α) (y : Fueled β) : Prop :=
  ∀ n, Option.Rel R (x n) (y n)

theorem agree_pure {a : α} {b : β} (h : R a b) : Agree R (pure a) (pure b) := fun _ => .some h

theorem agree_bind {f : α → Fueled γ} {g : β → Fueled δ} (h : Agree R x y)
    (hfg : ∀ a b, R a b → Agree S (f a) (g b)) : Agree S (x >>= f) (y >>= g) := by
  intro n
  have hn := h n
  show Option.Rel S ((x n).bind fun a => f a n) ((y n).bind fun b => g b n)
  generalize x n = o at hn
  generalize y n = o' at hn
  cases hn with
  | none => exact .none
  | some hab => exact hfg _ _ hab n

/-- **Two loops agree** when their bodies and their conditions do. -/
theorem agree_while {c : σ → Bool} {d : τ → Bool} {f : σ → Fueled σ} {g : τ → Fueled τ}
    {R : σ → τ → Prop} (hcond : ∀ s t, R s t → c s = d t)
    (hbody : ∀ s t, R s t → Agree R (f s) (g t)) {s : σ} {t : τ} (h : R s t) :
    Agree R (whileLoop c f s) (whileLoop d g t) := by
  have hgo : ∀ k s t, R s t → Agree R (iterations c f k s) (iterations d g k t) := by
    intro k
    induction k with
    | zero => exact fun s t _ n => .none
    | succ k ih =>
      intro s t hst
      rw [iterations, iterations, hcond s t hst]
      split
      · exact agree_bind (hbody s t hst) ih
      · exact agree_pure hst
  exact fun n => hgo n s t h n

/-- where one program has a result, the other has a related one -/
theorem Agree.result {a : α} {n : Nat} (h : Agree R x y) (hx : x n = some a) :
    ∃ b, y n = some b ∧ R a b := by
  have hboth := h n
  rw [hx] at hboth
  generalize y n = o at hboth
  cases hboth with
  | some hab => exact ⟨_, rfl, hab⟩

end

end Lib
