import Mathlib

/-!
# Counting loops

`for (n = 0; n < k; n++)` is a fold over `List.range k`: `List.foldl` when the body always runs
to its end, `List.foldlM` in `Except` when it can leave the enclosing function.

* `foldlM_range_inv`  an invariant of the index and the state, a postcondition of every exit;
* `foldl_range_inv`   the same for a body that never leaves;
* `filled`            a table filled up to an index by such a loop.
-/

set_option linter.unusedVariables false

universe u

namespace Lib

/-- `Q` of the normal result, `E` of the exceptional one -/
def post {ε α : Type*} (E : ε → Prop) (Q : α → Prop) : Except ε α → Prop
  | .ok a => Q a
  | .error e => E e

section
variable {ε : Type*} {α β : Type u} {E E' : ε → Prop} {Q Q' : α → Prop}

@[simp] theorem post_ok {a : α} : post E Q (.ok a) ↔ Q a := Iff.rfl

@[simp] theorem post_error {e : ε} : post E Q (.error e : Except ε α) ↔ E e := Iff.rfl

theorem post_mono {x : Except ε α} (hE : ∀ e, E e → E' e) (hQ : ∀ a, Q a → Q' a)
    (h : post E Q x) : post E' Q' x := by
  cases x with
  | ok a => exact hQ a h
  | error e => exact hE e h

theorem post_bind {R : β → Prop} {x : Except ε α} {f : α → Except ε β} (hx : post E Q x)
    (hf : ∀ a, Q a → post E R (f a)) : post E R (x >>= f) := by
  cases x with
  | ok a => exact hf a hx
  | error e => exact hx

end

section
variable {ε σ : Type*}

/-- **Invariant rule for a loop with exits.** -/
theorem foldlM_range_inv {f : σ → Nat → Except ε σ} {k : Nat} (I : Nat → σ → Prop)
    (E : ε → Prop) (hstep : ∀ n s, n < k → I n s → post E (I (n + 1)) (f s n)) {s : σ}
    (h0 : I 0 s) : post E (I k) ((List.range k).foldlM f s) := by
  induction k with
  | zero => exact h0
  | succ k ih =>
    rw [List.range_succ, List.foldlM_append]
    refine post_bind (ih fun n s hn => hstep n s (by omega)) ?_
    intro t ht
    rw [List.foldlM_cons]
    exact post_bind (hstep k t (by omega) ht) fun u hu => hu

/-- **Invariant rule for a loop without exits.** -/
theorem foldl_range_inv {f : σ → Nat → σ} {k : Nat} (I : Nat → σ → Prop)
    (hstep : ∀ n s, n < k → I n s → I (n + 1) (f s n)) {s : σ} (h0 : I 0 s) :
    I k ((List.range k).foldl f s) := by
  induction k with
  | zero => exact h0
  | succ k ih =>
    rw [List.range_succ, List.foldl_append]
    exact hstep k _ (by omega) (ih fun n s hn => hstep n s (by omega))

end

section
variable {α : Type*} (f g : Nat → α)

/-- `f` below `k`, `g` from there on -/
def filled (k : Nat) : Nat → α := fun n => if n < k then f n else g n

theorem filled_zero : filled f g 0 = g := by
  funext n
  exact if_neg (by omega)

theorem filled_lt {k n : Nat} (h : n < k) : filled f g k n = f n := if_pos h

theorem filled_ge {k n : Nat} (h : k ≤ n) : filled f g k n = g n := if_neg (by omega)

theorem update_filled (k : Nat) :
    Function.update (filled f g k) k (f k) = filled f g (k + 1) := by
  funext n
  by_cases hn : n = k
  · subst hn
    rw [Function.update_self, filled_lt f g (by omega)]
  · rw [Function.update_of_ne hn]
    by_cases hk : n < k
    · rw [filled_lt f g hk, filled_lt f g (by omega)]
    · rw [filled_ge f g (by omega), filled_ge f g (by omega)]

end

end Lib
