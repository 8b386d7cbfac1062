import Mathlib

/-!
# Exclusive ownership

Owners hold resources, and a mark on a resource says that it is held.  The mark is exact when every
held resource has one owner and nothing else is marked.

* `Exclusive.acquire`  unmarked resources go to an owner;
* `Exclusive.release`  an owner gives back what it holds;
* `Exclusive.existsUnique`  a marked resource has exactly one owner.
-/

namespace Lib

variable {σ ρ : Type*}

structure Exclusive (owns : σ → ρ → Prop) (held : ρ → Prop) : Prop where
  held_of_owns : ∀ s r, owns s r → held r
  unique : ∀ s s' r, owns s r → owns s' r → s = s'
  owned : ∀ r, held r → ∃ s, owns s r

namespace Exclusive
variable {owns owns' : σ → ρ → Prop} {held held' : ρ → Prop}

theorem congr (h : Exclusive owns held) (ho : ∀ s r, owns' s r ↔ owns s r)
    (hh : ∀ r, held' r ↔ held r) : Exclusive owns' held' := by
  have e : owns' = owns := by
    funext s r
    exact propext (ho s r)
  have e' : held' = held := by
    funext r
    exact propext (hh r)
  rw [e, e']
  exact h

theorem existsUnique (h : Exclusive owns held) {r : ρ} (hr : held r) : ∃! s, owns s r := by
  obtain ⟨s, hs⟩ := h.owned r hr
  exact ⟨s, hs, fun s' hs' => h.unique s' s r hs' hs⟩

/-- the owner `s`, who held nothing, takes the unmarked resources `R` -/
theorem acquire (h : Exclusive owns held) {s : σ} {R : ρ → Prop} (hs : ∀ r, ¬ owns s r)
    (hR : ∀ r, R r → ¬ held r) (ho : ∀ x r, owns' x r ↔ owns x r ∨ x = s ∧ R r)
    (hh : ∀ r, held' r ↔ held r ∨ R r) : Exclusive owns' held' where
  held_of_owns := by
    intro x r hx
    rw [hh]
    rcases (ho x r).mp hx with hx | ⟨-, hr⟩
    · exact .inl (h.held_of_owns x r hx)
    · exact .inr hr
  unique := by
    intro x y r hx hy
    rcases (ho x r).mp hx with hx | ⟨rfl, hr⟩ <;> rcases (ho y r).mp hy with hy | ⟨rfl, hr'⟩
    · exact h.unique x y r hx hy
    · exact absurd (h.held_of_owns x r hx) (hR r hr')
    · exact absurd (h.held_of_owns y r hy) (hR r hr)
    · rfl
  owned := by
    intro r hr
    rcases (hh r).mp hr with hr | hr
    · obtain ⟨x, hx⟩ := h.owned r hr
      exact ⟨x, (ho x r).mpr (.inl hx)⟩
    · exact ⟨s, (ho s r).mpr (.inr ⟨rfl, hr⟩)⟩

/-- the owner `s` gives back everything it holds -/
theorem release (h : Exclusive owns held) {s : σ} (ho : ∀ x r, owns' x r ↔ x ≠ s ∧ owns x r)
    (hh : ∀ r, held' r ↔ held r ∧ ¬ owns s r) : Exclusive owns' held' where
  held_of_owns := by
    intro x r hx
    obtain ⟨hne, hx⟩ := (ho x r).mp hx
    exact (hh r).mpr ⟨h.held_of_owns x r hx, fun hs => hne (h.unique x s r hx hs)⟩
  unique := by
    intro x y r hx hy
    exact h.unique x y r ((ho x r).mp hx).2 ((ho y r).mp hy).2
  owned := by
    intro r hr
    obtain ⟨hr, hns⟩ := (hh r).mp hr
    obtain ⟨x, hx⟩ := h.owned r hr
    have hne : x ≠ s := by
      rintro rfl
      exact hns hx
    exact ⟨x, (ho x r).mpr ⟨hne, hx⟩⟩

end Exclusive

end Lib
