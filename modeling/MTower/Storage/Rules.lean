import MTower.Storage.Objects

/-!
# Rules for the primitives of the store

A state is four functions and numbers: the blocks, the answers and the number of the allocator's
calls, and the links.  Each rule gives the new ones; together they execute a function of the store
symbolically.

* `wp_*`        what a primitive does when it does not fault;
* `wlp_*`       what is known of a primitive that did not fault;
* `Fresh`       the next answer of the allocator is a new block.
-/

set_option linter.unusedVariables false

namespace MTower.Storage
open Lib
open Kernel (Uuid)

/-- the next call of the allocator succeeds -/
def Fresh (B : Nat → Option Block) (A : Nat → Nat) (n : Nat) : Prop :=
  A n ≠ 0 ∧ A n < 2 ^ 32 ∧ B (A n) = none

theorem not_full_iff_fresh {B : Nat → Option Block} {A : Nat → Nat} {n : Nat} :
    ¬ (Heap.mk B A n).Full ↔ Fresh B A n := Heap.not_full_iff

section
variable {B : Nat → Option Block} {A : Nat → Nat} {n : Nat} {L : Links Queue}

/-! ## programs that do not fault -/

theorem wp_malloc {b : Block} {Q : Nat → State → Prop} (h : Fresh B A n) :
    wp (teeMalloc b) Q ⟨⟨B, A, n⟩, L⟩ ↔
      Q (A n) ⟨⟨Function.update B (A n) (some b), A, n + 1⟩, L⟩ := by
  show Q (Heap.alloc _ b).1 { heap := (Heap.alloc _ b).2, links := L } ↔ _
  rw [Heap.alloc_not_full b (not_full_iff_fresh.mpr h)]
  exact Iff.rfl

theorem wp_malloc_full {b : Block} {Q : Nat → State → Prop} (h : ¬ Fresh B A n) :
    wp (teeMalloc b) Q ⟨⟨B, A, n⟩, L⟩ ↔ Q 0 ⟨⟨B, A, n + 1⟩, L⟩ := by
  show Q (Heap.alloc _ b).1 { heap := (Heap.alloc _ b).2, links := L } ↔ _
  rw [Heap.alloc_full b (not_not.mp fun hf => h (not_full_iff_fresh.mp hf))]

theorem wp_free {a : Nat} {b : Block} {Q : Unit → State → Prop} (h0 : a ≠ 0) (h : B a = some b) :
    wp (teeFree a) Q ⟨⟨B, A, n⟩, L⟩ ↔ Q () ⟨⟨Function.update B a none, A, n⟩, L⟩ := by
  have hs : (B a).isSome = true := by rw [h]; rfl
  simp only [teeFree, wp_bind, wp_get, if_neg h0, hs, if_true, wp_set]
  exact Iff.rfl

theorem wp_pobjAt {a : Nat} {p : Pobj} {Q : Pobj → State → Prop} (h : B a = some (.pobj p)) :
    wp (pobjAt a) Q ⟨⟨B, A, n⟩, L⟩ ↔ Q p ⟨⟨B, A, n⟩, L⟩ := by
  simp only [pobjAt, wp_bind, wp_get, h, wp_pure]

theorem wp_objAt {a : Nat} {o : Obj} {Q : Obj → State → Prop} (h : B a = some (.obj o)) :
    wp (objAt a) Q ⟨⟨B, A, n⟩, L⟩ ↔ Q o ⟨⟨B, A, n⟩, L⟩ := by
  simp only [objAt, wp_bind, wp_get, h, wp_pure]

theorem wp_storeAt {a : Nat} {b : Block} {Q : Unit → State → Prop} :
    wp (storeAt a b) Q ⟨⟨B, A, n⟩, L⟩ ↔ Q () ⟨⟨Function.update B a (some b), A, n⟩, L⟩ := Iff.rfl

theorem wp_setPobj {a : Nat} {p : Pobj} {f : Pobj → Pobj} {Q : Unit → State → Prop}
    (h : B a = some (.pobj p)) : wp (setPobj a f) Q ⟨⟨B, A, n⟩, L⟩ ↔
      Q () ⟨⟨Function.update B a (some (.pobj (f p))), A, n⟩, L⟩ := by
  rw [setPobj, wp_bind, wp_pobjAt h, wp_storeAt]

theorem wp_bytesAt {a len : Nat} {l : List UInt8} {Q : List UInt8 → State → Prop}
    (h : B a = some (.bytes l)) (hlen : len ≤ l.length) :
    wp (bytesAt a len) Q ⟨⟨B, A, n⟩, L⟩ ↔ Q (l.take len) ⟨⟨B, A, n⟩, L⟩ := by
  unfold bytesAt
  by_cases h0 : len = 0
  · rw [if_pos h0, wp_pure, h0, List.take_zero]
  · simp only [if_neg h0, wp_bind, wp_get, h, if_pos hlen, wp_pure]

theorem wp_copyTo {a : Nat} {b l : List UInt8} {Q : Unit → State → Prop}
    (h : B a = some (.bytes b)) (hlen : b.length = l.length) :
    wp (copyTo a l) Q ⟨⟨B, A, n⟩, L⟩ ↔
      Q () ⟨⟨Function.update B a (some (.bytes l)), A, n⟩, L⟩ := by
  unfold copyTo
  by_cases h0 : l.length = 0
  · have hl : l = [] := List.eq_nil_of_length_eq_zero h0
    have hb : b = [] := List.eq_nil_of_length_eq_zero (hlen.trans h0)
    rw [if_pos h0, wp_pure, hl, ← hb, ← h, Function.update_eq_self]
  · have hle : l.length ≤ b.length := by omega
    have hdrop : b.drop l.length = [] := List.drop_eq_nil_of_le (by omega)
    simp only [if_neg h0, wp_bind, wp_get, h, if_pos hle, wp_storeAt, hdrop, List.append_nil]

/-- an address that a queue operation may touch: none, or an object -/
def Linkable (B : Nat → Option Block) (a : Nat) : Prop := a ≠ 0 → ∃ p, B a = some (.pobj p)

/-- the links of a queue of objects lead to objects -/
theorem Linkable.first {q : Queue} {xs : List Nat} (hc : L.Chain q xs)
    (hp : ∀ a ∈ xs, ∃ p, B a = some (.pobj p)) : Linkable B (L.first q) := by
  intro hne
  obtain ⟨-, z, hs, hz⟩ := hc
  cases xs with
  | nil =>
    have h : Place.head q = z := hs
    rw [← h] at hz
    exact absurd hz hne
  | cons x xs =>
    have h : L.first q = x := hs.2.1
    rw [h]
    exact hp x List.mem_cons_self

theorem Linkable.next {q : Queue} {xs ys : List Nat} {e : Nat} (hc : L.Chain q (xs ++ e :: ys))
    (hp : ∀ a ∈ xs ++ e :: ys, ∃ p, B a = some (.pobj p)) : Linkable B (L.next e) := fun hne =>
  hp _ (List.mem_append_right _ (List.mem_cons_of_mem _ (hc.next_mem hne)))

theorem Linkable.prev {q : Queue} {xs ys : List Nat} {e a : Nat} (hc : L.Chain q (xs ++ e :: ys))
    (hp : ∀ a ∈ xs ++ e :: ys, ∃ p, B a = some (.pobj p)) (h : L.prev e = .next a) :
    ∃ p, B a = some (.pobj p) := hp _ (List.mem_append_left _ (hc.prev_mem h))

theorem wp_touch {a : Nat} {Q : Unit → State → Prop} (h : Linkable B a) :
    wp (touch a) Q ⟨⟨B, A, n⟩, L⟩ ↔ Q () ⟨⟨B, A, n⟩, L⟩ := by
  unfold touch
  by_cases h0 : a = 0
  · rw [if_pos h0, wp_pure]
  · obtain ⟨p, hp⟩ := h h0
    rw [if_neg h0, wp_bind, wp_pobjAt hp, wp_pure]

theorem wp_touchPlace {r : Place Queue} {Q : Unit → State → Prop}
    (h : ∀ a, r = .next a → ∃ p, B a = some (.pobj p)) :
    wp (touchPlace r) Q ⟨⟨B, A, n⟩, L⟩ ↔ Q () ⟨⟨B, A, n⟩, L⟩ := by
  cases r with
  | head q => exact Iff.rfl
  | next a =>
    obtain ⟨p, hp⟩ := h a rfl
    rw [touchPlace, wp_bind, wp_pobjAt hp, wp_pure]

theorem wp_insertHead {q : Queue} {elm : Nat} {p : Pobj} {Q : Unit → State → Prop}
    (h : B elm = some (.pobj p)) (hf : Linkable B (L.first q)) :
    wp (tailqInsertHead q elm) Q ⟨⟨B, A, n⟩, L⟩ ↔ Q () ⟨⟨B, A, n⟩, L.insertHead q elm⟩ := by
  rw [tailqInsertHead, wp_bind, wp_pobjAt h, wp_bind, wp_get, wp_bind, wp_touch hf, wp_modify]

theorem wp_remove {q : Queue} {elm : Nat} {p : Pobj} {Q : Unit → State → Prop}
    (h : B elm = some (.pobj p)) (hn : Linkable B (L.next elm))
    (hp : ∀ a, L.prev elm = .next a → ∃ p', B a = some (.pobj p')) :
    wp (tailqRemove q elm) Q ⟨⟨B, A, n⟩, L⟩ ↔ Q () ⟨⟨B, A, n⟩, L.remove q elm⟩ := by
  rw [tailqRemove, wp_bind, wp_pobjAt h, wp_bind, wp_get, wp_bind, wp_touch hn, wp_bind,
    wp_touchPlace hp, wp_modify]

theorem not_wp_pobjAt {a : Nat} {Q : Pobj → State → Prop} (h : ∀ p, B a ≠ some (.pobj p)) :
    ¬ wp (pobjAt a) Q ⟨⟨B, A, n⟩, L⟩ := by
  rw [pobjAt, wp_bind, wp_get]
  cases hb : B a with
  | none => simp [hb]
  | some b =>
    cases b with
    | pobj p => exact absurd hb (h p)
    | obj o => simp [hb]
    | bytes l => simp [hb]

/-! ## programs that may fault -/

theorem wlp_pobjAt {a : Nat} {Q : Pobj → State → Prop} : wlp (pobjAt a) Q ⟨⟨B, A, n⟩, L⟩ ↔
    ∀ p, B a = some (.pobj p) → Q p ⟨⟨B, A, n⟩, L⟩ := by
  rw [pobjAt, wlp_bind, wlp_get]
  cases h : B a with
  | none => simp [h]
  | some b => cases b <;> simp [h]

theorem wlp_objAt {a : Nat} {Q : Obj → State → Prop} : wlp (objAt a) Q ⟨⟨B, A, n⟩, L⟩ ↔
    ∀ o, B a = some (.obj o) → Q o ⟨⟨B, A, n⟩, L⟩ := by
  rw [objAt, wlp_bind, wlp_get]
  cases h : B a with
  | none => simp [h]
  | some b => cases b <;> simp [h]

/-- reading changes nothing -/
theorem wlp_bytesAt {a len : Nat} {s : State} : wlp (bytesAt a len) (fun _ t => t = s) s := by
  unfold bytesAt
  by_cases h0 : len = 0
  · rw [if_pos h0, wlp_pure]
  · rw [if_neg h0, wlp_bind, wlp_get]
    cases h : s.heap.blocks a with
    | none => exact wlp_throw
    | some b =>
      cases b with
      | pobj p => exact wlp_throw
      | obj o => exact wlp_throw
      | bytes l =>
        show wlp (if len ≤ l.length then _ else _) _ s
        split
        · rfl
        · exact wlp_throw

end

end MTower.Storage
