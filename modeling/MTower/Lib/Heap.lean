import MTower.Lib.Exec

/-!
# A heap of typed blocks

A block is an address with a value.  The allocator is an oracle: the `n`-th call is answered by
`answers n`, and an answer that is `0`, too large for a pointer or the address of a live block
counts as a failure, so quantifying over `answers` quantifies over every placement and every
pattern of failing calls.  Reading or releasing an address without a block is a fault.

* `alloc_cases`   a call fails and changes no block, or adds one fresh block;
* `Serves`        the allocator answers a list of requests, one after the other;
* `Room`          the next calls succeed, whatever is stored in between;
* `Grown`         the heap behind calls that succeeded, and the room that it has left.
-/

set_option linter.unusedVariables false

namespace Lib

/-- live blocks, the oracle and the number of calls so far -/
structure Heap (β : Type) where
  blocks : Nat → Option β
  answers : Nat → Nat
  calls : Nat

namespace Heap
variable {β : Type}

def empty (answers : Nat → Nat) : Heap β := ⟨fun _ => none, answers, 0⟩

def Live (h : Heap β) (a : Nat) : Prop := h.blocks a ≠ none

/-- the next call would fail -/
def Full (h : Heap β) : Prop :=
  h.answers h.calls = 0 ∨ 2 ^ 32 ≤ h.answers h.calls ∨ (h.blocks (h.answers h.calls)).isSome = true

instance (h : Heap β) : Decidable h.Full := inferInstanceAs (Decidable (_ ∨ _ ∨ _))

def store (h : Heap β) (a : Nat) (b : β) : Heap β :=
  { h with blocks := Function.update h.blocks a (some b) }

def erase (h : Heap β) (a : Nat) : Heap β :=
  { h with blocks := Function.update h.blocks a none }

/-- the address of the new block, or `0` -/
def alloc (h : Heap β) (b : β) : Nat × Heap β :=
  if h.Full then (0, { h with calls := h.calls + 1 })
  else (h.answers h.calls, { h.store (h.answers h.calls) b with calls := h.calls + 1 })

theorem alloc_full {h : Heap β} (b : β) (hf : h.Full) :
    h.alloc b = (0, { h with calls := h.calls + 1 }) := if_pos hf

theorem alloc_not_full {h : Heap β} (b : β) (hf : ¬ h.Full) :
    h.alloc b = (h.answers h.calls, { h.store (h.answers h.calls) b with calls := h.calls + 1 }) :=
  if_neg hf

theorem not_full_iff {h : Heap β} : ¬ h.Full ↔
    h.answers h.calls ≠ 0 ∧ h.answers h.calls < 2 ^ 32 ∧
      h.blocks (h.answers h.calls) = none := by
  unfold Full
  rw [Option.isSome_iff_ne_none]
  push Not
  rfl

theorem store_self {h : Heap β} {a : Nat} {b : β} (hb : h.blocks a = some b) :
    h.store a b = h := by
  unfold store
  rw [← hb, Function.update_eq_self]

/-- **What one allocation can do.** -/
theorem alloc_cases (h : Heap β) (b : β) :
    (h.Full ∧ (h.alloc b).1 = 0 ∧ (h.alloc b).2.blocks = h.blocks) ∨
    (¬ h.Full ∧ (h.alloc b).1 ≠ 0 ∧ h.blocks (h.alloc b).1 = none ∧
      (h.alloc b).2.blocks = Function.update h.blocks (h.alloc b).1 (some b)) := by
  by_cases hf : h.Full
  · left
    rw [alloc_full b hf]
    exact ⟨hf, rfl, rfl⟩
  · right
    obtain ⟨h0, -, hn⟩ := not_full_iff.mp hf
    rw [alloc_not_full b hf]
    exact ⟨hf, h0, hn, rfl⟩

/-! ## several calls -/

/-- the calls for the blocks of `l`, one after the other, all succeed -/
def Serves (h : Heap β) : List β → Prop
  | [] => True
  | b :: l => ¬ h.Full ∧ (h.alloc b).2.Serves l

def decidableServes (h : Heap β) : (l : List β) → Decidable (h.Serves l)
  | [] => instDecidableTrue
  | b :: l =>
    have := decidableServes (h.alloc b).2 l
    inferInstanceAs (Decidable (_ ∧ _))

instance (h : Heap β) (l : List β) : Decidable (h.Serves l) := h.decidableServes l

/-- the heap after the calls for the blocks of `l` -/
def allocs (h : Heap β) (l : List β) : Heap β := l.foldl (fun h b => (h.alloc b).2) h

theorem alloc_answers (h : Heap β) (b : β) : (h.alloc b).2.answers = h.answers := by
  unfold alloc
  split <;> rfl

theorem alloc_calls (h : Heap β) (b : β) : (h.alloc b).2.calls = h.calls + 1 := by
  unfold alloc
  split <;> rfl

theorem allocs_answers (h : Heap β) (l : List β) : (h.allocs l).answers = h.answers := by
  induction l generalizing h with
  | nil => rfl
  | cons b l ih => exact (ih (h.alloc b).2).trans (alloc_answers h b)

theorem allocs_calls (h : Heap β) (l : List β) : (h.allocs l).calls = h.calls + l.length := by
  induction l generalizing h with
  | nil => rfl
  | cons b l ih =>
    show ((h.alloc b).2.allocs l).calls = _
    rw [ih, alloc_calls, List.length_cons]
    omega

theorem allocs_append (h : Heap β) (l m : List β) :
    h.allocs (l ++ m) = (h.allocs l).allocs m := List.foldl_append

theorem serves_append (h : Heap β) (l m : List β) :
    h.Serves (l ++ m) ↔ h.Serves l ∧ (h.allocs l).Serves m := by
  induction l generalizing h with
  | nil =>
    show h.Serves m ↔ True ∧ h.Serves m
    rw [true_and]
  | cons b l ih =>
    show _ ∧ (h.alloc b).2.Serves (l ++ m) ↔ (_ ∧ _) ∧ ((h.alloc b).2.allocs l).Serves m
    rw [ih, and_assoc]

section
variable {h : Heap β} {l : List β} {i : Nat}

/-- a served address is fresh and not null -/
theorem Serves.fresh (hs : h.Serves l) (hi : i < l.length) :
    h.answers (h.calls + i) ≠ 0 ∧ h.blocks (h.answers (h.calls + i)) = none := by
  induction l generalizing h i with
  | nil => exact absurd hi (by simp)
  | cons b l ih =>
    obtain ⟨hf, hs⟩ := hs
    obtain ⟨h0, -, hn⟩ := not_full_iff.mp hf
    cases i with
    | zero => exact ⟨h0, hn⟩
    | succ i =>
      have hi' : i < l.length := by simpa using hi
      have hr := ih hs hi'
      rw [alloc_answers, alloc_calls, Nat.add_right_comm] at hr
      refine ⟨hr.1, ?_⟩
      by_contra hb
      rw [alloc_not_full b hf] at hr
      have hne : h.answers (h.calls + i + 1) ≠ h.answers h.calls := by
        intro e
        exact hb (by rw [Nat.add_assoc] at e; rw [e]; exact hn)
      refine hb ?_
      rw [← hr.2]
      exact (Function.update_of_ne hne _ _).symm

/-- other addresses keep their blocks -/
theorem allocs_other {a : Nat} (ha : ∀ i < l.length, a ≠ h.answers (h.calls + i)) :
    (h.allocs l).blocks a = h.blocks a := by
  induction l generalizing h with
  | nil => rfl
  | cons b l ih =>
    show ((h.alloc b).2.allocs l).blocks a = _
    rw [ih]
    · obtain ⟨-, -, e⟩ | ⟨hf, -, -, e⟩ := h.alloc_cases b
      · rw [e]
      · rw [e]
        refine Function.update_of_ne ?_ _ _
        rw [alloc_not_full b hf]
        exact ha 0 (by simp)
    · intro i hi
      rw [alloc_answers, alloc_calls, Nat.add_right_comm]
      exact ha (i + 1) (by simpa using hi)

theorem allocs_of_some {a : Nat} (ha : h.blocks a ≠ none) :
    (h.allocs l).blocks a = h.blocks a := by
  induction l generalizing h with
  | nil => rfl
  | cons b l ih =>
    have e : (h.alloc b).2.blocks a = h.blocks a := by
      obtain ⟨-, -, e⟩ | ⟨-, -, hn, e⟩ := h.alloc_cases b
      · rw [e]
      · rw [e]
        refine Function.update_of_ne ?_ _ _
        intro he
        exact ha (he ▸ hn)
    show ((h.alloc b).2.allocs l).blocks a = _
    rw [ih (by rw [e]; exact ha), e]

/-- a served address has a block afterwards -/
theorem Serves.live (hs : h.Serves l) (hi : i < l.length) :
    (h.allocs l).blocks (h.answers (h.calls + i)) ≠ none := by
  induction l generalizing h i with
  | nil => exact absurd hi (by simp)
  | cons b l ih =>
    obtain ⟨hf, hs⟩ := hs
    cases i with
    | zero =>
      have e : (h.alloc b).2.blocks (h.answers h.calls) ≠ none := by
        rw [alloc_not_full b hf]
        simp [store]
      show ((h.alloc b).2.allocs l).blocks (h.answers h.calls) ≠ none
      rw [allocs_of_some e]
      exact e
    | succ i =>
      have hr := ih hs (i := i) (by simpa using hi)
      rw [alloc_answers, alloc_calls, Nat.add_right_comm] at hr
      exact hr

end

/-! ## room for more blocks -/

/-- the next `n` answers are different free addresses -/
structure Room (h : Heap β) (n : Nat) : Prop where
  fresh : ∀ i < n, h.answers (h.calls + i) ≠ 0 ∧ h.answers (h.calls + i) < 2 ^ 32 ∧
    h.blocks (h.answers (h.calls + i)) = none
  distinct : ∀ i < n, ∀ j < i, h.answers (h.calls + i) ≠ h.answers (h.calls + j)

section
variable {h h' : Heap β} {n : Nat}

theorem Room.not_full (hr : h.Room (n + 1)) : ¬ h.Full :=
  not_full_iff.mpr (hr.fresh 0 (Nat.succ_pos n))

theorem Room.mono {m : Nat} (hr : h.Room n) (hm : m ≤ n) : h.Room m :=
  ⟨fun i hi => hr.fresh i (by omega), fun i hi => hr.distinct i (by omega)⟩

theorem Room.congr (hr : h.Room n) (ha : h'.answers = h.answers) (hc : h'.calls = h.calls)
    (hb : ∀ a, h.blocks a = none → h'.blocks a = none) : h'.Room n := by
  constructor
  · intro i hi
    obtain ⟨h0, hlt, hn⟩ := hr.fresh i hi
    rw [ha, hc]
    exact ⟨h0, hlt, hb _ hn⟩
  · rw [ha, hc]
    exact hr.distinct

theorem Room.alloc (hr : h.Room (n + 1)) (b : β) : (h.alloc b).2.Room n := by
  have hf := hr.not_full
  constructor
  · intro i hi
    obtain ⟨h0, hlt, hn⟩ := hr.fresh (i + 1) (by omega)
    have hd : h.answers (h.calls + (i + 1)) ≠ h.answers h.calls :=
      hr.distinct (i + 1) (by omega) 0 (by omega)
    rw [alloc_answers, alloc_calls, Nat.add_assoc, Nat.add_comm 1 i, alloc_not_full b hf]
    exact ⟨h0, hlt, (Function.update_of_ne hd _ _).trans hn⟩
  · intro i hi j hj
    rw [alloc_answers, alloc_calls, Nat.add_assoc, Nat.add_assoc, Nat.add_comm 1 i,
      Nat.add_comm 1 j]
    exact hr.distinct (i + 1) (by omega) (j + 1) (by omega)

theorem room_succ (b : β) : h.Room (n + 1) ↔ ¬ h.Full ∧ (h.alloc b).2.Room n := by
  constructor
  · intro hr
    exact ⟨hr.not_full, hr.alloc b⟩
  · rintro ⟨hf, hr⟩
    obtain ⟨h0, hlt, hn⟩ := not_full_iff.mp hf
    have hnext : ∀ i < n, h.answers (h.calls + (i + 1)) ≠ 0 ∧
        h.answers (h.calls + (i + 1)) < 2 ^ 32 ∧
        Function.update h.blocks (h.answers h.calls) (some b) (h.answers (h.calls + (i + 1))) =
          none := by
      intro i hi
      have hx := hr.fresh i hi
      rw [alloc_answers, alloc_calls, Nat.add_assoc, Nat.add_comm 1 i, alloc_not_full b hf] at hx
      exact hx
    have hne : ∀ i < n, h.answers (h.calls + (i + 1)) ≠ h.answers h.calls := by
      intro i hi he
      have hx := (hnext i hi).2.2
      rw [he, Function.update_self] at hx
      cases hx
    constructor
    · intro i hi
      cases i with
      | zero => exact ⟨h0, hlt, hn⟩
      | succ i =>
        obtain ⟨h1, h2, h3⟩ := hnext i (by omega)
        rw [Function.update_of_ne (hne i (by omega))] at h3
        exact ⟨h1, h2, h3⟩
    · intro i hi j hj
      obtain ⟨i, rfl⟩ : ∃ k, i = k + 1 := ⟨i - 1, by omega⟩
      cases j with
      | zero => exact hne i (by omega)
      | succ j =>
        have hx := hr.distinct i (by omega) j (by omega)
        rw [alloc_answers, alloc_calls, Nat.add_assoc, Nat.add_assoc, Nat.add_comm 1 i,
          Nat.add_comm 1 j] at hx
        exact hx

theorem Room.store {a : Nat} (hr : h.Room n) (ha : h.blocks a ≠ none) (b : β) :
    (h.store a b).Room n := by
  refine hr.congr rfl rfl ?_
  intro q hq
  show Function.update h.blocks a (some b) q = none
  rw [Function.update_of_ne]
  · exact hq
  · rintro rfl
    exact ha hq

end

/-! ## blocks that were added -/

/-- `h'` is `h` behind `k` calls that were served: their blocks are still there, and no other block
came or went -/
structure Grown (h : Heap β) (k : Nat) (h' : Heap β) : Prop where
  room : h.Room k
  answers : h'.answers = h.answers
  calls : h'.calls = h.calls + k
  free : ∀ a, h'.blocks a = none ↔ h.blocks a = none ∧ ∀ i < k, h.answers (h.calls + i) ≠ a

section
variable {h h' : Heap β} {k n : Nat}

theorem Grown.refl (h : Heap β) : h.Grown 0 h where
  room := ⟨fun i hi => absurd hi (by omega), fun i hi => absurd hi (by omega)⟩
  answers := rfl
  calls := rfl
  free := fun a => ⟨fun ha => ⟨ha, fun i hi => absurd hi (by omega)⟩, fun ha => ha.1⟩

theorem Grown.store (hg : h.Grown k h') {a : Nat} (ha : h'.blocks a ≠ none) (b : β) :
    h.Grown k (h'.store a b) where
  room := hg.room
  answers := hg.answers
  calls := hg.calls
  free := by
    intro q
    rw [← hg.free q]
    show Function.update h'.blocks a (some b) q = none ↔ _
    by_cases hq : q = a
    · rw [hq, Function.update_self]
      exact iff_of_false (Option.some_ne_none b) ha
    · rw [Function.update_of_ne hq]

/-- **What is left of the room.** -/
theorem Grown.room_iff (hg : h.Grown k h') : h'.Room n ↔ h.Room (k + n) := by
  have hans : ∀ i, h'.answers (h'.calls + i) = h.answers (h.calls + (k + i)) := by
    intro i
    rw [hg.answers, hg.calls, Nat.add_assoc]
  constructor
  · intro hr
    have hnew : ∀ i, ¬ i < k → i < k + n → h.answers (h.calls + i) ≠ 0 ∧
        h.answers (h.calls + i) < 2 ^ 32 ∧ h'.blocks (h.answers (h.calls + i)) = none := by
      intro i hk hi
      have hx := hr.fresh (i - k) (by omega)
      rw [hans, show k + (i - k) = i by omega] at hx
      exact hx
    constructor
    · intro i hi
      by_cases hk : i < k
      · exact hg.room.fresh i hk
      · obtain ⟨h0, hlt, hn⟩ := hnew i hk hi
        exact ⟨h0, hlt, ((hg.free _).mp hn).1⟩
    · intro i hi j hj
      by_cases hk : i < k
      · exact hg.room.distinct i hk j hj
      · by_cases hk' : j < k
        · exact fun e => ((hg.free _).mp (hnew i hk hi).2.2).2 j hk' e.symm
        · have hx := hr.distinct (i - k) (by omega) (j - k) (by omega)
          rw [hans, hans, show k + (i - k) = i by omega, show k + (j - k) = j by omega] at hx
          exact hx
  · intro hr
    constructor
    · intro i hi
      rw [hans]
      obtain ⟨h0, hlt, hn⟩ := hr.fresh (k + i) (by omega)
      refine ⟨h0, hlt, (hg.free _).mpr ⟨hn, fun j hj => ?_⟩⟩
      exact fun e => hr.distinct (k + i) (by omega) j (by omega) e.symm
    · intro i hi j hj
      rw [hans, hans]
      exact hr.distinct (k + i) (by omega) (k + j) (by omega)

theorem room_one : h.Room 1 ↔ ¬ h.Full := by
  rw [not_full_iff]
  constructor
  · intro hr
    exact hr.fresh 0 (by omega)
  · intro hf
    constructor
    · intro i hi
      rw [show i = 0 by omega]
      exact hf
    · intro i hi j hj
      omega

theorem Grown.not_full_iff (hg : h.Grown k h') : ¬ h'.Full ↔ h.Room (k + 1) := by
  rw [← room_one, hg.room_iff]

/-- one more call -/
theorem Grown.alloc (hg : h.Grown k h') (hf : ¬ h'.Full) (b : β) :
    h.Grown (k + 1) (h'.alloc b).2 where
  room := hg.not_full_iff.mp hf
  answers := (alloc_answers h' b).trans hg.answers
  calls := by rw [alloc_calls, hg.calls, Nat.add_assoc]
  free := by
    intro a
    have hans : h'.answers h'.calls = h.answers (h.calls + k) := by rw [hg.answers, hg.calls]
    rw [alloc_not_full b hf, hans]
    show Function.update h'.blocks (h.answers (h.calls + k)) (some b) a = none ↔ _
    by_cases ha : a = h.answers (h.calls + k)
    · rw [ha, Function.update_self]
      exact iff_of_false (Option.some_ne_none b) fun hx => hx.2 k (by omega) rfl
    · rw [Function.update_of_ne ha, hg.free a]
      refine and_congr_right fun _ => ⟨fun hx i hi => ?_, fun hx i hi => hx i (by omega)⟩
      rcases Nat.lt_succ_iff_lt_or_eq.mp hi with hi | rfl
      · exact hx i hi
      · exact fun e => ha e.symm

theorem Grown.trans {h'' : Heap β} {l : Nat} (hg : h.Grown k h') (hg' : h'.Grown l h'') :
    h.Grown (k + l) h'' where
  room := hg.room_iff.mp hg'.room
  answers := hg'.answers.trans hg.answers
  calls := by rw [hg'.calls, hg.calls, Nat.add_assoc]
  free := by
    intro a
    rw [hg'.free a, hg.free a, hg.answers, hg.calls, and_assoc]
    refine and_congr_right fun _ => ⟨fun hx i hi => ?_, fun hx => ⟨fun i hi => hx i (by omega), ?_⟩⟩
    · by_cases hk : i < k
      · exact hx.1 i hk
      · have h1 := hx.2 (i - k) (by omega)
        rw [Nat.add_assoc, show k + (i - k) = i by omega] at h1
        exact h1
    · intro i hi
      rw [Nat.add_assoc]
      exact hx (k + i) (by omega)

end

end Heap

end Lib
