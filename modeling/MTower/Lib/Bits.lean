import Mathlib.Data.Nat.Bitwise

/-!
# Sets of indices as the bits of a number

A mask stands for the set of the positions of its bits.

* `and_eq_mask`, `and_eq_zero`  containment and disjointness;
* `Marks`  the mask of the elements of a list that have a property;
* `or_octets`  four octets joined by shifts.
-/

namespace Lib.Bits

variable {a m i j n : Nat}

theorem testBit_insert (a i j : Nat) :
    (a ||| 1 <<< i).testBit j = true ↔ a.testBit j = true ∨ j = i := by
  rw [Nat.testBit_or, Bool.or_eq_true, Nat.one_shiftLeft, Nat.testBit_two_pow,
    decide_eq_true_iff, eq_comm (a := i)]

/-- `m` is contained in `a` -/
theorem and_eq_mask : a &&& m = m ↔ ∀ i, m.testBit i = true → a.testBit i = true := by
  constructor
  · intro h i hi
    rw [← h, Nat.testBit_and, Bool.and_eq_true] at hi
    exact hi.1
  · intro h
    apply Nat.eq_of_testBit_eq
    intro i
    rw [Nat.testBit_and]
    cases hi : m.testBit i with
    | false => exact Bool.and_false _
    | true => rw [h i hi, Bool.and_true]

/-- `m` and `a` are disjoint -/
theorem and_eq_zero : a &&& m = 0 ↔ ∀ i, m.testBit i = true → ¬ a.testBit i = true := by
  constructor
  · intro h i hi ha
    have hz : (a &&& m).testBit i = true := by rw [Nat.testBit_and, ha, hi, Bool.and_true]
    rw [h, Nat.zero_testBit] at hz
    cases hz
  · intro h
    apply Nat.eq_of_testBit_eq
    intro i
    rw [Nat.testBit_and, Nat.zero_testBit]
    cases hi : m.testBit i with
    | false => exact Bool.and_false _
    | true => rw [Bool.eq_false_iff.mpr (h i hi), Bool.false_and]

theorem and_bit : a &&& 1 <<< i ≠ 0 ↔ a.testBit i = true := by
  rw [Ne, and_eq_zero, Nat.one_shiftLeft]
  constructor
  · intro h
    by_contra ha
    refine h fun k hk => ?_
    rw [Nat.testBit_two_pow, decide_eq_true_iff] at hk
    exact hk ▸ ha
  · intro ha h
    exact h i (Nat.testBit_two_pow_self) ha

theorem insert_lt (ha : a < 2 ^ n) (hi : i < n) : a ||| 1 <<< i < 2 ^ n := by
  apply Nat.or_lt_two_pow ha
  rw [Nat.one_shiftLeft]
  exact Nat.pow_lt_pow_right Nat.one_lt_two hi

section
variable {α : Type} {Q : α → Prop} {l : List α} {x : α}

/-- the bits of `m` are the positions, counted from `n`, of the elements with `Q` -/
def Marks (Q : α → Prop) (l : List α) (n m : Nat) : Prop :=
  ∀ i, m.testBit i = true ↔ ∃ k x, i = n + k ∧ l[k]? = some x ∧ Q x

theorem Marks.nil : Marks Q [] n 0 := by
  intro i
  rw [Nat.zero_testBit]
  constructor
  · intro h
    cases h
  · rintro ⟨k, x, -, hx, -⟩
    cases hx

theorem exists_at_cons : (∃ k y, i = n + k ∧ (x :: l)[k]? = some y ∧ Q y) ↔
    (∃ k y, i = n + 1 + k ∧ l[k]? = some y ∧ Q y) ∨ i = n ∧ Q x := by
  constructor
  · rintro ⟨k, y, rfl, hy, hq⟩
    cases k with
    | zero =>
      cases hy
      exact Or.inr ⟨rfl, hq⟩
    | succ k => exact Or.inl ⟨k, y, by omega, hy, hq⟩
  · rintro (⟨k, y, rfl, hy, hq⟩ | ⟨rfl, hq⟩)
    · exact ⟨k + 1, y, by omega, hy, hq⟩
    · exact ⟨0, x, rfl, rfl, hq⟩

theorem Marks.cons_pos (h : Marks Q l (n + 1) m) (hx : Q x) :
    Marks Q (x :: l) n (m ||| 1 <<< n) := by
  intro i
  rw [testBit_insert, h i, exists_at_cons]
  exact or_congr_right (and_iff_left hx).symm

theorem Marks.cons_neg (h : Marks Q l (n + 1) m) (hx : ¬ Q x) : Marks Q (x :: l) n m := by
  intro i
  rw [h i, exists_at_cons]
  exact (or_iff_left fun hi => hx hi.2).symm

theorem Marks.lt (h : Marks Q l n m) : m < 2 ^ (n + l.length) := by
  apply Nat.lt_pow_two_of_testBit
  intro i hi
  apply Bool.eq_false_iff.mpr
  intro hm
  obtain ⟨k, x, rfl, hx, -⟩ := (h i).mp hm
  have hk : k < l.length := (List.getElem?_eq_some_iff.mp hx).1
  omega

theorem Marks.mask_iff (h : Marks Q l 0 m) :
    a &&& m = m ↔ ∀ k x, l[k]? = some x → Q x → a.testBit k = true := by
  rw [and_eq_mask]
  constructor
  · intro ha k x hx hq
    exact ha k ((h k).mpr ⟨k, x, (Nat.zero_add k).symm, hx, hq⟩)
  · intro ha i hi
    obtain ⟨k, x, rfl, hx, hq⟩ := (h i).mp hi
    rw [Nat.zero_add]
    exact ha k x hx hq

theorem Marks.zero_iff (h : Marks Q l 0 m) :
    a &&& m = 0 ↔ ∀ k x, l[k]? = some x → Q x → ¬ a.testBit k = true := by
  rw [and_eq_zero]
  constructor
  · intro ha k x hx hq
    exact ha k ((h k).mpr ⟨k, x, (Nat.zero_add k).symm, hx, hq⟩)
  · intro ha i hi
    obtain ⟨k, x, rfl, hx, hq⟩ := (h i).mp hi
    rw [Nat.zero_add]
    exact ha k x hx hq

end

/-! ## octets -/

theorem shiftLeft_or_octet (x : Nat) {y : Nat} (hy : y < 256) : x <<< 8 ||| y = 256 * x + y := by
  rw [← Nat.shiftLeft_add_eq_or_of_lt (i := 8) hy, Nat.shiftLeft_eq]
  omega

theorem or_octets {b0 b1 b2 b3 : Nat} (h1 : b1 < 256) (h2 : b2 < 256) (h3 : b3 < 256) :
    b0 <<< 24 ||| b1 <<< 16 ||| b2 <<< 8 ||| b3
      = 16777216 * b0 + 65536 * b1 + 256 * b2 + b3 := by
  have e0 : b0 <<< 24 = b0 <<< 8 <<< 8 <<< 8 := by
    rw [← Nat.shiftLeft_add, ← Nat.shiftLeft_add]
  have e1 : b1 <<< 16 = b1 <<< 8 <<< 8 := by
    rw [← Nat.shiftLeft_add]
  rw [e0, e1, ← Nat.shiftLeft_or_distrib, ← Nat.shiftLeft_or_distrib, ← Nat.shiftLeft_or_distrib,
    shiftLeft_or_octet _ h1, shiftLeft_or_octet _ h2, shiftLeft_or_octet _ h3]
  omega

end Lib.Bits
