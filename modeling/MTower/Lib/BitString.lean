import Mathlib.Data.List.Induction
import Mathlib.Data.Nat.Bitwise

/-!
# Strings of bits

A number of `w` bits is written with the most significant bit first, and a list of numbers of one
width as one string after the other.

* `bits_value`, `value_bits`  the string of a number and the number of a string;
* `getElem?_flatMap_bits`     the bits of a list of numbers of one width;
* `flatMap_bits_inj`          a string splits in one way only;
* `flatMap_pieces`            pieces of one length put together again.
-/

namespace Lib.BitString

variable {w n : Nat}

/-- the `w` low bits of `v`, the most significant first -/
def bits : Nat → Nat → List Bool
  | 0, _ => []
  | w + 1, v => v.testBit w :: bits w v

/-- the number that a string writes -/
def value (l : List Bool) : Nat := l.foldl (fun v b => 2 * v + b.toNat) 0

theorem length_bits (w v : Nat) : (bits w v).length = w := by
  induction w with
  | zero => rfl
  | succ w ih => simp [bits, ih]

theorem getElem?_bits (v : Nat) {j : Nat} (hj : j < w) :
    (bits w v)[j]? = some (v.testBit (w - 1 - j)) := by
  induction w generalizing j with
  | zero => cases hj
  | succ w ih =>
    cases j with
    | zero => rfl
    | succ j =>
      have hsub : w + 1 - 1 - (j + 1) = w - 1 - j := by omega
      rw [bits, List.getElem?_cons_succ, ih (by omega), hsub]

theorem value_concat (l : List Bool) (b : Bool) : value (l ++ [b]) = 2 * value l + b.toNat := by
  rw [value, List.foldl_append]
  rfl

theorem value_lt (l : List Bool) : value l < 2 ^ l.length := by
  induction l using List.reverseRecOn with
  | nil => exact Nat.one_pos
  | append_singleton l b ih =>
    have hb := b.toNat_lt
    rw [value_concat, List.length_append, List.length_singleton, Nat.pow_succ]
    omega

/-- the bits of a number, the last one apart -/
theorem bits_concat (w v : Nat) : bits (w + 1) v = bits w (v / 2) ++ [v.testBit 0] := by
  induction w generalizing v with
  | zero => rfl
  | succ w ih => rw [bits, ih, bits, List.cons_append, Nat.testBit_succ]

theorem bits_value (l : List Bool) : bits l.length (value l) = l := by
  induction l using List.reverseRecOn with
  | nil => rfl
  | append_singleton l b ih =>
    have hb := b.toNat_lt
    have hdiv : (2 * value l + b.toNat) / 2 = value l := by omega
    have hbit : (2 * value l + b.toNat).testBit 0 = b := by
      cases b <;> simp [Nat.testBit_zero]
    rw [List.length_append, List.length_singleton, bits_concat, value_concat, hdiv, hbit, ih]

theorem value_bits {v : Nat} (hv : v < 2 ^ w) : value (bits w v) = v := by
  induction w generalizing v with
  | zero =>
    rw [Nat.pow_zero] at hv
    exact (Nat.lt_one_iff.mp hv).symm
  | succ w ih =>
    have hhalf : v / 2 < 2 ^ w := by
      rw [Nat.pow_succ] at hv
      omega
    rw [bits_concat, value_concat, ih hhalf, Nat.testBit_zero]
    rcases Nat.mod_two_eq_zero_or_one v with h | h <;> simp [h] <;> omega

theorem bits_inj {v v' : Nat} (hv : v < 2 ^ w) (hv' : v' < 2 ^ w) (h : bits w v = bits w v') :
    v = v' := by
  rw [← value_bits hv, h, value_bits hv']

/-! ## lists of numbers of one width -/

theorem length_flatMap_bits (w : Nat) (l : List Nat) : (l.flatMap (bits w)).length = w * l.length := by
  induction l with
  | nil => rfl
  | cons a l ih =>
    rw [List.flatMap_cons, List.length_append, ih, length_bits, List.length_cons, Nat.mul_succ,
      Nat.add_comm]

theorem getElem?_flatMap_bits (l : List Nat) (i : Nat) {j : Nat} (hj : j < w) :
    (l.flatMap (bits w))[w * i + j]? = l[i]?.map fun v => v.testBit (w - 1 - j) := by
  induction l generalizing i with
  | nil => simp
  | cons a l ih =>
    cases i with
    | zero =>
      rw [List.flatMap_cons, Nat.mul_zero, Nat.zero_add,
        List.getElem?_append_left (by rwa [length_bits]), getElem?_bits a hj]
      rfl
    | succ i =>
      have hsub : w * (i + 1) + j - w = w * i + j := by
        rw [Nat.mul_succ]
        omega
      rw [List.flatMap_cons, List.getElem?_append_right (by rw [length_bits, Nat.mul_succ]; omega),
        length_bits, hsub, ih, List.getElem?_cons_succ]

theorem flatMap_bits_inj (hw : 0 < w) {l m : List Nat} (hl : ∀ v ∈ l, v < 2 ^ w)
    (hm : ∀ v ∈ m, v < 2 ^ w) (h : l.flatMap (bits w) = m.flatMap (bits w)) : l = m := by
  have hlen : l.length = m.length := by
    have := congrArg List.length h
    rw [length_flatMap_bits, length_flatMap_bits] at this
    exact Nat.eq_of_mul_eq_mul_left hw this
  induction l generalizing m with
  | nil => exact (List.length_eq_zero_iff.mp hlen.symm).symm
  | cons a l ih =>
    cases m with
    | nil => cases hlen
    | cons b m =>
      rw [List.flatMap_cons, List.flatMap_cons] at h
      obtain ⟨hhead, htail⟩ := List.append_inj h (by rw [length_bits, length_bits])
      rw [bits_inj (hl a List.mem_cons_self) (hm b List.mem_cons_self) hhead,
        ih (fun v hv => hl v (List.mem_cons_of_mem _ hv))
          (fun v hv => hm v (List.mem_cons_of_mem _ hv)) htail (Nat.succ.inj hlen)]

/-- the pieces of length `k` are the list they are taken from -/
theorem flatMap_pieces {α : Type} (l : List α) (k n : Nat) :
    ((List.range n).flatMap fun i => (l.drop (k * i)).take k) = l.take (k * n) := by
  induction n with
  | zero => simp
  | succ n ih =>
    rw [List.range_succ, List.flatMap_append, ih, List.flatMap_singleton, Nat.mul_succ,
      List.take_add]

end Lib.BitString
