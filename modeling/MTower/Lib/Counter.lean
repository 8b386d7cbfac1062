import MTower.Lib.Fields
import Mathlib.Data.List.Induction

/-!
# A big endian counter in bytes

The counter is a list of bytes, the most significant first.  It is incremented from the last byte
on: a byte that does not wrap to zero ends the loop, a byte that does carries into the one before.

* `beBytes`           the bytes of a number, `beBytes_number` the bytes are the number's;
* `increment_append`  the loop leaves the bytes behind it alone;
* `number_increment`  the increment is `+ 1`, modulo the size of the counter.
-/

set_option linter.unusedVariables false

namespace Lib.Fields

/-! ## bytes of a number -/

/-- the `k` low bytes of `v`, big endian -/
def beBytes : Nat → Nat → List UInt8
  | 0, _ => []
  | k + 1, v => beBytes k (v / 256) ++ [UInt8.ofNat v]

theorem length_beBytes (k v : Nat) : (beBytes k v).length = k := by
  induction k generalizing v with
  | zero => rfl
  | succ k ih => rw [beBytes, List.length_append, ih, List.length_singleton]

theorem number_nil : number [] = 0 := rfl

theorem number_concat (l : List UInt8) (b : UInt8) : number (l ++ [b]) = 256 * number l + b.toNat := by
  rw [number, List.foldl_append]
  rfl

theorem number_lt_pow (l : List UInt8) : number l < 256 ^ l.length := by
  have h := foldl_lt l 0 0 Nat.one_pos
  rwa [Nat.zero_add] at h

theorem number_beBytes (k v : Nat) : number (beBytes k v) = v % 256 ^ k := by
  induction k generalizing v with
  | zero => rw [Nat.pow_zero, Nat.mod_one]; rfl
  | succ k ih =>
    have hbyte : (UInt8.ofNat v).toNat = v % 256 := UInt8.toNat_ofNat'
    rw [beBytes, number_concat, ih, hbyte, Nat.pow_succ, Nat.mul_comm (256 ^ k), Nat.mod_mul,
      Nat.add_comm]

theorem beBytes_number (l : List UInt8) : beBytes l.length (number l) = l := by
  induction l using List.reverseRecOn with
  | nil => rfl
  | append_singleton l b ih =>
    have hb := b.toNat_lt
    have hdiv : (256 * number l + b.toNat) / 256 = number l := by omega
    have hmod : UInt8.ofNat (256 * number l + b.toNat) = b := by
      apply UInt8.toNat_inj.mp
      rw [UInt8.toNat_ofNat']
      omega
    rw [List.length_append, List.length_singleton, beBytes, number_concat, hdiv, hmod, ih]

/-- bytes of the same length with the same number are the same -/
theorem number_inj {l m : List UInt8} (hlen : l.length = m.length) (h : number l = number m) :
    l = m := by
  rw [← beBytes_number l, hlen, h, beBytes_number]

/-- only the low bytes of the number matter -/
theorem beBytes_mod (k v : Nat) : beBytes k (v % 256 ^ k) = beBytes k v := by
  apply number_inj
  · rw [length_beBytes, length_beBytes]
  · rw [number_beBytes, number_beBytes, Nat.mod_mod]

/-! ## the increment -/

/-- the loop that increments the first `i` bytes of the counter, from the last of them on -/
def increment : Nat → List UInt8 → List UInt8
  | 0, c => c
  | i + 1, c =>
    let c := c.set i (c.getD i 0 + 1)
    if c.getD i 0 ≠ 0 then c else increment i c

theorem length_increment (i : Nat) (c : List UInt8) : (increment i c).length = c.length := by
  induction i generalizing c with
  | zero => rfl
  | succ i ih =>
    rw [increment]
    split
    · exact List.length_set
    · rw [ih, List.length_set]

theorem increment_append (i : Nat) (c s : List UInt8) (hi : i ≤ c.length) :
    increment i (c ++ s) = increment i c ++ s := by
  induction i generalizing c with
  | zero => rfl
  | succ i ih =>
    have hlt : i < c.length := by omega
    have hget : (c ++ s).getD i 0 = c.getD i 0 := List.getD_append _ _ _ _ hlt
    have hset : (c ++ s).set i (c.getD i 0 + 1) = c.set i (c.getD i 0 + 1) ++ s :=
      List.set_append_left _ _ hlt
    have hlt' : i < (c.set i (c.getD i 0 + 1)).length := by rwa [List.length_set]
    rw [increment, increment, hget, hset, List.getD_append _ _ _ _ hlt']
    by_cases h0 : (c.set i (c.getD i 0 + 1)).getD i 0 ≠ 0
    · rw [if_pos h0, if_pos h0]
    · rw [if_neg h0, if_neg h0]
      exact ih _ (Nat.le_of_lt hlt')

/-- the last byte, and the carry -/
theorem increment_concat (l : List UInt8) (b : UInt8) :
    increment (l ++ [b]).length (l ++ [b]) =
      if b + 1 ≠ 0 then l ++ [b + 1] else increment l.length l ++ [0] := by
  have hget : (l ++ [b]).getD l.length 0 = b := by
    rw [List.getD_append_right _ _ _ _ (Nat.le_refl _), Nat.sub_self]
    rfl
  have hset : (l ++ [b]).set l.length (b + 1) = l ++ [b + 1] := by
    rw [List.set_append_right _ _ (Nat.le_refl _), Nat.sub_self]
    rfl
  have hget' : (l ++ [b + 1]).getD l.length 0 = b + 1 := by
    rw [List.getD_append_right _ _ _ _ (Nat.le_refl _), Nat.sub_self]
    rfl
  rw [List.length_append, List.length_singleton, increment, hget, hset, hget']
  by_cases h0 : b + 1 ≠ 0
  · rw [if_pos h0, if_pos h0]
  · rw [if_neg h0, if_neg h0, not_not.mp h0]
    exact increment_append _ _ _ (Nat.le_refl _)

/-- **The increment is `+ 1`**, through every carry. -/
theorem number_increment (l : List UInt8) :
    number (increment l.length l) = (number l + 1) % 256 ^ l.length := by
  induction l using List.reverseRecOn with
  | nil => rfl
  | append_singleton l b ih =>
    have hb := b.toNat_lt
    have hlt := number_lt_pow l
    have hadd : (b + 1).toNat = (b.toNat + 1) % 256 := by
      rw [UInt8.toNat_add]
      rfl
    have hpow : 256 ^ (l ++ [b]).length = 256 * 256 ^ l.length := by
      rw [List.length_append, List.length_singleton, Nat.pow_succ, Nat.mul_comm]
    rw [increment_concat, number_concat, hpow]
    by_cases h0 : b + 1 ≠ 0
    · -- no carry
      have hne : (b.toNat + 1) % 256 ≠ 0 := by
        intro e
        apply h0
        apply UInt8.toNat_inj.mp
        rw [hadd, e]
        rfl
      have hnext : (b.toNat + 1) % 256 = b.toNat + 1 := Nat.mod_eq_of_lt (by omega)
      rw [if_pos h0, number_concat, hadd, hnext, Nat.mod_eq_of_lt (by omega)]
      rfl
    · -- the byte wraps to zero and the ones before it are incremented
      have h255 : (b.toNat + 1) % 256 = 0 := by
        rw [← hadd, not_not.mp h0]
        rfl
      have hsum : 256 * number l + b.toNat + 1 = 256 * (number l + 1) := by omega
      rw [if_neg h0, number_concat, ih, hsum, Nat.mul_mod_mul_left]
      rfl

/-- the bytes of the next number -/
theorem increment_beBytes (k v : Nat) : increment k (beBytes k v) = beBytes k (v + 1) := by
  have hlen := length_beBytes k v
  have hinc := number_increment (beBytes k v)
  rw [hlen] at hinc
  apply number_inj
  · rw [length_increment, hlen, length_beBytes]
  · rw [hinc, number_beBytes, number_beBytes, Nat.mod_add_mod]

end Lib.Fields
