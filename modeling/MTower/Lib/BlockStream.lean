import Mathlib

/-!
# Streams cut into blocks

A stage between a producer and a consumer of blocks of `b` elements holds back a few elements.

* `Passes`            one call: what comes out and what is held behind it are what was held and what
                      came in, in order, and everything that comes out is cut at blocks;
* `Passes.append`     so the cuts of the input do not matter;
* `mask_eq`           rounding down to a multiple of `2 ^ k` by a mask;
* `IsCeil`            rounding up to a multiple.
-/

set_option linter.unusedVariables false

namespace Lib

section
variable {α : Type} {b cap : Nat} {held rest rest' chunk chunk' : List α} {out out' : List (List α)}

/-- `held` is held back, `chunk` comes in, `out` goes out and `rest` is held back after that -/
structure Passes (b cap : Nat) (held chunk : List α) (out : List (List α)) (rest : List α) :
    Prop where
  all : out.flatten ++ rest = held ++ chunk
  blocks : ∀ d ∈ out, b ∣ d.length
  cap : rest.length ≤ cap

theorem Passes.nil (h : held.length ≤ cap) : Passes b cap held [] [] held where
  all := (List.append_nil held).symm
  blocks := nofun
  cap := h

/-- **Two inputs, or their concatenation.** -/
theorem Passes.append (h : Passes b cap held chunk out rest)
    (h' : Passes b cap rest chunk' out' rest') :
    Passes b cap held (chunk ++ chunk') (out ++ out') rest' where
  all := by
    rw [List.flatten_append, List.append_assoc, h'.all, ← List.append_assoc, h.all,
      List.append_assoc]
  blocks := by
    intro d hd
    rcases List.mem_append.mp hd with hd | hd
    · exact h.blocks d hd
    · exact h'.blocks d hd
  cap := h'.cap

theorem Passes.length (h : Passes b cap held chunk out rest) :
    out.flatten.length + rest.length = held.length + chunk.length := by
  have := congrArg List.length h.all
  simpa only [List.length_append] using this

theorem Passes.dvd (h : Passes b cap held chunk out rest) : b ∣ out.flatten.length := by
  have hb := h.blocks
  clear h
  induction out with
  | nil => exact Nat.dvd_zero b
  | cons d out ih =>
    rw [List.flatten_cons, List.length_append]
    exact Nat.dvd_add (hb d List.mem_cons_self)
      (ih fun e he => hb e (List.mem_cons_of_mem _ he))

/-- what is held back is the end of the input -/
theorem Passes.rest_eq (h : Passes b cap held chunk out rest) :
    rest = (held ++ chunk).drop out.flatten.length := by
  rw [← h.all, List.drop_left]

end

/-! ## rounding -/

section
variable {b v x y k w : Nat}

/-- **A mask rounds down.** -/
theorem mask_eq (hk : k ≤ w) (hv : v < 2 ^ w) :
    v &&& ((2 ^ w - 1) ^^^ (2 ^ k - 1)) = v / 2 ^ k * 2 ^ k := by
  apply Nat.eq_of_testBit_eq
  intro i
  rw [Nat.testBit_and, Nat.testBit_xor, Nat.testBit_two_pow_sub_one, Nat.testBit_two_pow_sub_one,
    Nat.testBit_mul_two_pow, Nat.testBit_div_two_pow]
  by_cases hi : i < k
  · simp [hi, Nat.lt_of_lt_of_le hi hk]
  · by_cases hw : i < w
    · simp [hi, hw, Nat.not_lt.mp hi, Nat.sub_add_cancel (Nat.not_lt.mp hi)]
    · have hz : v.testBit i = false :=
        Nat.testBit_lt_two_pow (Nat.lt_of_lt_of_le hv (Nat.pow_le_pow_right (by omega) (by omega)))
      simp [hi, hw, hz, Nat.not_lt.mp hi, Nat.sub_add_cancel (Nat.not_lt.mp hi)]

/-- `x` is the least multiple of `b` that is not below `v` -/
structure IsCeil (b v x : Nat) : Prop where
  dvd : b ∣ x
  le : v ≤ x
  lt : x < v + b

theorem isCeil_div (hb : 0 < b) : IsCeil b v ((v + b - 1) / b * b) := by
  have h1 := Nat.div_add_mod (v + b - 1) b
  have h2 := Nat.mod_lt (v + b - 1) hb
  rw [Nat.mul_comm b] at h1
  exact ⟨Nat.dvd_mul_left b _, by omega, by omega⟩

/-- a multiple of `b` is not below `v` if and only if it is not below `x` -/
theorem IsCeil.le_iff (h : IsCeil b v x) (hy : b ∣ y) : x ≤ y ↔ v ≤ y := by
  constructor
  · exact fun hxy => h.le.trans hxy
  · intro hvy
    exact Nat.le_of_lt_add_of_dvd (by have := h.lt; omega) h.dvd hy

/-- multiples of `b` lie `b` apart -/
theorem next_multiple (hy : b ∣ y) (hk : k * b < y) : (k + 1) * b ≤ y := by
  refine Nat.le_of_lt_add_of_dvd ?_ (Nat.dvd_mul_left b _) hy
  rw [Nat.succ_mul]
  omega

theorem IsCeil.unique (h : IsCeil b v x) (h' : IsCeil b v y) : x = y :=
  Nat.le_antisymm ((h.le_iff h'.dvd).mpr h'.le) ((h'.le_iff h.dvd).mpr h.le)

end

end Lib
