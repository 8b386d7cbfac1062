import Mathlib

/-!
# Flat byte memory

A memory is a function from addresses to bytes.  The three writers are `copy` (`memcpy`),
`overlay` (another party rewrites a range) and `store32`; each has an inside lemma and an outside
lemma, and a 32-bit load is determined by its four bytes (`load32_congr`).

* `Range`               a half open interval of addresses, `Disjoint` and `Within`;
* `load32_store32`      a stored word reads back;
* `land_high_mask`      masking off the low bits is rounding down;
* `pairwise_append_after`  ranges handed out one after the other are pairwise disjoint.
-/

set_option linter.unusedVariables false

namespace Lib

/-- byte-addressed memory -/
abbrev Mem := Nat → UInt8

/-! ## ranges -/

/-- the addresses `start, …, start + len - 1` -/
structure Range where
  start : Nat
  len : Nat
deriving DecidableEq, Repr

namespace Range

def stop (r : Range) : Nat := r.start + r.len

/-- the address lies in the range -/
def Has (r : Range) (a : Nat) : Prop := r.start ≤ a ∧ a < r.start + r.len

instance (r : Range) (a : Nat) : Decidable (r.Has a) :=
  inferInstanceAs (Decidable (r.start ≤ a ∧ a < r.start + r.len))

def Disjoint (r s : Range) : Prop := r.stop ≤ s.start ∨ s.stop ≤ r.start

instance (r s : Range) : Decidable (r.Disjoint s) :=
  inferInstanceAs (Decidable (r.stop ≤ s.start ∨ s.stop ≤ r.start))

/-- the range lies in `[lo, hi)` -/
def Within (r : Range) (lo hi : Nat) : Prop := lo ≤ r.start ∧ r.stop ≤ hi

instance (r : Range) (lo hi : Nat) : Decidable (r.Within lo hi) :=
  inferInstanceAs (Decidable (lo ≤ r.start ∧ r.stop ≤ hi))

theorem has_mk (b n a : Nat) : (Range.mk b n).Has a ↔ b ≤ a ∧ a < b + n := Iff.rfl

theorem Disjoint.symm {r s : Range} (h : r.Disjoint s) : s.Disjoint r := Or.symm h

theorem Disjoint.not_has {r s : Range} (h : r.Disjoint s) {a : Nat} (ha : s.Has a) :
    ¬ r.Has a := by
  intro hr
  simp only [Disjoint, stop, Has] at h ha hr
  omega

end Range

/-- A list of ranges that all end below `lo`, extended by a range that starts at `lo`. -/
theorem pairwise_append_after {l : List Range} {r : Range} (h : l.Pairwise Range.Disjoint)
    (hl : ∀ s ∈ l, s.stop ≤ r.start) : (l ++ [r]).Pairwise Range.Disjoint := by
  rw [List.pairwise_append]
  refine ⟨h, List.pairwise_singleton _ _, ?_⟩
  intro s hs t ht
  rw [List.mem_singleton] at ht
  subst ht
  exact Or.inl (hl s hs)

/-! ## writers -/

namespace Mem

/-- `memcpy`: the source is read before anything is written -/
def copy (m : Mem) (dst src len : Nat) : Mem :=
  fun a => if dst ≤ a ∧ a < dst + len then m (src + (a - dst)) else m a

/-- the addresses of `r` take their bytes from `n` -/
def overlay (m : Mem) (r : Range) (n : Mem) : Mem :=
  fun a => if r.Has a then n a else m a

/-- little endian store of the low 32 bits of `w` -/
def store32 (m : Mem) (p w : Nat) : Mem :=
  fun a => if p ≤ a ∧ a < p + 4 then UInt8.ofNat (w / 256 ^ (a - p)) else m a

def load32 (m : Mem) (p : Nat) : Nat :=
  (m p).toNat + 256 * (m (p + 1)).toNat + 65536 * (m (p + 2)).toNat
    + 16777216 * (m (p + 3)).toNat

theorem copy_in (m : Mem) {dst src len a : Nat} (h : dst ≤ a ∧ a < dst + len) :
    m.copy dst src len a = m (src + (a - dst)) := if_pos h

theorem copy_out (m : Mem) {dst src len a : Nat} (h : ¬ (Range.mk dst len).Has a) :
    m.copy dst src len a = m a := if_neg h

theorem overlay_in (m n : Mem) {r : Range} {a : Nat} (h : r.Has a) : m.overlay r n a = n a :=
  if_pos h

theorem overlay_out (m n : Mem) {r : Range} {a : Nat} (h : ¬ r.Has a) : m.overlay r n a = m a :=
  if_neg h

theorem store32_out (m : Mem) {p w a : Nat} (h : ¬ (Range.mk p 4).Has a) :
    m.store32 p w a = m a := if_neg h

theorem load32_lt (m : Mem) (p : Nat) : m.load32 p < 2 ^ 32 := by
  have h0 := (m p).toNat_lt
  have h1 := (m (p + 1)).toNat_lt
  have h2 := (m (p + 2)).toNat_lt
  have h3 := (m (p + 3)).toNat_lt
  unfold load32
  omega

/-- A word depends on its four bytes only. -/
theorem load32_congr {m n : Mem} {p : Nat} (h : ∀ a, (Range.mk p 4).Has a → m a = n a) :
    m.load32 p = n.load32 p := by
  unfold load32
  rw [h p ⟨by simp, by simp⟩, h (p + 1) ⟨by simp, by simp⟩, h (p + 2) ⟨by simp, by simp⟩,
    h (p + 3) ⟨by simp, by simp⟩]

theorem load32_store32_of_disjoint (m : Mem) {p q w : Nat}
    (h : (Range.mk p 4).Disjoint (Range.mk q 4)) : (m.store32 p w).load32 q = m.load32 q :=
  load32_congr fun _ ha => store32_out m (h.not_has ha)

theorem load32_store32 (m : Mem) (p : Nat) {w : Nat} (hw : w < 2 ^ 32) :
    (m.store32 p w).load32 p = w := by
  have byte : ∀ k, k < 4 → m.store32 p w (p + k) = UInt8.ofNat (w / 256 ^ k) := by
    intro k hk
    unfold store32
    rw [if_pos ⟨by omega, by omega⟩, Nat.add_sub_cancel_left]
  have b0 := byte 0 (by decide)
  rw [Nat.add_zero] at b0
  unfold load32
  rw [b0, byte 1 (by decide), byte 2 (by decide), byte 3 (by decide)]
  simp only [UInt8.toNat_ofNat']
  omega

end Mem

/-! ## rounding -/

/-- Masking off the low `k` bits of an `n`-bit word rounds it down to a multiple of `2^k`. -/
theorem land_high_mask {x n k : Nat} (hk : k ≤ n) (hx : x < 2 ^ n) :
    x &&& (2 ^ n - 2 ^ k) = x / 2 ^ k * 2 ^ k := by
  have e : 2 ^ n - 2 ^ k = (2 ^ (n - k) - 1) <<< k := by
    rw [Nat.shiftLeft_eq, Nat.sub_mul, one_mul, ← pow_add, Nat.sub_add_cancel hk]
  apply Nat.eq_of_testBit_eq
  intro i
  rw [e, Nat.testBit_and, Nat.testBit_shiftLeft, Nat.testBit_two_pow_sub_one,
    Nat.testBit_mul_two_pow, Nat.testBit_div_two_pow]
  by_cases hi : k ≤ i
  · rw [Nat.sub_add_cancel hi]
    by_cases hn : i < n
    · have hd : i - k < n - k := by omega
      simp [hi, hd]
    · have hb : x.testBit i = false :=
        Nat.testBit_lt_two_pow (lt_of_lt_of_le hx (Nat.pow_le_pow_right (by decide) (by omega)))
      simp [hb]
  · simp [hi]

end Lib
