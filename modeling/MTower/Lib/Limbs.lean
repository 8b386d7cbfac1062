import Mathlib

/-!
# Numbers in rows of limbs

The entry at place `i` of a row counts `2 ^ (b * i)` times.

* `weigh`    the number of a row, for any measure of its entries; it is linear in the measure;
* `sweep`    one pass that carries: a word is added to what is carried, the low `b` bits stay and
             the rest goes on to the next place;
* `sweep_value`   the pass keeps the number when no word runs over;
* `value_lt_iff`, `value_inj`   rows of digits compared;
* `toNat_foldl_add`   a sum of words, as a loop adds them up.
-/

set_option linter.unusedVariables false

namespace Lib.Limbs

/-! ## the number of a row -/

section
variable {α β : Type} {b : Nat}

def weigh (b : Nat) (g : α → Int) : List α → Int
  | [] => 0
  | x :: l => g x + 2 ^ b * weigh b g l

variable {g h : α → Int}

@[simp] theorem weigh_nil : weigh b g [] = 0 := rfl

@[simp] theorem weigh_cons (x : α) (l : List α) :
    weigh b g (x :: l) = g x + 2 ^ b * weigh b g l := rfl

theorem weigh_add (l : List α) :
    weigh b (fun x => g x + h x) l = weigh b g l + weigh b h l := by
  induction l with
  | nil => rfl
  | cons x l ih =>
    rw [weigh_cons, weigh_cons, weigh_cons, ih]
    ring

theorem weigh_sub (l : List α) :
    weigh b (fun x => g x - h x) l = weigh b g l - weigh b h l := by
  induction l with
  | nil => rfl
  | cons x l ih =>
    rw [weigh_cons, weigh_cons, weigh_cons, ih]
    ring

theorem weigh_mul (c : Int) (l : List α) : weigh b (fun x => c * g x) l = c * weigh b g l := by
  induction l with
  | nil => rw [weigh_nil, weigh_nil, mul_zero]
  | cons x l ih =>
    rw [weigh_cons, weigh_cons, ih]
    ring

/-- every place full -/
theorem weigh_full (l : List α) : weigh b (fun _ => 2 ^ b - 1) l = 2 ^ (b * l.length) - 1 := by
  induction l with
  | nil => rw [weigh_nil, List.length_nil, mul_zero, pow_zero, sub_self]
  | cons x l ih =>
    rw [weigh_cons, ih, List.length_cons, Nat.mul_succ, pow_add]
    ring

theorem weigh_congr {l : List α} (H : ∀ x ∈ l, g x = h x) : weigh b g l = weigh b h l := by
  induction l with
  | nil => rfl
  | cons x l ih =>
    rw [weigh_cons, weigh_cons, H x List.mem_cons_self,
      ih fun y hy => H y (List.mem_cons_of_mem x hy)]

theorem weigh_map (f : β → α) (l : List β) : weigh b g (l.map f) = weigh b (fun x => g (f x)) l := by
  induction l with
  | nil => rfl
  | cons x l ih => rw [List.map_cons, weigh_cons, weigh_cons, ih]

theorem weigh_zipWith {γ : Type} (f : β → γ → α) (l : List β) (r : List γ) :
    weigh b g (List.zipWith f l r) = weigh b (fun q => g (f q.1 q.2)) (l.zip r) := by
  rw [← weigh_map (g := g) (fun q : β × γ => f q.1 q.2), List.zip_eq_zipWith, List.map_zipWith]

theorem weigh_append (l r : List α) :
    weigh b g (l ++ r) = weigh b g l + 2 ^ (b * l.length) * weigh b g r := by
  induction l with
  | nil => rw [List.nil_append, weigh_nil, List.length_nil, mul_zero, pow_zero, one_mul, zero_add]
  | cons x l ih =>
    rw [List.cons_append, weigh_cons, weigh_cons, ih, List.length_cons, Nat.mul_succ, pow_add]
    ring

theorem weigh_zip_left {l : List α} {r : List β} (hlen : l.length = r.length) :
    weigh b (fun q => g q.1) (l.zip r) = weigh b g l := by
  rw [← weigh_map Prod.fst (l.zip r), List.map_fst_zip (by omega)]

theorem weigh_zip_right {l : List β} {r : List α} (hlen : l.length = r.length) :
    weigh b (fun q => g q.2) (l.zip r) = weigh b g r := by
  rw [← weigh_map Prod.snd (l.zip r), List.map_snd_zip (by omega)]

theorem weigh_nonneg {l : List α} (H : ∀ x ∈ l, 0 ≤ g x) : 0 ≤ weigh b g l := by
  induction l with
  | nil => exact le_refl 0
  | cons x l ih =>
    have hx := H x List.mem_cons_self
    have hl := ih fun y hy => H y (List.mem_cons_of_mem x hy)
    rw [weigh_cons]
    positivity

/-- a row of digits -/
theorem weigh_lt {l : List α} (H : ∀ x ∈ l, g x < 2 ^ b) : weigh b g l < 2 ^ (b * l.length) := by
  induction l with
  | nil => exact one_pos
  | cons x l ih =>
    have hx := H x List.mem_cons_self
    have hl := ih fun y hy => H y (List.mem_cons_of_mem x hy)
    rw [weigh_cons, List.length_cons, Nat.mul_succ, pow_add, mul_comm _ (2 ^ b)]
    nlinarith [pow_pos (show (0 : Int) < 2 by norm_num) b]

/-- a bound on the entries only -/
theorem weigh_le {c : Int} {l : List α} (H : ∀ x ∈ l, g x ≤ c) :
    (2 ^ b - 1) * weigh b g l ≤ c * (2 ^ (b * l.length) - 1) := by
  induction l with
  | nil => rw [weigh_nil, List.length_nil, mul_zero, mul_zero, pow_zero, sub_self, mul_zero]
  | cons x l ih =>
    have hx := H x List.mem_cons_self
    have hl := ih fun y hy => H y (List.mem_cons_of_mem x hy)
    have hb : (0 : Int) ≤ 2 ^ b - 1 := by
      have := one_le_pow₀ (show (1 : Int) ≤ 2 by norm_num) (n := b)
      omega
    rw [weigh_cons, List.length_cons, Nat.mul_succ, pow_add, mul_comm _ (2 ^ b)]
    nlinarith [mul_le_mul_of_nonneg_left hx hb,
      mul_le_mul_of_nonneg_left hl (pow_pos (show (0 : Int) < 2 by norm_num) b).le]

end

/-! ## words -/

section
variable {w : Nat} {b : Nat}

/-- the number that a row of words stands for -/
def value (b : Nat) (l : List (BitVec w)) : Int := weigh b (fun x => (x.toNat : Int)) l

/-- the low `b` bits -/
def low (b : Nat) (x : BitVec w) : BitVec w := x &&& BitVec.ofNat w (2 ^ b - 1)

theorem toNat_low (hb : b ≤ w) (x : BitVec w) : (low b x).toNat = x.toNat % 2 ^ b := by
  have hle : 2 ^ b ≤ 2 ^ w := Nat.pow_le_pow_right (by norm_num) hb
  have hpos := Nat.two_pow_pos b
  rw [low, BitVec.toNat_and, BitVec.toNat_ofNat, Nat.mod_eq_of_lt (by omega),
    Nat.and_two_pow_sub_one_eq_mod]

/-- the words of `l` added to the carry `t`, place by place -/
def sweep (b : Nat) : BitVec w → List (BitVec w) → List (BitVec w) × BitVec w
  | t, [] => ([], t)
  | t, x :: l =>
    (low b (t + x) :: (sweep b ((t + x) >>> b) l).1, (sweep b ((t + x) >>> b) l).2)

@[simp] theorem length_sweep (t : BitVec w) (l : List (BitVec w)) :
    (sweep b t l).1.length = l.length := by
  induction l generalizing t with
  | nil => rfl
  | cons x l ih => rw [sweep, List.length_cons, List.length_cons, ih]

theorem sweep_lt (hb : b ≤ w) (t : BitVec w) (l : List (BitVec w)) :
    ∀ x ∈ (sweep b t l).1, x.toNat < 2 ^ b := by
  induction l generalizing t with
  | nil => intro x hx; exact absurd hx List.not_mem_nil
  | cons y l ih =>
    intro x hx
    rw [sweep, List.mem_cons] at hx
    cases hx with
    | inl h =>
      rw [h, toNat_low hb]
      exact Nat.mod_lt _ (Nat.two_pow_pos b)
    | inr h => exact ih _ x h

theorem sweep_append (t : BitVec w) (l r : List (BitVec w)) :
    sweep b t (l ++ r) =
      ((sweep b t l).1 ++ (sweep b (sweep b t l).2 r).1, (sweep b (sweep b t l).2 r).2) := by
  induction l generalizing t with
  | nil => rfl
  | cons x l ih => rw [List.cons_append, sweep, sweep, ih, List.cons_append]

/-- a word that leaves room for what is carried -/
def Roomy (b : Nat) (x : BitVec w) : Prop := x.toNat + 2 ^ (w - b) ≤ 2 ^ w

theorem toNat_shift_lt (hb : b ≤ w) (x : BitVec w) : (x >>> b).toNat < 2 ^ (w - b) := by
  rw [BitVec.toNat_ushiftRight, Nat.shiftRight_eq_div_pow, Nat.div_lt_iff_lt_mul (Nat.two_pow_pos b),
    ← pow_add, Nat.sub_add_cancel hb]
  exact x.isLt

theorem toNat_low_shift (hb : b ≤ w) (x : BitVec w) :
    (low b x).toNat + 2 ^ b * (x >>> b).toNat = x.toNat := by
  rw [toNat_low hb, BitVec.toNat_ushiftRight, Nat.shiftRight_eq_div_pow, Nat.mod_add_div]

/-- **A pass keeps the number.** -/
theorem sweep_value (hb : b ≤ w) {t : BitVec w} {l : List (BitVec w)} (ht : t.toNat < 2 ^ (w - b))
    (hl : ∀ x ∈ l, Roomy b x) :
    value b (sweep b t l).1 + 2 ^ (b * l.length) * (sweep b t l).2.toNat = t.toNat + value b l := by
  induction l generalizing t with
  | nil =>
    show (0 : Int) + 2 ^ (b * 0) * (t.toNat : Int) = t.toNat + 0
    rw [mul_zero, pow_zero, one_mul, zero_add, add_zero]
  | cons x l ih =>
    have hx : x.toNat + 2 ^ (w - b) ≤ 2 ^ w := hl x List.mem_cons_self
    have hsum : (t + x).toNat = t.toNat + x.toNat := by
      rw [BitVec.toNat_add, Nat.mod_eq_of_lt (by omega)]
    have hsplit : ((low b (t + x)).toNat : Int) + 2 ^ b * ((t + x) >>> b).toNat
        = t.toNat + x.toNat := by
      rw [← Nat.cast_add t.toNat, ← hsum, ← toNat_low_shift hb (t + x)]
      push_cast
      rfl
    have htail := ih (toNat_shift_lt hb (t + x)) fun y hy => hl y (List.mem_cons_of_mem x hy)
    simp only [value, sweep, weigh_cons, List.length_cons, Nat.mul_succ] at htail ⊢
    rw [pow_add]
    linear_combination hsplit + 2 ^ b * htail

/-- A pass whose number fits leaves no carry. -/
theorem sweep_fits (hb : b ≤ w) {t : BitVec w} {l : List (BitVec w)} (ht : t.toNat < 2 ^ (w - b))
    (hl : ∀ x ∈ l, Roomy b x) {c V : Int} (hc : t.toNat + value b l = V + 2 ^ (b * l.length) * c)
    (h0 : 0 ≤ V) (h1 : V < 2 ^ (b * l.length)) :
    value b (sweep b t l).1 = V ∧ ((sweep b t l).2.toNat : Int) = c := by
  have hv := sweep_value hb ht hl
  have hpos : 0 ≤ value b (sweep b t l).1 := weigh_nonneg fun x _ => Int.natCast_nonneg _
  have hlt : value b (sweep b t l).1 < 2 ^ (b * l.length) := by
    have h := weigh_lt (b := b) (g := fun x : BitVec w => (x.toNat : Int))
      (l := (sweep b t l).1) fun x hx => by exact_mod_cast sweep_lt hb t l x hx
    rwa [length_sweep] at h
  rw [hc] at hv
  have hmul : (2 ^ (b * l.length) : Int) * (((sweep b t l).2.toNat : Int) - c)
      = V - value b (sweep b t l).1 := by linear_combination hv
  have hzero : ((sweep b t l).2.toNat : Int) - c = 0 := by
    have hp : (0 : Int) < 2 ^ (b * l.length) := by positivity
    by_contra hne
    rcases lt_or_gt_of_ne hne with h | h <;> nlinarith
  rw [hzero, mul_zero] at hmul
  exact ⟨by omega, by omega⟩

/-! ## comparison and products -/

theorem value_nonneg (l : List (BitVec w)) : 0 ≤ value b l :=
  weigh_nonneg fun _ _ => Int.natCast_nonneg _

theorem value_lt {l : List (BitVec w)} (hl : ∀ x ∈ l, x.toNat < 2 ^ b) :
    value b l < 2 ^ (b * l.length) :=
  weigh_lt fun x hx => by exact_mod_cast hl x hx

theorem value_cons (x : BitVec w) (l : List (BitVec w)) :
    value b (x :: l) = x.toNat + 2 ^ b * value b l := rfl

/-- the place that decides is the highest one that differs -/
theorem value_lt_iff {x y : BitVec w} {l r : List (BitVec w)} (hx : x.toNat < 2 ^ b)
    (hy : y.toNat < 2 ^ b) : value b (x :: l) < value b (y :: r) ↔
      value b l < value b r ∨ (value b l = value b r ∧ x < y) := by
  have hx' : (x.toNat : Int) < 2 ^ b := by exact_mod_cast hx
  have hy' : (y.toNat : Int) < 2 ^ b := by exact_mod_cast hy
  rw [value_cons, value_cons, BitVec.lt_def]
  constructor
  · intro h
    rcases lt_trichotomy (value b l) (value b r) with hlt | heq | hgt
    · exact Or.inl hlt
    · rw [heq] at h
      exact Or.inr ⟨heq, by omega⟩
    · nlinarith
  · intro h
    cases h with
    | inl h => nlinarith
    | inr h =>
      rw [h.1]
      omega

theorem value_inj {l r : List (BitVec w)} (hlen : l.length = r.length)
    (hl : ∀ x ∈ l, x.toNat < 2 ^ b) (hr : ∀ x ∈ r, x.toNat < 2 ^ b)
    (h : value b l = value b r) : l = r := by
  induction l generalizing r with
  | nil => exact (List.length_eq_zero_iff.mp hlen.symm).symm
  | cons x l ih =>
    cases r with
    | nil => exact absurd hlen (Nat.succ_ne_zero _)
    | cons y r =>
      have hx : (x.toNat : Int) < 2 ^ b := by exact_mod_cast hl x List.mem_cons_self
      have hy : (y.toNat : Int) < 2 ^ b := by exact_mod_cast hr y List.mem_cons_self
      rw [value_cons, value_cons] at h
      have htail : value b l = value b r := by
        rcases lt_trichotomy (value b l) (value b r) with hlt | heq | hgt
        · nlinarith
        · exact heq
        · nlinarith
      have hhead : x = y := BitVec.eq_of_toNat_eq (by rw [htail] at h; omega)
      rw [hhead, ih (Nat.succ.inj hlen) (fun z hz => hl z (List.mem_cons_of_mem x hz))
        (fun z hz => hr z (List.mem_cons_of_mem y hz)) htail]

/-- no digit stands at the places that a small number does not reach -/
theorem digit_zero {l : List (BitVec w)} {m : Nat} (h : value b l < 2 ^ (b * m)) {j : Nat}
    (hj : m ≤ j) : l.getD j 0 = 0 := by
  induction l generalizing m j with
  | nil => rfl
  | cons x l ih =>
    have hl := value_nonneg (b := b) l
    have hx : (0 : Int) ≤ x.toNat := Int.natCast_nonneg _
    rw [value_cons] at h
    cases m with
    | zero =>
      rw [mul_zero, pow_zero] at h
      have hprod : (0 : Int) ≤ 2 ^ b * value b l := by positivity
      cases j with
      | zero => exact BitVec.eq_of_toNat_eq (show x.toNat = 0 by omega)
      | succ j =>
        refine ih (m := 0) (j := j) ?_ (Nat.zero_le _)
        rw [mul_zero, pow_zero]
        have hb : (1 : Int) ≤ 2 ^ b := one_le_pow₀ (by norm_num)
        nlinarith
    | succ m =>
      cases j with
      | zero => exact absurd hj (by omega)
      | succ j =>
        refine ih (m := m) (j := j) ?_ (by omega)
        rw [Nat.mul_succ, pow_add, mul_comm _ (2 ^ b)] at h
        have hb : (0 : Int) < 2 ^ b := by positivity
        nlinarith

/-- the entries of a row by their places -/
theorem weigh_places {α : Type} {g : α → Int} (d : α) (l : List α) :
    weigh b g l = weigh b (fun i => g (l.getD i d)) (List.range l.length) := by
  induction l with
  | nil => rfl
  | cons x l ih =>
    rw [List.length_cons, List.range_succ_eq_map, weigh_cons, weigh_cons, weigh_map, ih]
    rfl

/-- a sum of words that does not run over -/
theorem toNat_foldl_add {ι : Type} (f : ι → BitVec w) (l : List ι) (t : BitVec w)
    (h : t.toNat + (l.map fun j => (f j).toNat).sum < 2 ^ w) :
    (l.foldl (fun t j => t + f j) t).toNat = t.toNat + (l.map fun j => (f j).toNat).sum := by
  induction l generalizing t with
  | nil => rw [List.foldl_nil, List.map_nil, List.sum_nil, Nat.add_zero]
  | cons x l ih =>
    rw [List.map_cons, List.sum_cons] at h ⊢
    have hx : (t + f x).toNat = t.toNat + (f x).toNat := by
      rw [BitVec.toNat_add, Nat.mod_eq_of_lt (by omega)]
    rw [List.foldl_cons, ih (t + f x) (by rw [hx]; omega), hx]
    omega

end

end Lib.Limbs
