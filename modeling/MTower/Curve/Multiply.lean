import MTower.Curve.Modular

/-!
# Multiplication modulo the prime (`bn_multiply`)

The product is built in eighteen limbs; nine steps take it below twice the prime, each with a
multiple of the prime that is estimated from the two highest limbs.

* `num_bnMultiplyLong`   the product;
* `Reducing`             what holds before each step;
* `Reducing.step`        one step;
* `Rep.bnMultiply`       the whole multiplication; none of its assertions fails.
-/

set_option linter.unusedVariables false

namespace MTower.Curve
open Lib.Limbs

/-! ## the functions -/

/-- the values of `j` in the column `i` -/
def factors (i : Nat) : List Nat :=
  if i < 9 then List.range (i + 1) else List.range' (i - 8) (17 - i)

def column (k x : Bignum256) (i : Nat) : BitVec 64 :=
  (factors i).foldl (fun temp j => temp + (limb k j).setWidth 64 * (limb x (i - j)).setWidth 64) 0

/-- `res`: seventeen columns, and what is carried out of them -/
def bnMultiplyLong (k x : Bignum256) : List (BitVec 32) :=
  let r := sweep 30 0 ((List.range 17).map (column k x))
  r.1.map (BitVec.setWidth 32) ++ [r.2.setWidth 32]

def reduceCoef (res : List (BitVec 32)) (i : Nat) : BitVec 32 :=
  (limb res i >>> 16) + (limb res (i + 1) <<< 14)

/-- the limbs `i - 8` to `i + 1` after the step -/
def reducedWindow (res : List (BitVec 32)) (prime : Bignum256) (i : Nat) : List (BitVec 32) :=
  let coef := (reduceCoef res i).setWidth 64
  let r := sweep 30 0 (borrowedRow coef (((res.drop (i - 8)).take 9).zip prime))
  let temp := r.2 + (0x1FFFFFFF80000000#64 + (limb res (i + 1)).setWidth 64)
  r.1.map (BitVec.setWidth 32) ++ [(low 30 temp).setWidth 32]

def bnMultiplyReduceStep (prime : Bignum256) (res : List (BitVec 32)) (i : Nat) :
    Option (List (BitVec 32)) := do
  guard (reduceCoef res i < 0x80000000#32)
  return res.take (i - 8) ++ (reducedWindow res prime i ++ res.drop (i + 2))

/-- one round of `bn_multiply_reduce`, with the assertion behind it -/
def reduceRound (prime : Bignum256) (res : List (BitVec 32)) (i : Nat) :
    Option (List (BitVec 32)) := do
  let res ← bnMultiplyReduceStep prime res i
  guard (limb res (i + 1) = 0)
  return res

def bnMultiplyReduce (res : List (BitVec 32)) (prime : Bignum256) : Option Bignum256 := do
  let res ← (List.range' 8 9).reverse.foldlM (reduceRound prime) res
  return res.take 9

def bnMultiply (k x prime : Bignum256) : Option Bignum256 :=
  bnMultiplyReduce (bnMultiplyLong k x) prime

/-! ## the product -/

theorem limb_lt {l : List (BitVec 32)} (h : ∀ x ∈ l, x.toNat < 2 ^ 30) (i : Nat) :
    (limb l i).toNat < 2 ^ 30 := by
  unfold limb
  by_cases hi : i < l.length
  · rw [List.getD_eq_getElem _ _ hi]
    exact h _ (List.getElem_mem hi)
  · rw [List.getD_eq_default _ _ (by omega)]
    decide

theorem length_factors (i : Nat) : (factors i).length ≤ 9 := by
  unfold factors
  split
  · rw [List.length_range]
    omega
  · rw [List.length_range']
    omega

theorem sum_le_of_le {l : List Nat} {c : Nat} (h : ∀ x ∈ l, x ≤ c) : l.sum ≤ l.length * c := by
  rw [← smul_eq_mul]
  exact List.sum_le_card_nsmul l c h

theorem column_sum_lt {k x : Bignum256} (hk : Normal k) (hx : Normal x) (i : Nat) :
    ((factors i).map fun j => (limb k j).toNat * (limb x (i - j)).toNat).sum + 2 ^ 34 ≤ 2 ^ 64 := by
  have hterm : ∀ v ∈ (factors i).map fun j => (limb k j).toNat * (limb x (i - j)).toNat,
      v ≤ (2 ^ 30 - 1) * (2 ^ 30 - 1) := by
    intro v hv
    obtain ⟨j, _, rfl⟩ := List.mem_map.mp hv
    have h1 := limb_lt hk.digits j
    have h2 := limb_lt hx.digits (i - j)
    exact Nat.mul_le_mul (by omega) (by omega)
  have hsum := sum_le_of_le hterm
  rw [List.length_map] at hsum
  have hlen := Nat.mul_le_mul_right ((2 ^ 30 - 1) * (2 ^ 30 - 1)) (length_factors i)
  omega

theorem toNat_column {k x : Bignum256} (hk : Normal k) (hx : Normal x) (i : Nat) :
    (column k x i).toNat
      = ((factors i).map fun j => (limb k j).toNat * (limb x (i - j)).toNat).sum := by
  have hterm : ∀ j, ((limb k j).setWidth 64 * (limb x (i - j)).setWidth 64).toNat
      = (limb k j).toNat * (limb x (i - j)).toNat := by
    intro j
    have h1 := limb_lt hk.digits j
    have h2 := limb_lt hx.digits (i - j)
    have hmul : (limb k j).toNat * (limb x (i - j)).toNat ≤ (2 ^ 30 - 1) * (2 ^ 30 - 1) :=
      Nat.mul_le_mul (by omega) (by omega)
    rw [BitVec.toNat_mul, BitVec.toNat_setWidth, BitVec.toNat_setWidth,
      Nat.mod_eq_of_lt (show (limb k j).toNat < 2 ^ 64 by omega),
      Nat.mod_eq_of_lt (show (limb x (i - j)).toNat < 2 ^ 64 by omega), Nat.mod_eq_of_lt (by omega)]
  have hlt := column_sum_lt hk hx i
  have hfold := toNat_foldl_add
    (fun j => (limb k j).setWidth 64 * (limb x (i - j)).setWidth 64) (factors i) 0
  simp only [hterm] at hfold
  rw [column, hfold (by show 0 + _ < _; omega)]
  exact Nat.zero_add _

/-- the columns are the product -/
theorem columns_eq (b : Nat) (K X : Nat → Int) :
    weigh b (fun i => ((factors i).map fun j => K j * X (i - j)).sum) (List.range 17)
      = weigh b K (List.range 9) * weigh b X (List.range 9) := by
  have h17 : List.range 17 = [0, 1, 2, 3, 4, 5, 6, 7, 8, 9, 10, 11, 12, 13, 14, 15, 16] := rfl
  have h9 : List.range 9 = [0, 1, 2, 3, 4, 5, 6, 7, 8] := rfl
  rw [h17, h9]
  simp [factors, List.range_succ, List.range'_succ]
  ring

theorem roomy_columns {k x : Bignum256} (hk : Normal k) (hx : Normal x) :
    ∀ v ∈ (List.range 17).map (column k x), Roomy 30 v := by
  intro v hv
  obtain ⟨i, _, rfl⟩ := List.mem_map.mp hv
  show (column k x i).toNat + 2 ^ 34 ≤ 2 ^ 64
  rw [toNat_column hk hx]
  exact column_sum_lt hk hx i

theorem value_columns {k x : Bignum256} (hk : Normal k) (hx : Normal x) :
    value 30 ((List.range 17).map (column k x)) = num k * num x := by
  have hterm : ∀ i ∈ List.range 17, ((column k x i).toNat : Int)
      = ((factors i).map fun j => ((limb k j).toNat : Int) * (limb x (i - j)).toNat).sum := by
    intro i _
    rw [toNat_column hk hx, Nat.cast_list_sum, List.map_map]
    congr 1
  rw [value, weigh_map, weigh_congr hterm,
    columns_eq 30 (fun j => ((limb k j).toNat : Int)) (fun j => ((limb x j).toNat : Int)),
    num, num, value, value, weigh_places 0 k, weigh_places 0 x, hk.length, hx.length]
  rfl

theorem num_bnMultiplyLong {k x : Bignum256} (hk : Normal k) (hx : Normal x) :
    num (bnMultiplyLong k x) = num k * num x ∧ (bnMultiplyLong k x).length = 18 ∧
      ∀ v ∈ bnMultiplyLong k x, v.toNat < 2 ^ 30 := by
  have hval := sweep_value (w := 64) (b := 30) (by norm_num) (t := 0) (by decide)
    (roomy_columns hk hx)
  have hlt := sweep_lt (w := 64) (b := 30) (by norm_num) 0 ((List.range 17).map (column k x))
  have hlen : (sweep 30 0 ((List.range 17).map (column k x))).1.length = 17 := by
    rw [length_sweep, List.length_map, List.length_range]
  have hpos : 0 ≤ value 30 (sweep 30 0 ((List.range 17).map (column k x))).1 := value_nonneg _
  rw [value_columns hk hx, List.length_map, List.length_range,
    show ((0 : BitVec 64).toNat : Int) = 0 from rfl, zero_add] at hval
  -- the carry out of the last column is a digit
  have htop : (sweep 30 0 ((List.range 17).map (column k x))).2.toNat < 2 ^ 30 := by
    have hklt := hk.lt
    have hxlt := hx.lt
    have hprod : num k * num x < 2 ^ 270 * 2 ^ 270 :=
      mul_lt_mul'' hklt hxlt (num_nonneg k) (num_nonneg x)
    have hpow : (2 : Int) ^ 270 * 2 ^ 270 = 2 ^ (30 * 17) * 2 ^ 30 := by
      rw [← pow_add, ← pow_add]
    rw [hpow] at hprod
    have hcarry : (2 : Int) ^ (30 * 17)
        * (sweep 30 0 ((List.range 17).map (column k x))).2.toNat < 2 ^ (30 * 17) * 2 ^ 30 :=
      ((le_add_of_nonneg_left hpos).trans_eq hval).trans_lt hprod
    exact_mod_cast lt_of_mul_lt_mul_left hcarry (by positivity)
  have hset : ((sweep 30 0 ((List.range 17).map (column k x))).2.setWidth 32).toNat
      = (sweep 30 0 ((List.range 17).map (column k x))).2.toNat := by
    rw [BitVec.toNat_setWidth, Nat.mod_eq_of_lt (by omega)]
  refine ⟨?_, ?_, ?_⟩
  · have happ := weigh_append (b := 30) (g := fun v : BitVec 32 => (v.toNat : Int))
      ((sweep 30 0 ((List.range 17).map (column k x))).1.map (BitVec.setWidth 32))
      [(sweep 30 0 ((List.range 17).map (column k x))).2.setWidth 32]
    rw [List.length_map, hlen, weigh_cons, weigh_nil, mul_zero, add_zero, hset] at happ
    have hlow := value_setWidth hlt
    rw [num, value] at hlow
    rw [bnMultiplyLong, num, value, happ, hlow]
    exact hval
  · rw [bnMultiplyLong, List.length_append, List.length_map, hlen]
    rfl
  · intro v hv
    rw [bnMultiplyLong, List.mem_append, List.mem_singleton] at hv
    cases hv with
    | inl h => exact digits_setWidth hlt v h
    | inr h =>
      rw [h, hset]
      exact htop

/-! ## the steps of the reduction -/

/-- what holds before the step `i = k + 8` -/
structure Reducing (p : Modulus) (v : ZMod p.n) (k : Nat) (res : List (BitVec 32)) : Prop where
  length : res.length = 18
  digits : ∀ x ∈ res, x.toNat < 2 ^ 30
  lt : num res < 2 ^ (30 * k) * (2 * p.n)
  eq : ((num res : Int) : ZMod p.n) = v

/-- a row in three pieces -/
theorem num_pieces (l : List (BitVec 32)) (k m : Nat) (hk : k + m ≤ l.length) :
    num l = num (l.take k) + 2 ^ (30 * k) * (num ((l.drop k).take m)
      + 2 ^ (30 * m) * num (l.drop (k + m))) := by
  have h1 := weigh_append (b := 30) (g := fun v : BitVec 32 => (v.toNat : Int)) (l.take k) (l.drop k)
  have h2 := weigh_append (b := 30) (g := fun v : BitVec 32 => (v.toNat : Int))
    ((l.drop k).take m) ((l.drop k).drop m)
  rw [List.take_append_drop, List.length_take, Nat.min_eq_left (by omega)] at h1
  rw [List.take_append_drop, List.length_take, List.length_drop, List.drop_drop,
    Nat.min_eq_left (by omega)] at h2
  rw [num, value, h1, h2]
  rfl

/-- the coefficient that the two highest limbs give, and what is left -/
theorem coef_window {W : Int} {low8 : Int} {a c : Nat} {n : Int}
    (hW : W = low8 + 2 ^ 240 * (a + 2 ^ 30 * c)) (h0 : 0 ≤ low8) (h8 : low8 < 2 ^ 240)
    (ha : a < 2 ^ 30) (hc : c < 2 ^ 17)
    (hlo : 2 ^ 256 - 2 ^ 224 ≤ n) (hup : n < 2 ^ 256) :
    0 ≤ W - ((a / 2 ^ 16 + c * 2 ^ 14 : Nat) : Int) * n ∧
      W - ((a / 2 ^ 16 + c * 2 ^ 14 : Nat) : Int) * n < 2 * n := by
  have hsplit := Nat.div_add_mod a (2 ^ 16)
  have hrem := Nat.mod_lt a (show 0 < 2 ^ 16 by norm_num)
  have hcoef : a / 2 ^ 16 + c * 2 ^ 14 < 2 ^ 31 := by omega
  have hprod : 0 ≤ ((a / 2 ^ 16 + c * 2 ^ 14 : Nat) : Int) * (2 ^ 256 - n) :=
    mul_nonneg (Int.natCast_nonneg _) (by omega)
  have hprod2 : ((a / 2 ^ 16 + c * 2 ^ 14 : Nat) : Int) * (2 ^ 256 - n) ≤ 2 ^ 31 * 2 ^ 224 :=
    mul_le_mul (by omega) (by omega) (by omega) (by norm_num)
  have hval : W - ((a / 2 ^ 16 + c * 2 ^ 14 : Nat) : Int) * n = low8 + 2 ^ 240 * (a % 2 ^ 16 : Nat)
      + ((a / 2 ^ 16 + c * 2 ^ 14 : Nat) : Int) * (2 ^ 256 - n) := by
    have hcast : (a : Int) = 2 ^ 16 * (a / 2 ^ 16 : Nat) + (a % 2 ^ 16 : Nat) := by omega
    rw [hW, hcast]
    push_cast
    ring
  rw [hval]
  constructor <;> omega

theorem limb_drop (l : List (BitVec 32)) (k i : Nat) : limb (l.drop k) i = limb l (k + i) := by
  unfold limb
  rw [List.getD_eq_getElem?_getD, List.getD_eq_getElem?_getD, List.getElem?_drop]

/-- the last limb of a window -/
theorem take_succ_limb (l : List (BitVec 32)) (m : Nat) (h : m < l.length) :
    l.take (m + 1) = l.take m ++ [limb l m] := by
  rw [List.take_succ_eq_append_getElem h, limb, List.getD_eq_getElem _ _ h]

theorem num_append_one (l : List (BitVec 32)) (x : BitVec 32) :
    num (l ++ [x]) = num l + 2 ^ (30 * l.length) * x.toNat := by
  have h := weigh_append (b := 30) (g := fun v : BitVec 32 => (v.toNat : Int)) l [x]
  rw [weigh_cons, weigh_nil, mul_zero, add_zero] at h
  exact h

theorem borrowedRow_append (coef : BitVec 64) (l : List (BitVec 32 × BitVec 32)) (hne : l ≠ [])
    (q : BitVec 32 × BitVec 32) : borrowedRow coef (l ++ [q])
      = borrowedRow coef l ++ [borrowed 0x1FFFFFFF80000000#64 coef q] := by
  cases l with
  | nil => exact absurd rfl hne
  | cons r l => rw [List.cons_append, borrowedRow, borrowedRow, List.map_append]; rfl

section
variable {p : Modulus} {res : List (BitVec 32)} {k : Nat}

/-- the ten limbs that the step with `i = k + 8` works on -/
def window (res : List (BitVec 32)) (k : Nat) : List (BitVec 32) := (res.drop k).take 10

theorem window_eq (hlen : res.length = 18) (hk : k ≤ 8) :
    window res k = (res.drop k).take 9 ++ [limb res (k + 9)] := by
  rw [window, take_succ_limb _ _ (by rw [List.length_drop]; omega), limb_drop]

theorem num_window (hlen : res.length = 18) (hk : k ≤ 8) :
    num (window res k) = num ((res.drop k).take 8)
      + 2 ^ 240 * ((limb res (k + 8)).toNat + 2 ^ 30 * (limb res (k + 9)).toNat) := by
  have h8 : ((res.drop k).take 8).length = 8 := by
    rw [List.length_take, List.length_drop]
    omega
  have h9 : ((res.drop k).take 8 ++ [limb res (k + 8)]).length = 9 := by
    rw [List.length_append, h8]
    rfl
  rw [window_eq hlen hk, take_succ_limb _ _ (by rw [List.length_drop]; omega), limb_drop,
    num_append_one, num_append_one, h8, h9]
  show _ + (2 : Int) ^ 240 * _ + 2 ^ (240 + 30) * _ = _
  rw [pow_add]
  ring

/-- the step is one pass over the window -/
theorem reducedWindow_eq (hlen : res.length = 18) (hk : k ≤ 8) :
    reducedWindow res p.prime (k + 8) = (sweep 30 0 (borrowedRow
      ((reduceCoef res (k + 8)).setWidth 64) ((window res k).zip (p.prime ++ [0])))).1.map
        (BitVec.setWidth 32) := by
  have h9 : ((res.drop k).take 9).length = p.prime.length := by
    rw [List.length_take, List.length_drop, p.normal.length]
    omega
  have hne : ((res.drop k).take 9).zip p.prime ≠ [] := by
    intro h
    have hz : (((res.drop k).take 9).zip p.prime).length = 9 := by
      rw [List.length_zip, h9, p.normal.length]
      rfl
    rw [h] at hz
    exact absurd hz (by decide)
  have hlast : borrowed 0x1FFFFFFF80000000#64 ((reduceCoef res (k + 8)).setWidth 64)
      (limb res (k + 9), 0) = 0x1FFFFFFF80000000#64 + (limb res (k + 9)).setWidth 64 := by
    have hzero : (0 : BitVec 32).setWidth 64 * (reduceCoef res (k + 8)).setWidth 64 = 0 := by
      have h0 : (0 : BitVec 32).setWidth 64 = 0 := by decide
      rw [h0]
      exact BitVec.zero_mul
    rw [borrowed, hzero]
    exact BitVec.sub_zero _
  rw [window_eq hlen hk, List.zip_append h9]
  show _ = (sweep 30 0 (borrowedRow _
    (((res.drop k).take 9).zip p.prime ++ [(limb res (k + 9), 0)]))).1.map _
  rw [borrowedRow_append _ _ hne, hlast, sweep_append, List.map_append]
  rfl

theorem reduceCoef_toNat (hc : (limb res (k + 9)).toNat < 2 ^ 17)
    (ha : (limb res (k + 8)).toNat < 2 ^ 30) : (reduceCoef res (k + 8)).toNat
      = (limb res (k + 8)).toNat / 2 ^ 16 + (limb res (k + 9)).toNat * 2 ^ 14 := by
  rw [reduceCoef, BitVec.toNat_add, BitVec.toNat_ushiftRight, BitVec.toNat_shiftLeft,
    Nat.shiftRight_eq_div_pow, Nat.shiftLeft_eq, show k + 8 + 1 = k + 9 from rfl]
  omega

theorem length_window (hlen : res.length = 18) (hk : k ≤ 8) : (window res k).length = 10 := by
  rw [window, List.length_take, List.length_drop, hlen]
  omega

/-- the prime in ten limbs -/
theorem length_padded (p : Modulus) : (p.prime ++ [(0 : BitVec 32)]).length = 10 := by
  rw [List.length_append, p.normal.length]
  rfl

theorem digits_padded (p : Modulus) : ∀ x ∈ p.prime ++ [(0 : BitVec 32)], x.toNat < 2 ^ 30 := by
  intro x hx
  rw [List.mem_append, List.mem_singleton] at hx
  cases hx with
  | inl h => exact p.normal.digits _ h
  | inr h =>
    rw [h]
    decide

theorem num_padded (p : Modulus) : num (p.prime ++ [(0 : BitVec 32)]) = p.n := by
  rw [num_append_one, show ((0 : BitVec 32).toNat : Int) = 0 from rfl, mul_zero, add_zero,
    p.num_eq]

/-- what one step does to the window -/
theorem num_reducedWindow (hlen : res.length = 18) (hd : ∀ x ∈ res, x.toNat < 2 ^ 30) (hk : k ≤ 8)
    (hW : num (window res k) < 2 ^ 30 * (2 * p.n)) :
    (reduceCoef res (k + 8)).toNat < 2 ^ 31 ∧
      0 ≤ num (reducedWindow res p.prime (k + 8)) ∧
      num (reducedWindow res p.prime (k + 8)) < 2 * p.n ∧
      num (reducedWindow res p.prime (k + 8))
        = num (window res k) - (reduceCoef res (k + 8)).toNat * p.n := by
  have hup := p.upper_int
  have hnum := num_window hlen hk
  have hlow0 := num_nonneg ((res.drop k).take 8)
  have hlow : num ((res.drop k).take 8) < 2 ^ 240 := by
    have h := value_lt (b := 30) (l := (res.drop k).take 8) fun x hx =>
      hd x (List.mem_of_mem_drop (List.mem_of_mem_take hx))
    rwa [List.length_take, List.length_drop, hlen, Nat.min_eq_left (by omega)] at h
  have hc : (limb res (k + 9)).toNat < 2 ^ 17 := by omega
  have ha := limb_lt hd (k + 8)
  have hcoef := reduceCoef_toNat hc ha
  have hsmall : (reduceCoef res (k + 8)).toNat < 2 ^ 31 := by omega
  have hb := coef_window (a := (limb res (k + 8)).toNat) (c := (limb res (k + 9)).toNat) hnum hlow0
    hlow ha hc p.lower_int hup
  rw [← hcoef] at hb
  have hwlen : (window res k).length = (p.prime ++ [(0 : BitVec 32)]).length :=
    (length_window hlen hk).trans (length_padded p).symm
  have hzip : ((window res k).zip (p.prime ++ [0])).length = 10 := by
    rw [List.length_zip, hwlen, length_padded]
    rfl
  have hne : (window res k).zip (p.prime ++ [0]) ≠ [] := by
    intro h
    rw [h] at hzip
    exact absurd hzip (by decide)
  have hset : ((reduceCoef res (k + 8)).setWidth 64).toNat = (reduceCoef res (k + 8)).toNat := by
    rw [BitVec.toNat_setWidth, Nat.mod_eq_of_lt (by omega)]
  have hprime : weigh 30 (fun v : BitVec 32 => (v.toNat : Int)) (p.prime ++ [0]) = p.n :=
    num_padded p
  have hsmall64 : ((reduceCoef res (k + 8)).setWidth 64).toNat < 2 ^ 31 := by
    rw [hset]
    exact hsmall
  have hsweep := sweep_borrowedRow hsmall64 hne
    (V := num (window res k) - (reduceCoef res (k + 8)).toNat * p.n)
    (fun q hq => digits_padded p q.2 (List.of_mem_zip hq).2)
    (by
      rw [weigh_zip_left (g := fun v : BitVec 32 => (v.toNat : Int)) hwlen,
        weigh_zip_right (g := fun v : BitVec 32 => (v.toNat : Int)) hwlen, hset, hprime]
      rfl) hb.1
    (by
      rw [hzip, show 30 * 10 = 256 + 44 from rfl, pow_add]
      omega)
  rw [reducedWindow_eq hlen hk, hsweep]
  exact ⟨hsmall, hb.1, hb.2, rfl⟩

theorem length_reducedWindow (hlen : res.length = 18) (hk : k ≤ 8) :
    (reducedWindow res p.prime (k + 8)).length = 10 := by
  rw [reducedWindow_eq hlen hk, List.length_map, length_sweep, length_borrowedRow, List.length_zip,
    length_window hlen hk, length_padded]
  rfl

theorem digits_reducedWindow (hlen : res.length = 18) (hk : k ≤ 8) :
    ∀ x ∈ reducedWindow res p.prime (k + 8), x.toNat < 2 ^ 30 := by
  rw [reducedWindow_eq hlen hk]
  exact digits_setWidth (sweep_lt (by norm_num) _ _)

theorem num_append (l r : List (BitVec 32)) : num (l ++ r) = num l + 2 ^ (30 * l.length) * num r :=
  weigh_append l r

/-- **One step.**  The assertions of the step and behind it hold. -/
theorem Reducing.step {v : ZMod p.n} (h : Reducing p v (k + 1) res) (hk : k ≤ 8) :
    ∃ res', reduceRound p.prime res (k + 8) = some res' ∧ Reducing p v k res' := by
  have hup := p.upper_int
  have hpieces : num res = num (res.take k) + 2 ^ (30 * k) * (num (window res k)
      + 2 ^ (30 * 10) * num (res.drop (k + 10))) := num_pieces res k 10 (by rw [h.length]; omega)
  have hT : (0 : Int) < 2 ^ (30 * k) := by positivity
  have hA0 := num_nonneg (res.take k)
  have hA : num (res.take k) < 2 ^ (30 * k) := by
    have hlt := value_lt (b := 30) (l := res.take k) fun x hx => h.digits x (List.mem_of_mem_take hx)
    rwa [List.length_take, h.length, Nat.min_eq_left (by omega)] at hlt
  have hW0 := num_nonneg (window res k)
  have hH0 := num_nonneg (res.drop (k + 10))
  have hlt := h.lt
  rw [Nat.mul_succ, pow_add, mul_assoc, hpieces] at hlt
  have hinner : num (window res k) + 2 ^ (30 * 10) * num (res.drop (k + 10)) < 2 ^ 30 * (2 * p.n) :=
    lt_of_mul_lt_mul_left (lt_of_le_of_lt (le_add_of_nonneg_left hA0) hlt) hT.le
  rw [show 30 * 10 = 256 + 44 from rfl, pow_add] at hinner hpieces
  -- nothing stands above the window
  have hH : num (res.drop (k + 10)) = 0 := by omega
  rw [hH, mul_zero, add_zero] at hinner hpieces
  obtain ⟨hsmall, h0, h1, hnum⟩ := num_reducedWindow h.length h.digits hk hinner
  have hrest : num (res.take k ++ (reducedWindow res p.prime (k + 8) ++ res.drop (k + 10)))
      = num (res.take k) + 2 ^ (30 * k) * num (reducedWindow res p.prime (k + 8)) := by
    rw [num_append, num_append, hH, mul_zero, add_zero, List.length_take, h.length,
      Nat.min_eq_left (by omega)]
  have hstep : bnMultiplyReduceStep p.prime res (k + 8)
      = some (res.take k ++ (reducedWindow res p.prime (k + 8) ++ res.drop (k + 10))) := by
    have hguard : reduceCoef res (k + 8) < 0x80000000#32 := BitVec.lt_def.mpr hsmall
    rw [bnMultiplyReduceStep, guard, if_pos hguard]
    rfl
  have hnew : num (res.take k ++ (reducedWindow res p.prime (k + 8) ++ res.drop (k + 10)))
      < 2 ^ (30 * k) * (2 * p.n) := by
    rw [hrest]
    nlinarith
  have hzero : limb (res.take k ++ (reducedWindow res p.prime (k + 8) ++ res.drop (k + 10)))
      (k + 8 + 1) = 0 := by
    apply digit_zero (b := 30) (m := k + 9) _ (by omega)
    refine lt_of_lt_of_le hnew ?_
    rw [Nat.mul_add, pow_add]
    apply mul_le_mul_of_nonneg_left _ hT.le
    rw [show 30 * 9 = 256 + 14 from rfl, pow_add]
    omega
  refine ⟨_, ?_, ?_, ?_, hnew, ?_⟩
  · rw [reduceRound, hstep]
    show (guard (limb _ (k + 8 + 1) = 0) >>= fun _ => some _) = _
    rw [guard, if_pos hzero]
    rfl
  · rw [List.length_append, List.length_append, List.length_take, List.length_drop,
      length_reducedWindow h.length hk, h.length]
    omega
  · intro x hx
    rw [List.mem_append, List.mem_append] at hx
    rcases hx with hx | hx | hx
    · exact h.digits x (List.mem_of_mem_take hx)
    · exact digits_reducedWindow h.length hk x hx
    · exact h.digits x (List.mem_of_mem_drop hx)
  · have hsub : num (res.take k ++ (reducedWindow res p.prime (k + 8) ++ res.drop (k + 10)))
        = num res - 2 ^ (30 * k) * (reduceCoef res (k + 8)).toNat * p.n := by
      rw [hrest, hnum, hpieces]
      ring
    rw [hsub, cast_sub_mul, h.eq]

/-- the nine rounds -/
theorem Reducing.rounds {v : ZMod p.n} {n : Nat} (hn : n ≤ 9) (h : Reducing p v n res) :
    ∃ res', (List.range' 8 n).reverse.foldlM (reduceRound p.prime) res = some res' ∧
      Reducing p v 0 res' := by
  induction n generalizing res with
  | zero => exact ⟨res, rfl, h⟩
  | succ n ih =>
    obtain ⟨res1, hround, hres1⟩ := h.step (by omega)
    obtain ⟨res2, hrest, hres2⟩ := ih (by omega) hres1
    refine ⟨res2, ?_, hres2⟩
    rw [List.range'_1_concat, List.reverse_append, List.reverse_singleton, List.singleton_append,
      List.foldlM_cons, Nat.add_comm 8 n, hround]
    exact hrest

/-- after the last round the number stands in nine limbs -/
theorem Reducing.last {v : ZMod p.n} (h : Reducing p v 0 res) : Rep p 2 (res.take 9) v := by
  have hup := p.upper_int
  have hpieces := num_pieces res 0 9 (by rw [h.length]; omega)
  have hlt := h.lt
  rw [List.take_zero, List.drop_zero, Nat.mul_zero, pow_zero, one_mul,
    show num ([] : List (BitVec 32)) = 0 from rfl, zero_add] at hpieces
  rw [Nat.mul_zero, pow_zero, one_mul] at hlt
  rw [show 30 * 9 = 256 + 14 from rfl, pow_add] at hpieces
  have h0 := num_nonneg (res.take 9)
  have h1 := num_nonneg (res.drop (0 + 9))
  have hzero : num (res.drop (0 + 9)) = 0 := by omega
  rw [hzero, mul_zero, add_zero] at hpieces
  refine ⟨⟨?_, fun x hx => h.digits x (List.mem_of_mem_take hx)⟩, ?_, ?_⟩
  · rw [List.length_take, h.length]
    rfl
  · rw [← hpieces]
    exact_mod_cast hlt
  · rw [← hpieces]
    exact h.eq

end

/-- **Multiplication of two numbers below 180 times the prime.** -/
theorem Rep.bnMultiply {p : Modulus} {a b : Nat} {k x : Bignum256} {u v : ZMod p.n}
    (hk : Rep p a k u) (hx : Rep p b x v) (ha : a ≤ 180) (hb : b ≤ 180) :
    ∃ y, bnMultiply k x p.prime = some y ∧ Rep p 2 y (u * v) := by
  have hup := p.upper_int
  have hpos := p.pos
  obtain ⟨hnum, hlen, hdigits⟩ := num_bnMultiplyLong hk.normal hx.normal
  have hk180 : num k < 180 * p.n :=
    lt_of_lt_of_le hk.lt (mul_le_mul_of_nonneg_right (by exact_mod_cast ha) hpos.le)
  have hx180 : num x < 180 * p.n :=
    lt_of_lt_of_le hx.lt (mul_le_mul_of_nonneg_right (by exact_mod_cast hb) hpos.le)
  have hprod : num k * num x < 180 * p.n * (180 * p.n) :=
    mul_lt_mul'' hk180 hx180 (num_nonneg k) (num_nonneg x)
  have hstart : Reducing p (u * v) 9 (bnMultiplyLong k x) := by
    refine ⟨hlen, hdigits, ?_, ?_⟩
    · rw [hnum, show 30 * 9 = 256 + 14 from rfl, pow_add]
      nlinarith
    · rw [hnum]
      push_cast
      rw [hk.eq, hx.eq]
  obtain ⟨res, hrounds, hres⟩ := hstart.rounds (le_refl 9)
  refine ⟨res.take 9, ?_, hres.last⟩
  rw [MTower.Curve.bnMultiply, bnMultiplyReduce, hrounds]
  rfl

/-- **Multiplication and full reduction.**  No assertion fails on the way. -/
theorem bnMultiply_mod {p : Modulus} {k x : Bignum256} (hk : Normal k) (hx : Normal x)
    (hk180 : num k < 180 * p.n) (hx180 : num x < 180 * p.n) :
    ∃ y, bnMultiply k x p.prime = some y ∧ Normal y ∧ num y < 2 * p.n ∧
      num (bnMod y p.prime) = num k * num x % p.n := by
  have rk : Rep p 180 k ((num k : Int) : ZMod p.n) := ⟨hk, hk180, rfl⟩
  have rx : Rep p 180 x ((num x : Int) : ZMod p.n) := ⟨hx, hx180, rfl⟩
  obtain ⟨y, hy, ry⟩ := rk.bnMultiply rx (le_refl 180) (le_refl 180)
  refine ⟨y, hy, ry.normal, ry.lt, ?_⟩
  rw [num_bnMod ry, ← Int.cast_mul, ZMod.val_intCast]

/-- the field prime of `secp256k1.c` -/
def secp256k1Prime : Bignum256 :=
  [0x3ffffc2f, 0x3ffffffb, 0x3fffffff, 0x3fffffff, 0x3fffffff, 0x3fffffff, 0x3fffffff, 0x3fffffff,
    0xffff]

def secp256k1Modulus : Modulus where
  prime := secp256k1Prime
  n := 2 ^ 256 - 2 ^ 32 - 977
  normal := ⟨rfl, by simp [secp256k1Prime]⟩
  num_eq := by decide
  odd := by decide
  lower := by decide
  upper := by decide

/-- the first coordinate of the generator in `secp256k1.c` -/
def secp256k1GX : Bignum256 :=
  [0x16f81798, 0x27ca056c, 0x1ce28d95, 0x26ff36cb, 0x70b0702, 0x18a573a, 0xbbac55a, 0x199fbe77,
    0x79be]

theorem normal_secp256k1GX : Normal secp256k1GX := ⟨rfl, by simp [secp256k1GX]⟩

theorem num_secp256k1GX : num secp256k1GX < 180 * secp256k1Modulus.n := by
  simp [num, value, secp256k1GX, secp256k1Modulus]

theorem bnMultiply_mod_sample : ∃ y,
    bnMultiply secp256k1GX secp256k1GX secp256k1Modulus.prime = some y ∧ Normal y ∧
      num y < 2 * secp256k1Modulus.n ∧
      num (bnMod y secp256k1Modulus.prime)
        = num secp256k1GX * num secp256k1GX % secp256k1Modulus.n :=
  bnMultiply_mod normal_secp256k1GX normal_secp256k1GX num_secp256k1GX num_secp256k1GX

end MTower.Curve
