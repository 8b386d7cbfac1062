import MTower.Lib.Limbs

/-!
# Big numbers of the wallet (`crypto/bignum.c`)

A `bignum256` is a row of nine words, each a digit of base `2 ^ 30`.  `num` is the number it stands
for, `Normal` says that every digit is below `2 ^ 30`.  The loops that carry from digit to digit are
passes of `sweep`.

* `num_bnAdd`, `num_bnSubtract`, `num_bnSubtractmod`   sums and differences;
* `bnIsLess_iff`, `bnIsEqual_iff`, `bnIsZero_iff`      comparison;
* `bnCmov_eq`                                          the conditional move.
-/

set_option linter.unusedVariables false

namespace MTower.Curve
open Lib.Limbs

/-! ## the functions -/

/-- `val` -/
abbrev Bignum256 := List (BitVec 32)

def limb (a : Bignum256) (i : Nat) : BitVec 32 := a.getD i 0

def bnZero : Bignum256 := List.replicate 9 0

def bnIsZero (a : Bignum256) : Bool := a.foldl (· ||| ·) 0 == 0

def bit (c : Bool) : BitVec 32 := if c then 1 else 0

/-- one limb of `bn_is_less` -/
def score (q : BitVec 32 × BitVec 32) (res : BitVec 32 × BitVec 32) : BitVec 32 × BitVec 32 :=
  ((res.1 <<< 1) ||| bit (q.1 < q.2), (res.2 <<< 1) ||| bit (q.2 < q.1))

def bnIsLess (a b : Bignum256) : Bool :=
  -- from limb 8 down
  let res := (a.zip b).foldr score (0, 0)
  res.2 < res.1

def bnIsEqual (a b : Bignum256) : Bool := (List.zipWith (· ^^^ ·) a b).foldl (· ||| ·) 0 == 0

def bnCmov (cond : Bool) (truecase falsecase : Bignum256) : Bignum256 :=
  let tmask := -bit cond
  let fmask := ~~~tmask
  List.zipWith (fun t f => (t &&& tmask) ||| (f &&& fmask)) truecase falsecase

def bnLshift (a : Bignum256) : Bignum256 :=
  List.zipWith (fun x below : BitVec 32 =>
    ((x <<< 1) &&& 0x3FFFFFFF#32) ||| ((below &&& 0x20000000#32) >>> 29)) a (0 :: a)

/-- the loop of `bn_mult_half`, over the sums `tmp2` -/
def multHalfLoop : BitVec 32 → List (BitVec 32) → Bignum256
  | tmp1, [] => [tmp1]
  | tmp1, tmp2 :: l =>
    let tmp := tmp1 + ((tmp2 &&& 1) <<< 29)
    low 30 tmp :: multHalfLoop ((tmp >>> 30) + (tmp2 >>> 1)) l

def bnMultHalf (x prime : Bignum256) : Bignum256 :=
  let xodd := -(limb x 0 &&& 1)
  let sums := List.zipWith (fun a p => a + (p &&& xodd)) x prime
  multHalfLoop (limb sums 0 >>> 1) sums.tail

def bnAdd (a b : Bignum256) : Bignum256 := (sweep 30 0 (List.zipWith (· + ·) a b)).1

def bnSubtract (a b : Bignum256) : Bignum256 :=
  (sweep 30 1 (List.zipWith (fun x y => 0x3FFFFFFF#32 + x - y) a b)).1

def bnSubtractmod (a b prime : Bignum256) : Bignum256 :=
  (sweep 30 1 ((a.zip (prime.zip b)).map fun q => 0x3FFFFFFF#32 + q.1 + 2 * q.2.1 - q.2.2)).1

/-- one limb of a subtraction of `coef * prime`, with the constant that keeps it positive -/
def borrowed (c coef : BitVec 64) (q : BitVec 32 × BitVec 32) : BitVec 64 :=
  c + q.1.setWidth 64 - q.2.setWidth 64 * coef

/-- `0x20...` for the first limb, `0x1F...` for the others -/
def borrowedRow (coef : BitVec 64) : List (BitVec 32 × BitVec 32) → List (BitVec 64)
  | [] => []
  | q :: l => borrowed 0x2000000000000000#64 coef q :: l.map (borrowed 0x1FFFFFFF80000000#64 coef)

def bnFastMod (x prime : Bignum256) : Bignum256 :=
  let coef := (limb x 8 >>> 16).setWidth 64
  (sweep 30 0 (borrowedRow coef (x.zip prime))).1.map (BitVec.setWidth 32)

def bnAddmod (a b prime : Bignum256) : Bignum256 := bnFastMod (List.zipWith (· + ·) a b) prime

def bnMultK (x : Bignum256) (k : BitVec 8) (prime : Bignum256) : Bignum256 :=
  bnFastMod (x.map fun v => k.setWidth 32 * v) prime

def bnMod (x prime : Bignum256) : Bignum256 := bnCmov (bnIsLess x prime) x (bnSubtract x prime)

/-! ## the number -/

def num (a : Bignum256) : Int := value 30 a

/-- every digit below `2 ^ 30` -/
structure Normal (a : Bignum256) : Prop where
  length : a.length = 9
  digits : ∀ x ∈ a, x.toNat < 2 ^ 30

theorem num_nonneg (a : Bignum256) : 0 ≤ num a := value_nonneg a

theorem Normal.lt {a : Bignum256} (h : Normal a) : num a < 2 ^ 270 := by
  have hlt := value_lt h.digits
  rwa [h.length] at hlt

/-- a pass over nine words gives a normal number -/
theorem normal_sweep {t : BitVec 32} {l : List (BitVec 32)} (h : l.length = 9) :
    Normal (sweep 30 t l).1 :=
  ⟨by rw [length_sweep, h], sweep_lt (by norm_num) t l⟩

/-! ## sums and differences -/

theorem Normal.of_zip {a b : Bignum256} (ha : Normal a) (hb : Normal b)
    {q : BitVec 32 × BitVec 32} (hq : q ∈ a.zip b) : q.1.toNat < 2 ^ 30 ∧ q.2.toNat < 2 ^ 30 :=
  ⟨ha.digits _ (List.of_mem_zip hq).1, hb.digits _ (List.of_mem_zip hq).2⟩

/-- the number of the digits that a measure takes from two numbers -/
theorem weigh_left {a b : Bignum256} (ha : Normal a) (hb : Normal b) :
    weigh 30 (fun q : BitVec 32 × BitVec 32 => (q.1.toNat : Int)) (a.zip b) = num a :=
  weigh_zip_left (g := fun x : BitVec 32 => (x.toNat : Int)) (ha.length.trans hb.length.symm)

theorem weigh_right {a b : Bignum256} (ha : Normal a) (hb : Normal b) :
    weigh 30 (fun q : BitVec 32 × BitVec 32 => (q.2.toNat : Int)) (a.zip b) = num b :=
  weigh_zip_right (g := fun x : BitVec 32 => (x.toNat : Int)) (ha.length.trans hb.length.symm)

/-- limbs added without a carry -/
theorem num_sum {a b : Bignum256} (ha : Normal a) (hb : Normal b) :
    num (List.zipWith (· + ·) a b) = num a + num b := by
  have hterm : ∀ q ∈ a.zip b, (((q.1 + q.2).toNat : Nat) : Int) = q.1.toNat + q.2.toNat := by
    intro q hq
    have hlt := ha.of_zip hb hq
    rw [BitVec.toNat_add, Nat.mod_eq_of_lt (by omega)]
    push_cast
    rfl
  rw [num, value, weigh_zipWith, weigh_congr hterm, weigh_add, weigh_left ha hb, weigh_right ha hb]

theorem num_bnAdd {a b : Bignum256} (ha : Normal a) (hb : Normal b)
    (h : num a + num b < 2 ^ 270) : num (bnAdd a b) = num a + num b := by
  have hroom : ∀ x ∈ List.zipWith (· + ·) a b, Roomy 30 x := by
    intro x hx
    rw [← List.map_uncurry_zip_eq_zipWith] at hx
    obtain ⟨q, hq, rfl⟩ := List.mem_map.mp hx
    have hlt := ha.of_zip hb hq
    show (q.1 + q.2).toNat + 2 ^ 2 ≤ 2 ^ 32
    rw [BitVec.toNat_add, Nat.mod_eq_of_lt (by omega)]
    omega
  have hlen : (List.zipWith (· + ·) a b).length = 9 := by
    rw [List.length_zipWith, ha.length, hb.length]
    rfl
  have hsum : value 30 (List.zipWith (· + ·) a b) = num a + num b := num_sum ha hb
  have ha0 := num_nonneg a
  have hb0 := num_nonneg b
  refine (sweep_fits (c := 0) (by norm_num) (by decide) hroom ?_ (by linarith) ?_).1
  · rw [hsum]
    show (0 : Int) + _ = _
    ring
  · rw [hlen]
    exact h

theorem normal_bnAdd {a b : Bignum256} (ha : Normal a) (hb : Normal b) : Normal (bnAdd a b) := by
  apply normal_sweep
  rw [List.length_zipWith, ha.length, hb.length]
  rfl

theorem num_bnSubtract {a b : Bignum256} (ha : Normal a) (hb : Normal b) (h : num b ≤ num a) :
    num (bnSubtract a b) = num a - num b := by
  have hterm : ∀ q ∈ a.zip b, ((0x3FFFFFFF#32 + q.1 - q.2).toNat : Int)
      = (2 ^ 30 - 1) + (q.1.toNat - q.2.toNat) := by
    intro q hq
    have hlt := ha.of_zip hb hq
    bv_omega
  have hroom : ∀ x ∈ List.zipWith (fun x y => 0x3FFFFFFF#32 + x - y) a b, Roomy 30 x := by
    intro x hx
    rw [← List.map_uncurry_zip_eq_zipWith] at hx
    obtain ⟨q, hq, rfl⟩ := List.mem_map.mp hx
    have hlt := ha.of_zip hb hq
    have h2 := hterm q hq
    show (0x3FFFFFFF#32 + q.1 - q.2).toNat + 2 ^ 2 ≤ 2 ^ 32
    omega
  have hlen : (List.zipWith (fun x y => 0x3FFFFFFF#32 + x - y) a b).length = 9 := by
    rw [List.length_zipWith, ha.length, hb.length]
    rfl
  have hzip : (a.zip b).length = 9 := by
    rw [List.length_zip, ha.length, hb.length]
    rfl
  have hsum : value 30 (List.zipWith (fun x y => 0x3FFFFFFF#32 + x - y) a b)
      = 2 ^ (30 * 9) - 1 + (num a - num b) := by
    rw [value, weigh_zipWith, weigh_congr hterm, weigh_add, weigh_full, weigh_sub,
      weigh_left ha hb, weigh_right ha hb, hzip]
  have hb0 := num_nonneg b
  refine (sweep_fits (c := 1) (by norm_num) (by decide) hroom ?_ (sub_nonneg.mpr h) ?_).1
  · rw [hsum, hlen]
    show (1 : Int) + _ = _
    generalize (2 : Int) ^ (30 * 9) = top
    ring
  · rw [hlen]
    exact lt_of_le_of_lt (Int.sub_le_self _ hb0) ha.lt

theorem normal_bnSubtract {a b : Bignum256} (ha : Normal a) (hb : Normal b) :
    Normal (bnSubtract a b) := by
  apply normal_sweep
  rw [List.length_zipWith, ha.length, hb.length]
  rfl

/-- `a + (2 * prime - b)` -/
theorem num_bnSubtractmod {a b prime : Bignum256} (ha : Normal a) (hb : Normal b)
    (hp : Normal prime) (h : num b ≤ num a + 2 * num prime)
    (hlt : num a + 2 * num prime - num b < 2 ^ 270) :
    num (bnSubtractmod a b prime) = num a + 2 * num prime - num b := by
  have hlen2 : (prime.zip b).length = 9 := by
    rw [List.length_zip, hp.length, hb.length]
    rfl
  have hzip : (a.zip (prime.zip b)).length = 9 := by
    rw [List.length_zip, ha.length, hlen2]
    rfl
  have hlt3 : ∀ q ∈ a.zip (prime.zip b),
      q.1.toNat < 2 ^ 30 ∧ q.2.1.toNat < 2 ^ 30 ∧ q.2.2.toNat < 2 ^ 30 := by
    intro q hq
    have h2 := List.of_mem_zip hq
    have h3 := hp.of_zip hb h2.2
    exact ⟨ha.digits _ h2.1, h3.1, h3.2⟩
  have hterm : ∀ q ∈ a.zip (prime.zip b),
      ((0x3FFFFFFF#32 + q.1 + 2 * q.2.1 - q.2.2).toNat : Int)
      = (2 ^ 30 - 1) + (q.1.toNat + (2 * q.2.1.toNat - q.2.2.toNat)) := by
    intro q hq
    have hlt := hlt3 q hq
    bv_omega
  have hroom : ∀ x ∈ (a.zip (prime.zip b)).map
      (fun q => 0x3FFFFFFF#32 + q.1 + 2 * q.2.1 - q.2.2), Roomy 30 x := by
    intro x hx
    obtain ⟨q, hq, rfl⟩ := List.mem_map.mp hx
    have hlt := hlt3 q hq
    have h2 := hterm q hq
    show (0x3FFFFFFF#32 + q.1 + 2 * q.2.1 - q.2.2).toNat + 2 ^ 2 ≤ 2 ^ 32
    omega
  have hinner : weigh 30 (fun q : BitVec 32 × (BitVec 32 × BitVec 32) =>
      2 * (q.2.1.toNat : Int) - q.2.2.toNat) (a.zip (prime.zip b)) = 2 * num prime - num b := by
    rw [weigh_zip_right (g := fun q : BitVec 32 × BitVec 32 => 2 * (q.1.toNat : Int) - q.2.toNat)
      (ha.length.trans hlen2.symm), weigh_sub, weigh_mul, weigh_left hp hb, weigh_right hp hb]
  have hsum : value 30 ((a.zip (prime.zip b)).map
      (fun q => 0x3FFFFFFF#32 + q.1 + 2 * q.2.1 - q.2.2))
      = 2 ^ (30 * 9) - 1 + (num a + (2 * num prime - num b)) := by
    rw [value, weigh_map, weigh_congr hterm, weigh_add, weigh_full, weigh_add, hinner, hzip,
      weigh_zip_left (g := fun x : BitVec 32 => (x.toNat : Int)) (ha.length.trans hlen2.symm)]
    rfl
  refine (sweep_fits (c := 1) (by norm_num) (by decide) hroom ?_ (by linarith) ?_).1
  · rw [hsum, List.length_map, hzip]
    show (1 : Int) + _ = _
    generalize (2 : Int) ^ (30 * 9) = top
    ring
  · rw [List.length_map, hzip]
    exact hlt

theorem normal_bnSubtractmod {a b prime : Bignum256} (ha : Normal a) (hb : Normal b)
    (hp : Normal prime) : Normal (bnSubtractmod a b prime) := by
  apply normal_sweep
  rw [List.length_map, List.length_zip, List.length_zip, ha.length, hb.length, hp.length]
  rfl

/-! ## comparison -/

theorem toNat_bit (c : Bool) : (bit c).toNat = c.toNat := by
  cases c with
  | false => rfl
  | true => rfl

theorem toNat_decide (p : Prop) [Decidable p] : (decide p).toNat = if p then 1 else 0 := by
  by_cases h : p
  · rw [decide_eq_true h, if_pos h]
    rfl
  · rw [decide_eq_false h, if_neg h]
    rfl

/-- a bit at the low end of a word that has room -/
theorem toNat_shift_bit {x : BitVec 32} (hx : x.toNat < 2 ^ 31) (c : Bool) :
    ((x <<< 1) ||| bit c).toNat = 2 * x.toNat + c.toNat := by
  have hc : c.toNat < 2 ^ 1 := by
    cases c with
    | false => decide
    | true => decide
  rw [BitVec.toNat_or, BitVec.toNat_shiftLeft, toNat_bit, Nat.shiftLeft_eq,
    Nat.mod_eq_of_lt (by omega), ← Nat.shiftLeft_eq, ← Nat.shiftLeft_add_eq_or_of_lt hc,
    Nat.shiftLeft_eq]
  ring

/-- the two scores of `bn_is_less` compare as the numbers do -/
structure Scores (l : List (BitVec 32 × BitVec 32)) (res : BitVec 32 × BitVec 32) : Prop where
  fst : res.1.toNat < 2 ^ l.length
  snd : res.2.toNat < 2 ^ l.length
  less : res.2.toNat < res.1.toNat ↔ value 30 (l.map Prod.fst) < value 30 (l.map Prod.snd)
  same : res.2.toNat = res.1.toNat ↔ value 30 (l.map Prod.fst) = value 30 (l.map Prod.snd)

theorem Scores.step {l : List (BitVec 32 × BitVec 32)} {q res : BitVec 32 × BitVec 32}
    (h : Scores l res) (hlen : l.length < 31) (h1 : q.1.toNat < 2 ^ 30) (h2 : q.2.toNat < 2 ^ 30) :
    Scores (q :: l) (score q res) := by
  have hpow : 2 ^ l.length ≤ 2 ^ 31 := Nat.pow_le_pow_right (by norm_num) (by omega)
  have hfst := h.fst
  have hsnd := h.snd
  have hless := h.less
  have hsame := h.same
  have e1 : (score q res).1.toNat = 2 * res.1.toNat + (decide (q.1 < q.2)).toNat :=
    toNat_shift_bit (by omega) _
  have e2 : (score q res).2.toNat = 2 * res.2.toNat + (decide (q.2 < q.1)).toNat :=
    toNat_shift_bit (by omega) _
  have hlt := value_lt_iff (l := l.map Prod.fst) (r := l.map Prod.snd) h1 h2
  have hgt := value_lt_iff (l := l.map Prod.snd) (r := l.map Prod.fst) h2 h1
  simp only [toNat_decide, BitVec.lt_def] at e1 e2 hlt hgt
  constructor
  · rw [List.length_cons, pow_succ, e1]
    split_ifs <;> omega
  · rw [List.length_cons, pow_succ, e2]
    split_ifs <;> omega
  · rw [List.map_cons, List.map_cons, hlt, e1, e2]
    split_ifs <;> omega
  · have heq : value 30 (q.1 :: l.map Prod.fst) = value 30 (q.2 :: l.map Prod.snd) ↔
        ¬value 30 (q.1 :: l.map Prod.fst) < value 30 (q.2 :: l.map Prod.snd) ∧
        ¬value 30 (q.2 :: l.map Prod.snd) < value 30 (q.1 :: l.map Prod.fst) := by omega
    rw [List.map_cons, List.map_cons, heq, hlt, hgt, e1, e2]
    split_ifs <;> omega

theorem scores {l : List (BitVec 32 × BitVec 32)} (hlen : l.length ≤ 31)
    (hl : ∀ q ∈ l, q.1.toNat < 2 ^ 30 ∧ q.2.toNat < 2 ^ 30) :
    Scores l (l.foldr score (0, 0)) := by
  induction l with
  | nil =>
    refine ⟨by decide, by decide, ?_, ?_⟩
    · exact ⟨fun h => absurd h (by decide), fun h => absurd h (lt_irrefl _)⟩
    · exact ⟨fun _ => rfl, fun _ => rfl⟩
  | cons q l ih =>
    rw [List.length_cons] at hlen
    have hq := hl q List.mem_cons_self
    exact (ih (by omega) fun r hr => hl r (List.mem_cons_of_mem q hr)).step (by omega) hq.1 hq.2

theorem bnIsLess_iff {a b : Bignum256} (ha : Normal a) (hb : Normal b) :
    bnIsLess a b = true ↔ num a < num b := by
  have hlen : (a.zip b).length = 9 := by
    rw [List.length_zip, ha.length, hb.length]
    rfl
  have h := scores (l := a.zip b) (by omega) fun q hq => ha.of_zip hb hq
  have hless := h.less
  rw [List.map_fst_zip (by rw [ha.length, hb.length]),
    List.map_snd_zip (by rw [ha.length, hb.length])] at hless
  rw [num, num, ← hless]
  show decide (((a.zip b).foldr score (0, 0)).2 < ((a.zip b).foldr score (0, 0)).1) = true ↔ _
  rw [decide_eq_true_iff, BitVec.lt_def]

theorem foldl_or_eq_zero (l : List (BitVec 32)) (t : BitVec 32) :
    l.foldl (· ||| ·) t = 0 ↔ t = 0 ∧ ∀ x ∈ l, x = 0 := by
  induction l generalizing t with
  | nil => simp
  | cons x l ih =>
    have hor : t ||| x = 0 ↔ t = 0 ∧ x = 0 := BitVec.or_eq_zero_iff
    rw [List.foldl_cons, ih, hor, List.forall_mem_cons, and_assoc]

theorem zipWith_xor_zero {a b : Bignum256} (hlen : a.length = b.length) :
    (∀ x ∈ List.zipWith (· ^^^ ·) a b, x = 0) ↔ a = b := by
  induction a generalizing b with
  | nil =>
    rw [List.length_eq_zero_iff.mp hlen.symm]
    exact ⟨fun _ => rfl, fun _ x hx => absurd hx List.not_mem_nil⟩
  | cons x a ih =>
    cases b with
    | nil => exact absurd hlen (Nat.succ_ne_zero _)
    | cons y b =>
      have hxor : x ^^^ y = 0 ↔ x = y := BitVec.xor_eq_zero_iff
      have htail := ih (b := b) (Nat.succ.inj hlen)
      rw [List.zipWith_cons_cons, List.forall_mem_cons, htail, hxor, List.cons.injEq]

theorem bnIsEqual_iff {a b : Bignum256} (ha : a.length = 9) (hb : b.length = 9) :
    bnIsEqual a b = true ↔ a = b := by
  rw [bnIsEqual, beq_iff_eq, foldl_or_eq_zero, zipWith_xor_zero (ha.trans hb.symm)]
  exact ⟨fun h => h.2, fun h => ⟨rfl, h⟩⟩

theorem bnIsZero_iff {a : Bignum256} (ha : a.length = 9) : bnIsZero a = true ↔ num a = 0 := by
  have hzero : (∀ x ∈ a, x = 0) ↔ num a = 0 := by
    clear ha
    induction a with
    | nil => exact ⟨fun _ => rfl, fun _ x hx => absurd hx List.not_mem_nil⟩
    | cons x a ih =>
      have h0 := num_nonneg a
      have hx : x = 0 ↔ x.toNat = 0 := ⟨fun h => by rw [h]; rfl, fun h => BitVec.eq_of_toNat_eq h⟩
      rw [List.forall_mem_cons, ih, hx]
      show _ ↔ (x.toNat : Int) + 2 ^ 30 * num a = 0
      omega
  rw [bnIsZero, beq_iff_eq, foldl_or_eq_zero, hzero]
  simp

/-! ## choice -/

theorem bnCmov_eq {t f : Bignum256} (h : t.length = f.length) (cond : Bool) :
    bnCmov cond t f = if cond then t else f := by
  unfold bnCmov
  induction t generalizing f with
  | nil =>
    rw [List.length_eq_zero_iff.mp h.symm]
    cases cond <;> rfl
  | cons x t ih =>
    cases f with
    | nil => exact absurd h (Nat.succ_ne_zero _)
    | cons y f =>
      have htail := ih (Nat.succ.inj h)
      simp only at htail
      simp only [List.zipWith_cons_cons, htail]
      cases cond with
      | false =>
        have hzero : -bit false = 0#32 := by decide
        rw [hzero, BitVec.and_zero, BitVec.zero_or, BitVec.not_zero, BitVec.and_allOnes]
        rfl
      | true =>
        have hones : -bit true = BitVec.allOnes 32 := by decide
        rw [hones, BitVec.and_allOnes, BitVec.not_allOnes, BitVec.and_zero, BitVec.or_zero]
        rfl

end MTower.Curve
