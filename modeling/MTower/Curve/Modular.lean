import MTower.Curve.Bignum

/-!
# Reduction modulo a prime just below `2 ^ 256`

* `Modulus`            a modulus in the range that the library asks for;
* `value_borrowedRow`  a multiple of the prime taken off, with constants that leave with the carry;
* `fastMod`            `bn_fast_mod` of any nine words;
* `Rep`                a number that stands for a residue, below a multiple of the prime;
* `Rep.bnMod` and the like   what the operations do with residues.
-/

set_option linter.unusedVariables false

namespace MTower.Curve
open Lib.Limbs

/-- an odd number in the range that `bignum.c` asks for; `prime` is the source's word for it -/
structure Modulus where
  prime : Bignum256
  n : Nat
  normal : Normal prime
  num_eq : num prime = n
  odd : n % 2 = 1
  lower : 2 ^ 256 - 2 ^ 224 ≤ n
  upper : n < 2 ^ 256

instance (p : Modulus) : NeZero p.n := ⟨by
  have h := p.odd
  omega⟩

/-- a normal number below `m` times the prime, and its residue -/
structure Rep (p : Modulus) (m : Nat) (x : Bignum256) (v : ZMod p.n) : Prop where
  normal : Normal x
  lt : num x < m * p.n
  eq : ((num x : Int) : ZMod p.n) = v

variable {p : Modulus}

theorem Modulus.lower_int (p : Modulus) : (2 : Int) ^ 256 - 2 ^ 224 ≤ p.n := by
  have h := p.lower
  omega

theorem Modulus.upper_int (p : Modulus) : (p.n : Int) < 2 ^ 256 := by exact_mod_cast p.upper

theorem Modulus.pos (p : Modulus) : (0 : Int) < p.n := by
  have h := p.odd
  omega

theorem Rep.mono {m k : Nat} {x : Bignum256} {v : ZMod p.n} (h : Rep p m x v) (hk : m ≤ k) :
    Rep p k x v := by
  refine ⟨h.normal, lt_of_lt_of_le h.lt ?_, h.eq⟩
  have hk' : (m : Int) ≤ k := by exact_mod_cast hk
  exact mul_le_mul_of_nonneg_right hk' p.pos.le

/-! ## a multiple of the prime taken off -/

theorem borrowed_toNat {c coef : BitVec 64} {q : BitVec 32 × BitVec 32}
    (hc : c = 0x2000000000000000#64 ∨ c = 0x1FFFFFFF80000000#64) (hcoef : coef.toNat < 2 ^ 31)
    (hq : q.2.toNat < 2 ^ 30) :
    ((borrowed c coef q).toNat : Int) = c.toNat + (q.1.toNat - coef.toNat * q.2.toNat) := by
  have hmul : coef.toNat * q.2.toNat ≤ (2 ^ 31 - 1) * (2 ^ 30 - 1) :=
    Nat.mul_le_mul (by omega) (by omega)
  have h1 : (q.1.setWidth 64).toNat = q.1.toNat := by
    rw [BitVec.toNat_setWidth, Nat.mod_eq_of_lt (by omega)]
  have h2 : (q.2.setWidth 64 * coef).toNat = coef.toNat * q.2.toNat := by
    rw [BitVec.toNat_mul, BitVec.toNat_setWidth, Nat.mod_eq_of_lt (show q.2.toNat < 2 ^ 64 by omega),
      Nat.mul_comm, Nat.mod_eq_of_lt (by omega)]
  have hlt := q.1.isLt
  have hcn : c.toNat = 0x2000000000000000 ∨ c.toNat = 0x1FFFFFFF80000000 := by
    cases hc with
    | inl h => exact Or.inl (by rw [h]; rfl)
    | inr h => exact Or.inr (by rw [h]; rfl)
  rw [borrowed, BitVec.toNat_sub, BitVec.toNat_add, h1, h2]
  omega

theorem borrowed_roomy {c coef : BitVec 64} {q : BitVec 32 × BitVec 32}
    (hc : c = 0x2000000000000000#64 ∨ c = 0x1FFFFFFF80000000#64) (hcoef : coef.toNat < 2 ^ 31)
    (hq : q.2.toNat < 2 ^ 30) : Roomy 30 (borrowed c coef q) := by
  have h := borrowed_toNat hc hcoef hq
  have hlt := q.1.isLt
  have hpos : (0 : Int) ≤ coef.toNat * q.2.toNat := by positivity
  have hcn : c.toNat ≤ 0x2000000000000000 := by
    cases hc with
    | inl h => rw [h]; decide
    | inr h => rw [h]; decide
  show (borrowed c coef q).toNat + 2 ^ 34 ≤ 2 ^ 64
  omega

theorem roomy_borrowedRow {coef : BitVec 64} (hcoef : coef.toNat < 2 ^ 31)
    {l : List (BitVec 32 × BitVec 32)} (hl : ∀ q ∈ l, q.2.toNat < 2 ^ 30) :
    ∀ x ∈ borrowedRow coef l, Roomy 30 x := by
  cases l with
  | nil => intro x hx; exact absurd hx List.not_mem_nil
  | cons q l =>
    intro x hx
    rw [borrowedRow, List.mem_cons] at hx
    cases hx with
    | inl h =>
      rw [h]
      exact borrowed_roomy (Or.inl rfl) hcoef (hl q List.mem_cons_self)
    | inr h =>
      obtain ⟨r, hr, rfl⟩ := List.mem_map.mp h
      exact borrowed_roomy (Or.inr rfl) hcoef (hl r (List.mem_cons_of_mem q hr))

/-- the constants add up to a multiple of the place behind the row -/
theorem value_borrowedRow {coef : BitVec 64} (hcoef : coef.toNat < 2 ^ 31)
    {l : List (BitVec 32 × BitVec 32)} (hne : l ≠ []) (hl : ∀ q ∈ l, q.2.toNat < 2 ^ 30) :
    value 30 (borrowedRow coef l) = 2 ^ 31 * 2 ^ (30 * l.length)
      + (weigh 30 (fun q : BitVec 32 × BitVec 32 => (q.1.toNat : Int)) l
        - coef.toNat * weigh 30 (fun q : BitVec 32 × BitVec 32 => (q.2.toNat : Int)) l) := by
  cases l with
  | nil => exact absurd rfl hne
  | cons q l =>
    have hhead := borrowed_toNat (Or.inl rfl) hcoef (hl q List.mem_cons_self)
    have htail : ∀ r ∈ l, ((borrowed 0x1FFFFFFF80000000#64 coef r).toNat : Int)
        = 2 ^ 31 * (2 ^ 30 - 1) + (r.1.toNat - coef.toNat * r.2.toNat) := by
      intro r hr
      exact borrowed_toNat (Or.inr rfl) hcoef (hl r (List.mem_cons_of_mem q hr))
    have hconst : weigh 30 (fun _ : BitVec 32 × BitVec 32 => (2 : Int) ^ 31 * (2 ^ 30 - 1)) l
        = 2 ^ 31 * (2 ^ (30 * l.length) - 1) := by
      rw [weigh_mul (g := fun _ : BitVec 32 × BitVec 32 => (2 : Int) ^ 30 - 1), weigh_full]
    rw [borrowedRow, value_cons, value, weigh_map, weigh_congr htail, weigh_add, hconst, weigh_sub,
      weigh_mul, hhead, weigh_cons, weigh_cons, List.length_cons, Nat.mul_succ, pow_add]
    show ((0x2000000000000000 : Nat) : Int) + _ + _ = _
    generalize (2 : Int) ^ (30 * l.length) = top
    push_cast
    ring

theorem length_borrowedRow (coef : BitVec 64) (l : List (BitVec 32 × BitVec 32)) :
    (borrowedRow coef l).length = l.length := by
  cases l with
  | nil => rfl
  | cons q l => rw [borrowedRow, List.length_cons, List.length_map, List.length_cons]

/-- words that are small enough for half the width -/
theorem value_setWidth {l : List (BitVec 64)} (hl : ∀ x ∈ l, x.toNat < 2 ^ 30) :
    num (l.map (BitVec.setWidth 32)) = value 30 l := by
  rw [num, value, weigh_map]
  apply weigh_congr
  intro x hx
  have h := hl x hx
  rw [BitVec.toNat_setWidth, Nat.mod_eq_of_lt (by omega)]

theorem digits_setWidth {l : List (BitVec 64)} (hl : ∀ x ∈ l, x.toNat < 2 ^ 30) :
    ∀ x ∈ l.map (BitVec.setWidth 32), x.toNat < 2 ^ 30 := by
  intro x hx
  obtain ⟨y, hy, rfl⟩ := List.mem_map.mp hx
  have h := hl y hy
  rw [BitVec.toNat_setWidth, Nat.mod_eq_of_lt (by omega)]
  exact h

/-- A row less a multiple of another, when the difference fits. -/
theorem sweep_borrowedRow {coef : BitVec 64} (hcoef : coef.toNat < 2 ^ 31)
    {l : List (BitVec 32 × BitVec 32)} (hne : l ≠ []) (hl : ∀ q ∈ l, q.2.toNat < 2 ^ 30) {V : Int}
    (hV : V = weigh 30 (fun q : BitVec 32 × BitVec 32 => (q.1.toNat : Int)) l
      - coef.toNat * weigh 30 (fun q : BitVec 32 × BitVec 32 => (q.2.toNat : Int)) l)
    (h0 : 0 ≤ V) (h1 : V < 2 ^ (30 * l.length)) :
    num ((sweep 30 0 (borrowedRow coef l)).1.map (BitVec.setWidth 32)) = V := by
  rw [value_setWidth (sweep_lt (by norm_num) _ _)]
  refine (sweep_fits (c := 2 ^ 31) (by norm_num) (by decide) (roomy_borrowedRow hcoef hl) ?_ h0 ?_).1
  · rw [value_borrowedRow hcoef hne hl, length_borrowedRow, ← hV]
    show (0 : Int) + _ = _
    ring
  · rw [length_borrowedRow]
    exact h1

/-! ## `bn_fast_mod` -/

/-- the last limb apart -/
theorem num_top {x : Bignum256} (h : x.length = 9) :
    num x = num (x.take 8) + 2 ^ 240 * (limb x 8).toNat := by
  have hdrop : x.drop 8 = [limb x 8] := by
    rw [List.drop_eq_getElem_cons (by omega), List.drop_eq_nil_of_le (by omega), limb,
      List.getD_eq_getElem _ _ (by omega)]
  have happ := weigh_append (b := 30) (g := fun v : BitVec 32 => (v.toNat : Int)) (x.take 8)
    (x.drop 8)
  rw [List.take_append_drop, hdrop, List.length_take, h, weigh_cons, weigh_nil] at happ
  rw [num, value, happ]
  show _ + (2 : Int) ^ (30 * 8) * _ = _ + _
  rw [mul_zero, add_zero]
  rfl

/-- eight words, with what they carry -/
theorem num_take_lt (x : Bignum256) : num (x.take 8) < 5 * 2 ^ 240 := by
  have hw : ∀ v ∈ x.take 8, (v.toNat : Int) ≤ 2 ^ 32 - 1 := by
    intro v hv
    have h := v.isLt
    omega
  have hle := weigh_le (b := 30) hw
  have hlen : (2 : Int) ^ (30 * (x.take 8).length) ≤ 2 ^ (30 * 8) := by
    apply pow_le_pow_right₀ (by norm_num)
    rw [List.length_take]
    omega
  have hnum : num (x.take 8) = weigh 30 (fun v : BitVec 32 => (v.toNat : Int)) (x.take 8) := rfl
  rw [hnum]
  omega

/-- the multiple of the prime that `bn_fast_mod` takes off -/
def fastCoef (x : Bignum256) : Nat := (limb x 8).toNat / 2 ^ 16

theorem fast_bounds (p : Modulus) {x : Bignum256} (h : x.length = 9) :
    0 ≤ num x - fastCoef x * p.n ∧ num x - fastCoef x * p.n < 2 * p.n := by
  have htop := num_top h
  have hlow := num_take_lt x
  have hlow0 := num_nonneg (x.take 8)
  have hsplit := Nat.div_add_mod (limb x 8).toNat (2 ^ 16)
  have hrem := Nat.mod_lt (limb x 8).toNat (show 0 < 2 ^ 16 by norm_num)
  have hcoef : (limb x 8).toNat / 2 ^ 16 < 2 ^ 16 := by
    have hlt := (limb x 8).isLt
    omega
  rw [← fastCoef] at hsplit hcoef
  have hlo := p.lower_int
  have hup := p.upper_int
  have hprod : 0 ≤ (fastCoef x : Int) * (2 ^ 256 - p.n) := by
    apply mul_nonneg (Int.natCast_nonneg _)
    omega
  have hprod2 : (fastCoef x : Int) * (2 ^ 256 - p.n) ≤ (2 ^ 16 - 1) * 2 ^ 224 :=
    mul_le_mul (by omega) (by omega) (by omega) (by norm_num)
  have hval : num x - fastCoef x * p.n = num (x.take 8)
      + 2 ^ 240 * ((limb x 8).toNat % 2 ^ 16 : Nat) + fastCoef x * (2 ^ 256 - p.n) := by
    rw [htop]
    have hcast : ((limb x 8).toNat : Int) = 2 ^ 16 * fastCoef x + ((limb x 8).toNat % 2 ^ 16 : Nat) := by
      rw [← hsplit]
      push_cast
      omega
    rw [hcast]
    ring
  rw [hval]
  constructor <;> omega

theorem num_bnFastMod (p : Modulus) {x : Bignum256} (h : x.length = 9) :
    num (bnFastMod x p.prime) = num x - fastCoef x * p.n := by
  have hzip : (x.zip p.prime).length = 9 := by
    rw [List.length_zip, h, p.normal.length]
    rfl
  have hne : x.zip p.prime ≠ [] := by
    intro he
    rw [he] at hzip
    exact absurd hzip (by decide)
  have hcoef : ((limb x 8 >>> 16).setWidth 64).toNat = fastCoef x := by
    have hlt := (limb x 8).isLt
    rw [BitVec.toNat_setWidth, BitVec.toNat_ushiftRight, Nat.shiftRight_eq_div_pow, fastCoef,
      Nat.mod_eq_of_lt (by omega)]
  have hb := fast_bounds p h
  have hup := p.upper_int
  have hsmall : fastCoef x < 2 ^ 31 := by
    have hlt := (limb x 8).isLt
    unfold fastCoef
    omega
  refine sweep_borrowedRow (by rw [hcoef]; exact hsmall) hne
    (fun q hq => p.normal.digits _ (List.of_mem_zip hq).2) ?_ hb.1 ?_
  · rw [hcoef, weigh_zip_left (g := fun v : BitVec 32 => (v.toNat : Int))
      (h.trans p.normal.length.symm), weigh_zip_right (g := fun v : BitVec 32 => (v.toNat : Int))
      (h.trans p.normal.length.symm), ← p.num_eq]
    rfl
  · rw [hzip, show 30 * 9 = 256 + 14 from rfl, pow_add]
    omega

theorem normal_bnFastMod (p : Modulus) {x : Bignum256} (h : x.length = 9) :
    Normal (bnFastMod x p.prime) := by
  refine ⟨?_, digits_setWidth (sweep_lt (by norm_num) _ _)⟩
  rw [bnFastMod, List.length_map, length_sweep, length_borrowedRow, List.length_zip, h,
    p.normal.length]
  rfl

/-- a multiple of the prime is nothing -/
theorem cast_sub_mul (z c : Int) : ((z - c * p.n : Int) : ZMod p.n) = (z : ZMod p.n) := by
  push_cast
  rw [ZMod.natCast_self, mul_zero, sub_zero]

/-- **Partial reduction of any nine words.** -/
theorem fastMod (p : Modulus) {x : Bignum256} (h : x.length = 9) {v : ZMod p.n}
    (hv : ((num x : Int) : ZMod p.n) = v) : Rep p 2 (bnFastMod x p.prime) v := by
  refine ⟨normal_bnFastMod p h, ?_, ?_⟩
  · rw [num_bnFastMod p h]
    exact (fast_bounds p h).2
  · rw [num_bnFastMod p h, cast_sub_mul, hv]

/-! ## the operations on residues -/

theorem Rep.bnFastMod {m : Nat} {x : Bignum256} {v : ZMod p.n} (h : Rep p m x v) :
    Rep p 2 (bnFastMod x p.prime) v := fastMod p h.normal.length h.eq

/-- a sum of two numbers that are small enough -/
theorem Rep.bnAdd {m k : Nat} {x y : Bignum256} {v u : ZMod p.n} (hx : Rep p m x v)
    (hy : Rep p k y u) (hmk : m + k ≤ 2 ^ 14) : Rep p (m + k) (bnAdd x y) (v + u) := by
  have hup := p.upper_int
  have hbound : ((m + k : Nat) : Int) * p.n ≤ 2 ^ 14 * 2 ^ 256 :=
    mul_le_mul (by exact_mod_cast hmk) hup.le p.pos.le (by norm_num)
  have hsum : num x + num y < ((m + k : Nat) : Int) * p.n := by
    have h1 := hx.lt
    have h2 := hy.lt
    push_cast
    linarith
  have hnum := num_bnAdd hx.normal hy.normal (by
    rw [show 270 = 14 + 256 from rfl, pow_add]
    exact lt_of_lt_of_le hsum hbound)
  refine ⟨normal_bnAdd hx.normal hy.normal, by rw [hnum]; exact hsum, ?_⟩
  rw [hnum]
  push_cast
  rw [hx.eq, hy.eq]

theorem Rep.bnAddmod {m k : Nat} {x y : Bignum256} {v u : ZMod p.n} (hx : Rep p m x v)
    (hy : Rep p k y u) : Rep p 2 (bnAddmod x y p.prime) (v + u) := by
  apply fastMod
  · rw [List.length_zipWith, hx.normal.length, hy.normal.length]
    rfl
  · rw [num_sum hx.normal hy.normal]
    push_cast
    rw [hx.eq, hy.eq]

/-- `a + (2 * prime - b)`: the subtrahend has to be partly reduced -/
theorem Rep.subtractmod_lt {m : Nat} {x y : Bignum256} {v u : ZMod p.n} (hx : Rep p m x v)
    (hy : Rep p 2 y u) : num x + 2 * p.n - num y < ((m + 2 : Nat) : Int) * p.n := by
  have h1 := hx.lt
  have hy0 := num_nonneg y
  push_cast
  linarith

/-- twice the prime keeps the difference from going below zero -/
theorem Rep.subtractmod_eq {m : Nat} {x y : Bignum256} {v u : ZMod p.n} (hx : Rep p m x v)
    (hy : Rep p 2 y u) (hm : m + 2 ≤ 2 ^ 14) :
    num (MTower.Curve.bnSubtractmod x y p.prime) = num x + 2 * p.n - num y := by
  have hup := p.upper_int
  have h2 := hy.lt
  have hx0 := num_nonneg x
  have hpn := p.num_eq
  have hbound : ((m + 2 : Nat) : Int) * p.n ≤ 2 ^ 14 * 2 ^ 256 :=
    mul_le_mul (by exact_mod_cast hm) hup.le p.pos.le (by norm_num)
  rw [← hpn]
  apply num_bnSubtractmod hx.normal hy.normal p.normal
  · rw [hpn]
    push_cast at h2
    linarith
  · rw [show 270 = 14 + 256 from rfl, pow_add, hpn]
    exact lt_of_lt_of_le (hx.subtractmod_lt hy) hbound

/-- the difference is never nothing -/
theorem Rep.subtractmod_pos {m : Nat} {x y : Bignum256} {v u : ZMod p.n} (hx : Rep p m x v)
    (hy : Rep p 2 y u) (hm : m + 2 ≤ 2 ^ 14) :
    0 < num (MTower.Curve.bnSubtractmod x y p.prime) := by
  have hlt := hy.lt
  have hx0 := num_nonneg x
  rw [hx.subtractmod_eq hy hm]
  push_cast at hlt
  linarith

theorem Rep.bnSubtractmod {m : Nat} {x y : Bignum256} {v u : ZMod p.n} (hx : Rep p m x v)
    (hy : Rep p 2 y u) (hm : m + 2 ≤ 2 ^ 14) :
    Rep p (m + 2) (bnSubtractmod x y p.prime) (v - u) := by
  have hnum := hx.subtractmod_eq hy hm
  refine ⟨normal_bnSubtractmod hx.normal hy.normal p.normal, ?_, ?_⟩
  · rw [hnum]
    exact hx.subtractmod_lt hy
  · rw [hnum]
    push_cast
    rw [hx.eq, hy.eq, ZMod.natCast_self, mul_zero, add_zero]

/-- small factors -/
theorem num_scaled {x : Bignum256} (hx : Normal x) {k : BitVec 8} (hk : k.toNat ≤ 4) :
    num (x.map fun v => k.setWidth 32 * v) = k.toNat * num x := by
  have hterm : ∀ v ∈ x, ((k.setWidth 32 * v).toNat : Int) = k.toNat * v.toNat := by
    intro v hv
    have hlt := hx.digits v hv
    have hmul : k.toNat * v.toNat ≤ 4 * (2 ^ 30 - 1) := Nat.mul_le_mul hk (by omega)
    rw [BitVec.toNat_mul, BitVec.toNat_setWidth, Nat.mod_eq_of_lt (show k.toNat < 2 ^ 32 by omega),
      Nat.mod_eq_of_lt (by omega)]
    push_cast
    rfl
  rw [num, value, weigh_map, weigh_congr hterm, weigh_mul]
  rfl

theorem Rep.bnMultK {m : Nat} {x : Bignum256} {v : ZMod p.n} (hx : Rep p m x v) {k : BitVec 8}
    (hk : k.toNat ≤ 4) : Rep p 2 (bnMultK x k p.prime) (k.toNat * v) := by
  apply fastMod
  · rw [List.length_map, hx.normal.length]
  · rw [num_scaled hx.normal hk]
    push_cast
    rw [hx.eq]

/-- **Full reduction of a partly reduced number.** -/
theorem num_bnMod {x : Bignum256} {v : ZMod p.n} (hx : Rep p 2 x v) :
    num (bnMod x p.prime) = (v.val : Int) := by
  have hlt := hx.lt
  have h0 := num_nonneg x
  have hlen : x.length = (bnSubtract x p.prime).length := by
    rw [hx.normal.length, (normal_bnSubtract hx.normal p.normal).length]
  have hval : (num x % p.n : Int) = (v.val : Int) := by
    rw [← hx.eq, ZMod.val_intCast]
  rw [bnMod, bnCmov_eq hlen, ← hval]
  by_cases hless : num x < num p.prime
  · rw [if_pos ((bnIsLess_iff hx.normal p.normal).mpr hless), Int.emod_eq_of_lt h0 ?_]
    rw [← p.num_eq]
    exact hless
  · rw [if_neg fun h => hless ((bnIsLess_iff hx.normal p.normal).mp h),
      num_bnSubtract hx.normal p.normal (not_lt.mp hless), p.num_eq]
    rw [p.num_eq] at hless
    rw [← Int.sub_emod_right, Int.emod_eq_of_lt (by omega)]
    push_cast at hlt
    omega

theorem Rep.bnMod {x : Bignum256} {v : ZMod p.n} (hx : Rep p 2 x v) :
    Rep p 1 (bnMod x p.prime) v := by
  have hlen : x.length = (bnSubtract x p.prime).length := by
    rw [hx.normal.length, (normal_bnSubtract hx.normal p.normal).length]
  have hv : (v.val : Int) < p.n := by exact_mod_cast ZMod.val_lt v
  refine ⟨?_, ?_, ?_⟩
  · rw [MTower.Curve.bnMod, bnCmov_eq hlen]
    split_ifs
    · exact hx.normal
    · exact normal_bnSubtract hx.normal p.normal
  · rw [num_bnMod hx]
    push_cast
    omega
  · rw [num_bnMod hx]
    push_cast
    rw [ZMod.natCast_val, ZMod.cast_id]

end MTower.Curve
