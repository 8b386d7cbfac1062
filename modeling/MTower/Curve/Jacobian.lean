import MTower.Curve.Multiply

/-!
# Points in Jacobian coordinates (`point_jacobian_add`, `point_jacobian_double`)

* `Rep.bnMultHalf`, `Rep.bnLshift`   halves and doubles;
* `Rep.conditionalNegate`            negation;
* `bnIsEqual_prime`    the test of `point_jacobian_add` for a difference that is nothing;
* `Jac`                a point whose three coordinates stand for residues;
* `aff_to_jac`         what `curve_to_jacobian` gives;
* `jacobian_double`, `jacobian_add`   the formulas that the two functions compute.
-/

set_option linter.unusedVariables false

namespace MTower.Curve
open Lib.Limbs

/-! ## the functions -/

structure CurvePoint where
  x : Bignum256
  y : Bignum256

structure JacobianCurvePoint where
  x : Bignum256
  y : Bignum256
  z : Bignum256

structure EcdsaCurve where
  prime : Bignum256
  a : Int

/-- `cond` is all ones or zero -/
def conditionalNegate (cond : Bool) (a prime : Bignum256) : Option Bignum256 := do
  guard (limb a 8 < 0x20000#32)
  let a := bnCmov cond
    (sweep 30 1 (List.zipWith (fun q x => 0x3FFFFFFF#32 + 2 * q - x) prime a)).1 a
  guard (limb a 8 < 0x20000#32)
  return a

/-- with the `z` that `generate_k_random` draws -/
def curveToJacobian (p : CurvePoint) (z prime : Bignum256) : Option JacobianCurvePoint := do
  let x ← bnMultiply z z prime
  let y ← bnMultiply z x prime
  let x ← bnMultiply p.x x prime
  let y ← bnMultiply p.y y prime
  return ⟨x, y, z⟩

/-- `-a` as a `uint8_t` -/
def EcdsaCurve.minusA (curve : EcdsaCurve) : BitVec 8 := BitVec.ofInt 8 (-curve.a)

/-- `az`, which is set only when `a != 0` -/
def addAz (curve : EcdsaCurve) (xz : Bignum256) : Option Bignum256 :=
  if curve.a = 0 then some xz
  else do
    let az ← bnMultiply xz xz curve.prime
    return bnMultK az curve.minusA curve.prime

def addR2 (curve : EcdsaCurve) (r2 az : Bignum256) : Bignum256 :=
  if curve.a = 0 then r2 else bnSubtractmod r2 az curve.prime

/-- the part of `point_jacobian_add` behind the two conditional moves -/
def addTail (prime r h xz yz z : Bignum256) : Option JacobianCurvePoint := do
  let hsqx ← bnMultiply h h prime
  let hcby ← bnMultiply hsqx h prime
  let hsqx ← bnMultiply xz hsqx prime
  let hcby ← bnMultiply yz hcby prime
  let z ← bnMultiply h z prime
  let x ← bnMultiply r r prime
  let x := bnFastMod (bnSubtractmod x hsqx prime) prime
  let y := bnSubtractmod (bnSubtractmod hsqx x prime) x prime
  let y ← bnMultiply r y prime
  let y := bnFastMod (bnMultHalf (bnSubtractmod y hcby prime) prime) prime
  return ⟨x, y, z⟩

def pointJacobianAdd (p1 : CurvePoint) (p2 : JacobianCurvePoint) (curve : EcdsaCurve) :
    Option JacobianCurvePoint := do
  guard (-3 ≤ curve.a ∧ curve.a ≤ 0)
  let prime := curve.prime
  let xz ← bnMultiply p2.z p2.z prime
  let yz ← bnMultiply xz p2.z prime
  let az ← addAz curve xz
  let xz ← bnMultiply p1.x xz prime
  let h := bnFastMod (bnSubtractmod xz p2.x prime) prime
  let isDoubling := bnIsEqual h prime
  let yz ← bnMultiply p1.y yz prime
  let r := bnSubtractmod yz p2.y prime
  let r2 ← bnMultiply p2.x p2.x prime
  let r2 := addR2 curve (bnMultK r2 3#8 prime) az
  addTail prime (bnCmov isDoubling r2 r) (bnCmov isDoubling (bnAdd yz p2.y) h) (bnAdd xz p2.x)
    (bnAdd yz p2.y) p2.z

def pointJacobianDouble (p : JacobianCurvePoint) (curve : EcdsaCurve) :
    Option JacobianCurvePoint := do
  guard (-3 ≤ curve.a ∧ curve.a ≤ 0)
  let prime := curve.prime
  let m ← bnMultiply p.x p.x prime
  let m := bnMultK m 3#8 prime
  let az4 ← bnMultiply p.z p.z prime
  let az4 ← bnMultiply az4 az4 prime
  let az4 := bnMultK az4 curve.minusA prime
  let m := bnMultHalf (bnSubtractmod m az4 prime) prime
  let msq ← bnMultiply m m prime
  let ysq ← bnMultiply p.y p.y prime
  let xysq ← bnMultiply ysq p.x prime
  let z ← bnMultiply p.y p.z prime
  let x := bnFastMod (bnLshift xysq) prime
  let x := bnFastMod (bnSubtractmod msq x prime) prime
  let y := bnSubtractmod xysq x prime
  let y ← bnMultiply m y prime
  let ysq ← bnMultiply ysq ysq prime
  let y := bnFastMod (bnSubtractmod y ysq prime) prime
  return ⟨x, y, z⟩

/-! ## halves -/

theorem length_multHalfLoop (t : BitVec 32) (l : List (BitVec 32)) :
    (multHalfLoop t l).length = l.length + 1 := by
  induction l generalizing t with
  | nil => rfl
  | cons s l ih => rw [multHalfLoop, List.length_cons, ih, List.length_cons]

/-- the words of one round of `bn_mult_half` -/
theorem half_round {t s : BitVec 32} (ht : t.toNat < 2 ^ 31) (hs : s.toNat < 2 ^ 31) :
    (t + ((s &&& 1) <<< 29)).toNat = t.toNat + 2 ^ 29 * (s.toNat % 2) ∧
      (((t + ((s &&& 1) <<< 29)) >>> 30) + (s >>> 1)).toNat
        = (t.toNat + 2 ^ 29 * (s.toNat % 2)) / 2 ^ 30 + s.toNat / 2 := by
  have hand : (s &&& 1).toNat = s.toNat % 2 := by
    rw [BitVec.toNat_and]
    exact Nat.and_one_is_mod _
  have hsum : (t + ((s &&& 1) <<< 29)).toNat = t.toNat + 2 ^ 29 * (s.toNat % 2) := by
    rw [BitVec.toNat_add, BitVec.toNat_shiftLeft, hand, Nat.shiftLeft_eq]
    omega
  refine ⟨hsum, ?_⟩
  rw [BitVec.toNat_add, BitVec.toNat_ushiftRight, BitVec.toNat_ushiftRight, hsum,
    Nat.shiftRight_eq_div_pow, Nat.shiftRight_eq_div_pow]
  omega

theorem num_multHalfLoop {t : BitVec 32} {l : List (BitVec 32)} (ht : t.toNat < 2 ^ 31)
    (hl : ∀ s ∈ l, s.toNat < 2 ^ 31) :
    num (multHalfLoop t l) = t.toNat + 2 ^ 29 * num l := by
  induction l generalizing t with
  | nil =>
    show (t.toNat : Int) + 2 ^ 30 * 0 = t.toNat + 2 ^ 29 * 0
    ring
  | cons s l ih =>
    have hs := hl s List.mem_cons_self
    obtain ⟨h1, h2⟩ := half_round ht hs
    have htail := ih (t := ((t + ((s &&& 1) <<< 29)) >>> 30) + (s >>> 1)) (by rw [h2]; omega)
      fun r hr => hl r (List.mem_cons_of_mem s hr)
    have hlow : (low 30 (t + ((s &&& 1) <<< 29))).toNat
        = (t.toNat + 2 ^ 29 * (s.toNat % 2)) % 2 ^ 30 := by
      rw [toNat_low (by norm_num), h1]
    show ((low 30 (t + ((s &&& 1) <<< 29))).toNat : Int)
      + 2 ^ 30 * num (multHalfLoop (((t + ((s &&& 1) <<< 29)) >>> 30) + (s >>> 1)) l)
      = t.toNat + 2 ^ 29 * (s.toNat + 2 ^ 30 * num l)
    rw [htail, h2, hlow]
    push_cast
    omega

/-- every limb but the last is masked, and the last is small when the number is -/
theorem digits_multHalfLoop {t : BitVec 32} {l : List (BitVec 32)}
    (h : num (multHalfLoop t l) < 2 ^ (30 * (l.length + 1))) :
    ∀ x ∈ multHalfLoop t l, x.toNat < 2 ^ 30 := by
  induction l generalizing t with
  | nil =>
    intro x hx
    rw [multHalfLoop, List.mem_singleton] at hx
    have ht : num (multHalfLoop t []) = t.toNat := by
      show (t.toNat : Int) + 2 ^ 30 * 0 = t.toNat
      ring
    rw [ht] at h
    rw [hx]
    exact_mod_cast h
  | cons s l ih =>
    intro x hx
    rw [multHalfLoop, List.mem_cons] at hx
    cases hx with
    | inl hx =>
      rw [hx, toNat_low (by norm_num)]
      exact Nat.mod_lt _ (by norm_num)
    | inr hx =>
      refine ih ?_ x hx
      have hcons : num (multHalfLoop t (s :: l)) = (low 30 (t + ((s &&& 1) <<< 29))).toNat
        + 2 ^ 30 * num (multHalfLoop (((t + ((s &&& 1) <<< 29)) >>> 30) + (s >>> 1)) l) := rfl
      have h0 : (0 : Int) ≤ (low 30 (t + ((s &&& 1) <<< 29))).toNat := Int.natCast_nonneg _
      rw [hcons, List.length_cons, Nat.mul_succ, pow_add, mul_comm _ (2 ^ 30)] at h
      exact lt_of_mul_lt_mul_left (lt_of_le_of_lt (le_add_of_nonneg_left h0) h) (by norm_num)

section
variable {p : Modulus} {x : Bignum256} {v : ZMod p.n}

/-- the sums that `bn_mult_half` halves -/
theorem num_halfSums (hx : Normal x) :
    num (List.zipWith (fun a b => a + (b &&& -(limb x 0 &&& 1))) x p.prime)
      = num x + ((limb x 0).toNat % 2 : Nat) * p.n ∧
    ∀ s ∈ List.zipWith (fun a b => a + (b &&& -(limb x 0 &&& 1))) x p.prime, s.toNat < 2 ^ 31 := by
  have hbit : limb x 0 &&& 1 = BitVec.ofNat 32 ((limb x 0).toNat % 2) := by
    apply BitVec.eq_of_toNat_eq
    rw [BitVec.toNat_and, BitVec.toNat_ofNat, Nat.mod_eq_of_lt (by omega)]
    exact Nat.and_one_is_mod _
  have hmask : ∀ b : BitVec 32, (b &&& -(limb x 0 &&& 1)).toNat = (limb x 0).toNat % 2 * b.toNat := by
    intro b
    rw [hbit]
    rcases Nat.mod_two_eq_zero_or_one (limb x 0).toNat with h | h
    · have hzero : -BitVec.ofNat 32 0 = 0#32 := by decide
      rw [h, hzero, BitVec.and_zero, Nat.zero_mul]
      rfl
    · have hones : -BitVec.ofNat 32 1 = BitVec.allOnes 32 := by decide
      rw [h, hones, BitVec.and_allOnes, Nat.one_mul]
  have hlt : ∀ q ∈ x.zip p.prime, q.1.toNat < 2 ^ 30 ∧ (limb x 0).toNat % 2 * q.2.toNat < 2 ^ 30 := by
    intro q hq
    have h := hx.of_zip p.normal hq
    refine ⟨h.1, lt_of_le_of_lt (Nat.mul_le_mul_right _ (show _ ≤ 1 by omega)) ?_⟩
    rw [Nat.one_mul]
    exact h.2
  have hword : ∀ q ∈ x.zip p.prime, (q.1 + (q.2 &&& -(limb x 0 &&& 1))).toNat
      = q.1.toNat + (limb x 0).toNat % 2 * q.2.toNat := by
    intro q hq
    have h := hlt q hq
    rw [BitVec.toNat_add, hmask, Nat.mod_eq_of_lt (by omega)]
  have hterm : ∀ q ∈ x.zip p.prime, ((q.1 + (q.2 &&& -(limb x 0 &&& 1))).toNat : Int)
      = q.1.toNat + ((limb x 0).toNat % 2 : Nat) * q.2.toNat := by
    intro q hq
    rw [hword q hq, Nat.cast_add, Nat.cast_mul]
  constructor
  · rw [num, value, weigh_zipWith, weigh_congr hterm, weigh_add, weigh_mul, weigh_left hx p.normal,
      weigh_right hx p.normal, p.num_eq]
  · intro s hs
    rw [← List.map_uncurry_zip_eq_zipWith] at hs
    obtain ⟨q, hq, rfl⟩ := List.mem_map.mp hs
    have h := hlt q hq
    show (q.1 + (q.2 &&& -(limb x 0 &&& 1))).toNat < 2 ^ 31
    rw [hword q hq]
    omega

/-- the first limb tells odd from even -/
theorem limb_zero_mod (a : Bignum256) (h : a ≠ []) : ((limb a 0).toNat : Int) % 2 = num a % 2 := by
  cases a with
  | nil => exact absurd rfl h
  | cons s l =>
    show (s.toNat : Int) % 2 = (s.toNat + 2 ^ 30 * num l) % 2
    omega

theorem num_bnMultHalf (hx : Normal x) :
    2 * num (bnMultHalf x p.prime) = num x + ((limb x 0).toNat % 2 : Nat) * p.n := by
  obtain ⟨hsum, hlt⟩ := num_halfSums (p := p) hx
  have hlen : (List.zipWith (fun a b => a + (b &&& -(limb x 0 &&& 1))) x p.prime).length = 9 := by
    rw [List.length_zipWith, hx.length, p.normal.length]
    rfl
  have hodd := p.odd
  have hpar : (num x + ((limb x 0).toNat % 2 : Nat) * p.n) % 2 = 0 := by
    have hne : x ≠ [] := by
      intro h
      have := hx.length
      rw [h] at this
      exact absurd this (by decide)
    have hx0 := limb_zero_mod x hne
    rcases Nat.mod_two_eq_zero_or_one (limb x 0).toNat with h | h
    · rw [h]
      push_cast
      omega
    · rw [h]
      push_cast
      omega
  have hdef : bnMultHalf x p.prime = multHalfLoop
      (limb (List.zipWith (fun a b => a + (b &&& -(limb x 0 &&& 1))) x p.prime) 0 >>> 1)
      (List.zipWith (fun a b => a + (b &&& -(limb x 0 &&& 1))) x p.prime).tail := rfl
  rw [hdef]
  rw [← hsum] at hpar ⊢
  generalize List.zipWith (fun a b => a + (b &&& -(limb x 0 &&& 1))) x p.prime = sums at *
  cases sums with
  | nil => exact absurd hlen (by decide)
  | cons s l =>
    have hs := hlt s List.mem_cons_self
    have hshift : (s >>> 1).toNat = s.toNat / 2 := by
      rw [BitVec.toNat_ushiftRight, Nat.shiftRight_eq_div_pow]
    show 2 * num (multHalfLoop (s >>> 1) l) = s.toNat + 2 ^ 30 * num l
    have hcons : num (s :: l) = s.toNat + 2 ^ 30 * num l := rfl
    rw [num_multHalfLoop (by omega) fun r hr => hlt r (List.mem_cons_of_mem s hr), hshift]
    rw [hcons] at hpar
    push_cast
    omega

/-- **Half of a residue.** -/
theorem Rep.bnMultHalf {m : Nat} (hx : Rep p m x v) (h1 : 1 ≤ m) (hm : m ≤ 2 ^ 14) :
    ∃ u, 2 * u = v ∧ Rep p m (bnMultHalf x p.prime) u := by
  have hup := p.upper_int
  have hpos := p.pos
  have hnum := num_bnMultHalf (p := p) hx.normal
  have hm1 : (1 : Int) * p.n ≤ m * p.n :=
    mul_le_mul_of_nonneg_right (by exact_mod_cast h1) hpos.le
  have hm2 : (m : Int) * p.n ≤ 2 ^ 14 * 2 ^ 256 :=
    mul_le_mul (by exact_mod_cast hm) hup.le hpos.le (by norm_num)
  have hlt : num (MTower.Curve.bnMultHalf x p.prime) < m * p.n := by
    have hxlt := hx.lt
    rcases Nat.mod_two_eq_zero_or_one (limb x 0).toNat with h | h
    · rw [h] at hnum
      push_cast at hnum
      linarith
    · rw [h] at hnum
      push_cast at hnum
      linarith
  have hsums : (List.zipWith (fun a b => a + (b &&& -(limb x 0 &&& 1))) x p.prime).length = 9 := by
    rw [List.length_zipWith, hx.normal.length, p.normal.length]
    rfl
  have htail : (List.zipWith (fun a b => a + (b &&& -(limb x 0 &&& 1))) x p.prime).tail.length = 8 := by
    rw [List.length_tail, hsums]
  refine ⟨((num (MTower.Curve.bnMultHalf x p.prime) : Int) : ZMod p.n), ?_, ⟨?_, ?_⟩, hlt, rfl⟩
  · have hcast := congrArg (fun z : Int => (z : ZMod p.n)) hnum
    push_cast at hcast
    rw [ZMod.natCast_self, mul_zero, add_zero, hx.eq] at hcast
    exact hcast
  · show (multHalfLoop _ _).length = 9
    rw [length_multHalfLoop, htail]
  · apply digits_multHalfLoop
    rw [htail]
    refine lt_of_lt_of_le hlt (hm2.trans ?_)
    rw [← pow_add]

end

/-! ## doubles -/

/-- one limb of `bn_lshift` -/
theorem toNat_lshift {a below : BitVec 32} (hb : below.toNat < 2 ^ 30) :
    (((a <<< 1) &&& 0x3FFFFFFF#32) ||| ((below &&& 0x20000000#32) >>> 29)).toNat
      = 2 * (a.toNat % 2 ^ 29) + below.toNat / 2 ^ 29 := by
  have h1 : ((a <<< 1) &&& 0x3FFFFFFF#32).toNat = (a.toNat % 2 ^ 29) <<< 1 := by
    rw [BitVec.toNat_and, BitVec.toNat_shiftLeft, Nat.shiftLeft_eq, Nat.shiftLeft_eq]
    show a.toNat * 2 ^ 1 % 2 ^ 32 &&& 2 ^ 30 - 1 = _
    rw [Nat.and_two_pow_sub_one_eq_mod]
    omega
  have h2 : ((below &&& 0x20000000#32) >>> 29).toNat = below.toNat / 2 ^ 29 := by
    rw [BitVec.toNat_ushiftRight, BitVec.toNat_and, Nat.shiftRight_eq_div_pow]
    show (below.toNat &&& 2 ^ 29) / 2 ^ 29 = _
    rw [Nat.and_two_pow, Nat.mul_div_cancel _ (by norm_num), Nat.toNat_testBit]
    omega
  have hbit : below.toNat / 2 ^ 29 < 2 ^ 1 := by omega
  rw [BitVec.toNat_or, h1, h2, ← Nat.shiftLeft_add_eq_or_of_lt hbit, Nat.shiftLeft_eq]
  ring

/-- the shift of a row, with the bit that comes in from below and the one that goes out -/
theorem num_lshift {a : Bignum256} {c : BitVec 32} (ha : ∀ x ∈ a, x.toNat < 2 ^ 30)
    (hc : c.toNat < 2 ^ 30) :
    (∃ top : Nat, num (List.zipWith (fun x below : BitVec 32 =>
        ((x <<< 1) &&& 0x3FFFFFFF#32) ||| ((below &&& 0x20000000#32) >>> 29)) a (c :: a))
        + 2 ^ (30 * a.length) * top = 2 * num a + (c.toNat / 2 ^ 29 : Nat)) ∧
      ∀ y ∈ List.zipWith (fun x below : BitVec 32 =>
        ((x <<< 1) &&& 0x3FFFFFFF#32) ||| ((below &&& 0x20000000#32) >>> 29)) a (c :: a),
        y.toNat < 2 ^ 30 := by
  induction a generalizing c with
  | nil =>
    refine ⟨⟨c.toNat / 2 ^ 29, ?_⟩, fun y hy => absurd hy List.not_mem_nil⟩
    show (0 : Int) + 2 ^ (30 * 0) * _ = 2 * 0 + _
    rw [mul_zero, pow_zero, one_mul, mul_zero]
  | cons x a ih =>
    have hx := ha x List.mem_cons_self
    obtain ⟨⟨top, htop⟩, hdigits⟩ := ih (fun y hy => ha y (List.mem_cons_of_mem x hy)) hx
    have hword := toNat_lshift (a := x) hc
    constructor
    · refine ⟨top, ?_⟩
      rw [List.zipWith_cons_cons, List.length_cons, Nat.mul_succ, pow_add]
      show ((((x <<< 1) &&& 0x3FFFFFFF#32) ||| ((c &&& 0x20000000#32) >>> 29)).toNat : Int)
        + 2 ^ 30 * num _ + _ = 2 * (x.toNat + 2 ^ 30 * num a) + _
      have hsplit : ((2 * (x.toNat % 2 ^ 29) + c.toNat / 2 ^ 29 : Nat) : Int)
          + 2 ^ 30 * (x.toNat / 2 ^ 29 : Nat) = 2 * x.toNat + (c.toNat / 2 ^ 29 : Nat) := by
        omega
      rw [hword]
      linear_combination 2 ^ 30 * htop + hsplit
    · intro y hy
      rw [List.zipWith_cons_cons, List.mem_cons] at hy
      cases hy with
      | inl hy =>
        rw [hy, hword]
        omega
      | inr hy => exact hdigits y hy

theorem Rep.bnLshift {p : Modulus} {m : Nat} {x : Bignum256} {v : ZMod p.n} (hx : Rep p m x v)
    (hm : 2 * m ≤ 2 ^ 14) : Rep p (2 * m) (bnLshift x) (2 * v) := by
  have hup := p.upper_int
  have hpos := p.pos
  obtain ⟨⟨top, htop⟩, hdigits⟩ := num_lshift (c := 0) hx.normal.digits (by decide)
  have hm2 : ((2 * m : Nat) : Int) * p.n ≤ 2 ^ 14 * 2 ^ 256 :=
    mul_le_mul (by exact_mod_cast hm) hup.le hpos.le (by norm_num)
  have hlt : 2 * num x < ((2 * m : Nat) : Int) * p.n := by
    have h := hx.lt
    push_cast
    linarith
  have h0 := num_nonneg (MTower.Curve.bnLshift x)
  have hnum : num (MTower.Curve.bnLshift x) = 2 * num x := by
    rw [hx.normal.length, show 30 * 9 = 14 + 256 from rfl, pow_add,
      show ((0 : BitVec 32).toNat / 2 ^ 29 : Nat) = 0 from rfl] at htop
    have htop' : num (MTower.Curve.bnLshift x) + 2 ^ 14 * 2 ^ 256 * top = 2 * num x := by
      rw [← add_zero (2 * num x)]
      exact htop
    omega
  refine ⟨⟨?_, hdigits⟩, ?_, ?_⟩
  · rw [MTower.Curve.bnLshift, List.length_zipWith, List.length_cons, hx.normal.length]
    rfl
  · rw [hnum]
    exact hlt
  · rw [hnum]
    push_cast
    rw [hx.eq]

/-! ## negation -/

theorem limb_top_lt {p : Modulus} {x : Bignum256} {v : ZMod p.n} (h : Rep p 2 x v) :
    limb x 8 < 0x20000#32 := by
  have htop := num_top h.normal.length
  have h0 := num_nonneg (x.take 8)
  have hlt := h.lt
  have hup := p.upper_int
  push_cast at hlt
  rw [BitVec.lt_def]
  show (limb x 8).toNat < 2 ^ 17
  omega

/-- `conditional_negate` is a subtraction from nothing -/
theorem negated_row {n : Nat} {prime a : Bignum256} (h : prime.length ≤ n) :
    List.zipWith (fun q x => 0x3FFFFFFF#32 + 2 * q - x) prime a
      = ((List.replicate n 0).zip (prime.zip a)).map
          fun q => 0x3FFFFFFF#32 + q.1 + 2 * q.2.1 - q.2.2 := by
  induction prime generalizing a n with
  | nil => rw [List.zipWith_nil_left, List.zip_nil_left, List.zip_nil_right, List.map_nil]
  | cons q prime ih =>
    cases a with
    | nil => rw [List.zipWith_nil_right, List.zip_nil_right, List.zip_nil_right, List.map_nil]
    | cons x a =>
      cases n with
      | zero => exact absurd h (by simp)
      | succ n =>
        rw [List.length_cons, Nat.succ_le_succ_iff] at h
        rw [List.zipWith_cons_cons, ih h, List.replicate_succ, List.zip_cons_cons,
          List.zip_cons_cons, List.map_cons]
        rfl

theorem rep_bnZero (p : Modulus) : Rep p 1 bnZero 0 := by
  have hnum : num bnZero = 0 := by decide
  refine ⟨⟨rfl, ?_⟩, ?_, ?_⟩
  · intro x hx
    rw [List.eq_of_mem_replicate hx]
    decide
  · rw [hnum, Nat.cast_one, one_mul]
    exact p.pos
  · rw [hnum, Int.cast_zero]

/-- **Negation of a residue that is not zero.** -/
theorem Rep.conditionalNegate {p : Modulus} {x : Bignum256} {v : ZMod p.n} (h : Rep p 2 x v)
    (hv : v ≠ 0) (cond : Bool) : ∃ y, conditionalNegate cond x p.prime = some y ∧
      Rep p 2 y (if cond then -v else v) := by
  have hpos : 0 < num x := by
    refine lt_of_le_of_ne (num_nonneg x) ?_
    intro h0
    apply hv
    rw [← h.eq, ← h0, Int.cast_zero]
  have hsub := (rep_bnZero p).subtractmod_eq h (by norm_num)
  have rsub := (rep_bnZero p).bnSubtractmod h (by norm_num)
  have rneg : Rep p 2 (MTower.Curve.bnSubtractmod bnZero x p.prime) (-v) := by
    refine ⟨rsub.normal, ?_, ?_⟩
    · rw [hsub, show num bnZero = 0 by decide]
      push_cast
      linarith
    · rw [rsub.eq, zero_sub]
  have hrow : (sweep 30 1 (List.zipWith (fun q x => 0x3FFFFFFF#32 + 2 * q - x) p.prime x)).1
      = MTower.Curve.bnSubtractmod bnZero x p.prime := by
    rw [negated_row (n := 9) p.normal.length.le]
    rfl
  have rsel : Rep p 2 (bnCmov cond (MTower.Curve.bnSubtractmod bnZero x p.prime) x)
      (if cond then -v else v) := by
    rw [bnCmov_eq (rneg.normal.length.trans h.normal.length.symm)]
    cases cond
    · exact h
    · exact rneg
  refine ⟨bnCmov cond (MTower.Curve.bnSubtractmod bnZero x p.prime) x, ?_, rsel⟩
  rw [MTower.Curve.conditionalNegate, hrow, guard, if_pos (limb_top_lt h), pure_bind]
  dsimp only
  rw [guard, if_pos (limb_top_lt rsel), pure_bind]
  rfl

/-! ## the test for a difference that is nothing -/

theorem eq_zero_iff_dvd {p : Modulus} {x : Bignum256} {m : Nat} {v : ZMod p.n} (h : Rep p m x v) :
    v = 0 ↔ (p.n : Int) ∣ num x := by
  rw [← h.eq]
  exact ZMod.intCast_zmod_eq_zero_iff_dvd _ _

/-- A positive multiple of the prime is taken to the prime itself, never to zero. -/
theorem bnIsEqual_prime {p : Modulus} {x : Bignum256} {v : ZMod p.n} (h : Rep p 4 x v)
    (hpos : 0 < num x) : bnIsEqual (bnFastMod x p.prime) p.prime = true ↔ v = 0 := by
  have hlo := p.lower_int
  have hup := p.upper_int
  have hfast := h.bnFastMod
  have hnum := num_bnFastMod p h.normal.length
  rw [bnIsEqual_iff hfast.normal.length p.normal.length]
  constructor
  · intro heq
    rw [eq_zero_iff_dvd hfast, heq, p.num_eq]
  · intro hv
    obtain ⟨q, hq⟩ := (eq_zero_iff_dvd h).mp hv
    have hlt := h.lt
    push_cast at hlt
    have hq0 : 0 < q := by
      by_contra hle
      have hneg : (p.n : Int) * q ≤ 0 := mul_nonpos_of_nonneg_of_nonpos p.pos.le (not_lt.mp hle)
      omega
    have hq4 : q < 4 := by
      rw [hq, mul_comm] at hlt
      exact lt_of_mul_lt_mul_right hlt p.pos.le
    have htop := num_top h.normal.length
    have hlow0 := num_nonneg (x.take 8)
    have hlow : num (x.take 8) < 2 ^ 240 := by
      have hl := value_lt (b := 30) (l := x.take 8) fun y hy =>
        h.normal.digits y (List.mem_of_mem_take hy)
      rwa [List.length_take, h.normal.length] at hl
    have hcoef : (fastCoef x : Int) = q - 1 := by
      have hq3 : q = 1 ∨ q = 2 ∨ q = 3 := by omega
      unfold fastCoef
      rcases hq3 with hq3 | hq3 | hq3 <;> rw [hq3] at hq ⊢ <;> omega
    apply value_inj (b := 30) (hfast.normal.length.trans p.normal.length.symm) hfast.normal.digits
      p.normal.digits
    show num (bnFastMod x p.prime) = num p.prime
    rw [hnum, hq, hcoef, p.num_eq]
    ring

/-! ## the formulas -/

section
variable {p : Modulus} {curve : EcdsaCurve}

/-- the curve over the prime, in the range that the assertions ask for -/
structure EcdsaCurve.Over (curve : EcdsaCurve) (p : Modulus) : Prop where
  prime : curve.prime = p.prime
  lower : -3 ≤ curve.a
  upper : curve.a ≤ 0

/-- a point with coordinates that stand for residues -/
structure Jac (p : Modulus) (jp : JacobianCurvePoint) (X Y Z : ZMod p.n) : Prop where
  x : Rep p 2 jp.x X
  y : Rep p 2 jp.y Y
  z : Rep p 2 jp.z Z

structure Aff (p : Modulus) (cp : CurvePoint) (x y : ZMod p.n) : Prop where
  x : Rep p 2 cp.x x
  y : Rep p 2 cp.y y

theorem aff_to_jac {cp : CurvePoint} {z : Bignum256} {x y Z : ZMod p.n} (h : Aff p cp x y)
    (hz : Rep p 2 z Z) :
    ∃ q, curveToJacobian cp z p.prime = some q ∧ Jac p q (x * Z ^ 2) (y * Z ^ 3) Z := by
  obtain ⟨z2, hz2, r2⟩ := hz.bnMultiply hz (by norm_num) (by norm_num)
  obtain ⟨z3, hz3, r3⟩ := hz.bnMultiply r2 (by norm_num) (by norm_num)
  obtain ⟨qx, hqx, rx⟩ := h.x.bnMultiply r2 (by norm_num) (by norm_num)
  obtain ⟨qy, hqy, ry⟩ := h.y.bnMultiply r3 (by norm_num) (by norm_num)
  have ex : x * (Z * Z) = x * Z ^ 2 := by ring
  have ey : y * (Z * (Z * Z)) = y * Z ^ 3 := by ring
  refine ⟨⟨qx, qy, z⟩, ?_, ex ▸ rx, ey ▸ ry, hz⟩
  simp [curveToJacobian, hz2, hz3, hqx, hqy]

theorem EcdsaCurve.Over.minusA (hc : curve.Over p) :
    curve.minusA.toNat ≤ 4 ∧ (curve.minusA.toNat : ZMod p.n) = -(curve.a : ZMod p.n) := by
  have hlo := hc.lower
  have hup := hc.upper
  unfold EcdsaCurve.minusA
  have hcases : curve.a = -3 ∨ curve.a = -2 ∨ curve.a = -1 ∨ curve.a = 0 := by omega
  rcases hcases with h | h | h | h <;> rw [h] <;> refine ⟨by decide, ?_⟩
  · show ((3 : Nat) : ZMod p.n) = _
    push_cast
    ring
  · show ((2 : Nat) : ZMod p.n) = _
    push_cast
    ring
  · show ((1 : Nat) : ZMod p.n) = _
    push_cast
    ring
  · show ((0 : Nat) : ZMod p.n) = _
    push_cast
    ring

/-- **Doubling.**  No assertion fails, and the result is that of the formulas. -/
theorem jacobian_double {jp : JacobianCurvePoint} {X Y Z : ZMod p.n} (hc : curve.Over p)
    (h : Jac p jp X Y Z) : ∃ q m, pointJacobianDouble jp curve = some q ∧
      2 * m = 3 * X ^ 2 + curve.a * Z ^ 4 ∧
      Jac p q (m ^ 2 - 2 * (X * Y ^ 2)) (m * (X * Y ^ 2 - (m ^ 2 - 2 * (X * Y ^ 2))) - Y ^ 4)
        (Y * Z) := by
  obtain ⟨hle, hminus⟩ := hc.minusA
  obtain ⟨xx, hxx, rxx⟩ := h.x.bnMultiply h.x (by norm_num) (by norm_num)
  obtain ⟨zz, hzz, rzz⟩ := h.z.bnMultiply h.z (by norm_num) (by norm_num)
  obtain ⟨z4, hz4, rz4⟩ := rzz.bnMultiply rzz (by norm_num) (by norm_num)
  have r3 := rxx.bnMultK (k := 3#8) (by decide)
  have raz := rz4.bnMultK hle
  obtain ⟨m, hm, rm⟩ := (r3.bnSubtractmod raz (by norm_num)).bnMultHalf (by norm_num) (by norm_num)
  obtain ⟨msq, hmsq, rmsq⟩ := rm.bnMultiply rm (by norm_num) (by norm_num)
  obtain ⟨ysq, hysq, rysq⟩ := h.y.bnMultiply h.y (by norm_num) (by norm_num)
  obtain ⟨xysq, hxysq, rxysq⟩ := rysq.bnMultiply h.x (by norm_num) (by norm_num)
  obtain ⟨z, hz, rz⟩ := h.y.bnMultiply h.z (by norm_num) (by norm_num)
  have rx := (rmsq.bnSubtractmod (rxysq.bnLshift (by norm_num)).bnFastMod (by norm_num)).bnFastMod
  obtain ⟨my, hmy, rmy⟩ := rm.bnMultiply (rxysq.bnSubtractmod rx (by norm_num)) (by norm_num)
    (by norm_num)
  obtain ⟨y4, hy4, ry4⟩ := rysq.bnMultiply rysq (by norm_num) (by norm_num)
  have ry := (rmy.bnSubtractmod ry4 (by norm_num)).bnFastMod
  have ex : m * m - 2 * (Y * Y * X) = m ^ 2 - 2 * (X * Y ^ 2) := by ring
  have ey : m * (Y * Y * X - (m * m - 2 * (Y * Y * X))) - Y * Y * (Y * Y)
      = m * (X * Y ^ 2 - (m ^ 2 - 2 * (X * Y ^ 2))) - Y ^ 4 := by ring
  refine ⟨⟨bnFastMod (bnSubtractmod msq (bnFastMod (bnLshift xysq) p.prime) p.prime) p.prime,
    bnFastMod (bnSubtractmod my y4 p.prime) p.prime, z⟩, m, ?_, ?_, ?_⟩
  · simp [pointJacobianDouble, guard, hc.prime, hc.lower, hc.upper, hxx, hzz, hz4, hmsq, hysq,
      hxysq, hz, hmy, hy4]
  · rw [hm, hminus, show (3#8).toNat = 3 from rfl]
    push_cast
    ring
  · exact ⟨ex ▸ rx, ey ▸ ry, rz⟩

/-- the sum of `r`, `h` and the two sums of coordinates -/
theorem addTail_spec {r h xz yz z : Bignum256} {R H U V Z : ZMod p.n} (hr : Rep p 4 r R)
    (hh : Rep p 4 h H) (hxz : Rep p 4 xz U) (hyz : Rep p 4 yz V) (hz : Rep p 2 z Z) :
    ∃ q y3, addTail p.prime r h xz yz z = some q ∧
      2 * y3 = R * (H ^ 2 * U - 2 * (R ^ 2 - H ^ 2 * U)) - H ^ 3 * V ∧
      Jac p q (R ^ 2 - H ^ 2 * U) y3 (H * Z) := by
  obtain ⟨hsq, ehsq, rhsq⟩ := hh.bnMultiply hh (by norm_num) (by norm_num)
  obtain ⟨hcb, ehcb, rhcb⟩ := rhsq.bnMultiply hh (by norm_num) (by norm_num)
  obtain ⟨hsqx, ehsqx, rhsqx⟩ := hxz.bnMultiply rhsq (by norm_num) (by norm_num)
  obtain ⟨hcby, ehcby, rhcby⟩ := hyz.bnMultiply rhcb (by norm_num) (by norm_num)
  obtain ⟨z3, ez3, rz3⟩ := hh.bnMultiply hz (by norm_num) (by norm_num)
  obtain ⟨rr, err, rrr⟩ := hr.bnMultiply hr (by norm_num) (by norm_num)
  have rx := (rrr.bnSubtractmod rhsqx (by norm_num)).bnFastMod
  have ry := (rhsqx.bnSubtractmod rx (by norm_num)).bnSubtractmod rx (by norm_num)
  obtain ⟨y, ey, ry2⟩ := hr.bnMultiply ry (by norm_num) (by norm_num)
  obtain ⟨y3, hy3, ry3⟩ := (ry2.bnSubtractmod rhcby (by norm_num)).bnMultHalf (by norm_num)
    (by norm_num)
  have ex : R * R - U * (H * H) = R ^ 2 - H ^ 2 * U := by ring
  refine ⟨⟨bnFastMod (bnSubtractmod rr hsqx p.prime) p.prime,
    bnFastMod (bnMultHalf (bnSubtractmod y hcby p.prime) p.prime) p.prime, z3⟩, y3, ?_, ?_, ?_⟩
  · simp [addTail, ehsq, ehcb, ehsqx, ehcby, ez3, err, ey]
  · rw [hy3]
    ring
  · exact ⟨ex ▸ rx, ry3.bnFastMod, rz3⟩

/-- the two branches on `a` -/
theorem addR2_spec (hc : curve.Over p) {zz r2 : Bignum256} {Z S : ZMod p.n}
    (hzz : Rep p 2 zz (Z * Z)) (hr2 : Rep p 2 r2 S) :
    ∃ az, addAz curve zz = some az ∧ Rep p 4 (addR2 curve r2 az) (S + curve.a * Z ^ 4) := by
  obtain ⟨hle, hminus⟩ := hc.minusA
  unfold addAz addR2
  by_cases ha : curve.a = 0
  · refine ⟨zz, if_pos ha, ?_⟩
    rw [if_pos ha, ha, Int.cast_zero, zero_mul, add_zero]
    exact hr2.mono (by norm_num)
  · obtain ⟨z4, hz4, rz4⟩ := hzz.bnMultiply hzz (by norm_num) (by norm_num)
    have raz := rz4.bnMultK hle
    have hsum : S - (curve.minusA.toNat : ZMod p.n) * (Z * Z * (Z * Z)) = S + curve.a * Z ^ 4 := by
      rw [hminus]
      ring
    refine ⟨bnMultK z4 curve.minusA p.prime, ?_, ?_⟩
    · rw [if_neg ha, hc.prime, hz4]
      rfl
    · rw [if_neg ha, hc.prime, ← hsum]
      exact hr2.bnSubtractmod raz (by norm_num)

/-- `point_jacobian_add` up to its conditional moves -/
theorem pointJacobianAdd_run {cp : CurvePoint} {jp : JacobianCurvePoint}
    {zz zzz az xz yz xx : Bignum256} (hc : curve.Over p)
    (hzz : bnMultiply jp.z jp.z p.prime = some zz) (hzzz : bnMultiply zz jp.z p.prime = some zzz)
    (haz : addAz curve zz = some az) (hxz : bnMultiply cp.x zz p.prime = some xz)
    (hyz : bnMultiply cp.y zzz p.prime = some yz) (hxx : bnMultiply jp.x jp.x p.prime = some xx) :
    pointJacobianAdd cp jp curve = addTail p.prime
      (bnCmov (bnIsEqual (bnFastMod (bnSubtractmod xz jp.x p.prime) p.prime) p.prime)
        (addR2 curve (bnMultK xx 3#8 p.prime) az) (bnSubtractmod yz jp.y p.prime))
      (bnCmov (bnIsEqual (bnFastMod (bnSubtractmod xz jp.x p.prime) p.prime) p.prime)
        (bnAdd yz jp.y) (bnFastMod (bnSubtractmod xz jp.x p.prime) p.prime))
      (bnAdd xz jp.x) (bnAdd yz jp.y) jp.z := by
  rw [pointJacobianAdd, guard, if_pos (And.intro hc.lower hc.upper), hc.prime, pure_bind]
  dsimp only
  rw [hzz, Option.bind_eq_bind, Option.bind_some, hzzz, Option.bind_some, haz, Option.bind_some,
    hxz, Option.bind_some, hyz, Option.bind_some, hxx, Option.bind_some]

/-- **Addition of an affine point.**  No assertion fails, and the result is that of the formulas;
they are those of doubling when the first coordinates agree. -/
theorem jacobian_add {cp : CurvePoint} {jp : JacobianCurvePoint} {x1 y1 X Y Z : ZMod p.n}
    (hc : curve.Over p) (h1 : Aff p cp x1 y1) (h : Jac p jp X Y Z) :
    ∃ q H R y3, pointJacobianAdd cp jp curve = some q ∧
      (x1 * Z ^ 2 = X → H = y1 * Z ^ 3 + Y ∧ R = 3 * X ^ 2 + curve.a * Z ^ 4) ∧
      (x1 * Z ^ 2 ≠ X → H = x1 * Z ^ 2 - X ∧ R = y1 * Z ^ 3 - Y) ∧
      2 * y3 = R * (H ^ 2 * (x1 * Z ^ 2 + X) - 2 * (R ^ 2 - H ^ 2 * (x1 * Z ^ 2 + X)))
        - H ^ 3 * (y1 * Z ^ 3 + Y) ∧
      Jac p q (R ^ 2 - H ^ 2 * (x1 * Z ^ 2 + X)) y3 (H * Z) := by
  obtain ⟨zz, hzz, rzz⟩ := h.z.bnMultiply h.z (by norm_num) (by norm_num)
  obtain ⟨zzz, hzzz, rzzz⟩ := rzz.bnMultiply h.z (by norm_num) (by norm_num)
  obtain ⟨xz, hxz, rxz⟩ := h1.x.bnMultiply rzz (by norm_num) (by norm_num)
  obtain ⟨yz, hyz, ryz⟩ := h1.y.bnMultiply rzzz (by norm_num) (by norm_num)
  obtain ⟨xx, hxx, rxx⟩ := h.x.bnMultiply h.x (by norm_num) (by norm_num)
  have r3 := rxx.bnMultK (k := 3#8) (by decide)
  obtain ⟨az, haz, rr2⟩ := addR2_spec hc rzz r3
  have rd := rxz.bnSubtractmod h.x (by norm_num)
  have rr := ryz.bnSubtractmod h.y (by norm_num)
  have rxs := rxz.bnAdd h.x (by norm_num)
  have rys := ryz.bnAdd h.y (by norm_num)
  have e2 : x1 * (Z * Z) = x1 * Z ^ 2 := by ring
  have e3 : y1 * (Z * Z * Z) = y1 * Z ^ 3 := by ring
  have e4 : ((3#8).toNat : ZMod p.n) * (X * X) + curve.a * Z ^ 4
      = 3 * X ^ 2 + curve.a * Z ^ 4 := by
    rw [show (3#8).toNat = 3 from rfl]
    push_cast
    ring
  rw [e2] at rd rxs
  rw [e3] at rr rys
  rw [e4] at rr2
  have htest := bnIsEqual_prime rd (rxz.subtractmod_pos h.x (by norm_num))
  have hlenH : (bnAdd yz jp.y).length
      = (bnFastMod (bnSubtractmod xz jp.x p.prime) p.prime).length :=
    rys.normal.length.trans rd.bnFastMod.normal.length.symm
  have hlenR : (addR2 curve (bnMultK xx 3#8 p.prime) az).length
      = (bnSubtractmod yz jp.y p.prime).length :=
    rr2.normal.length.trans rr.normal.length.symm
  have hrun := pointJacobianAdd_run hc hzz hzzz haz hxz hyz hxx
  by_cases hx : x1 * Z ^ 2 = X
  · have hd := htest.mpr (sub_eq_zero.mpr hx)
    rw [hd, bnCmov_eq hlenR, bnCmov_eq hlenH, if_pos rfl, if_pos rfl] at hrun
    obtain ⟨q, y3, hq, hy3, hjac⟩ := addTail_spec rr2 rys rxs rys h.z
    exact ⟨q, _, _, y3, hrun.trans hq, fun _ => ⟨rfl, rfl⟩, fun hne => absurd hx hne, hy3, hjac⟩
  · have hd : bnIsEqual (bnFastMod (bnSubtractmod xz jp.x p.prime) p.prime) p.prime = false := by
      rw [Bool.eq_false_iff]
      exact fun hd => hx (sub_eq_zero.mp (htest.mp hd))
    rw [hd, bnCmov_eq hlenR, bnCmov_eq hlenH, if_neg Bool.false_ne_true,
      if_neg Bool.false_ne_true] at hrun
    obtain ⟨q, y3, hq, hy3, hjac⟩ :=
      addTail_spec rr (rd.bnFastMod.mono (by norm_num)) rxs rys h.z
    exact ⟨q, _, _, y3, hrun.trans hq, fun heq => absurd heq hx, fun _ => ⟨rfl, rfl⟩, hy3, hjac⟩

end

end MTower.Curve
