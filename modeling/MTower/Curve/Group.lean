import MTower.Curve.Jacobian

/-!
# Jacobian points and the group of the curve

* `Stands`         the point of the curve that three coordinates stand for;
* `double_point`, `add_point`, `negate_point`   the functions compute in the group;
* `Step`, `ladder_from_affine`  a run of doublings and additions, the loop of `point_multiply`.
-/

set_option linter.unusedVariables false

namespace MTower.Curve
open WeierstrassCurve Lib.Limbs

section
variable {p : Modulus}

/-- `y ^ 2 = x ^ 3 + a * x + b` -/
def EcdsaCurve.over (curve : EcdsaCurve) (p : Modulus) (b : ZMod p.n) : Affine (ZMod p.n) :=
  ⟨0, 0, 0, curve.a, b⟩

/-- the coordinates stand for a point of the curve other than infinity -/
def Stands (W : Affine (ZMod p.n)) (jp : JacobianCurvePoint) (P : W.Point) : Prop :=
  ∃ (x y Z : ZMod p.n) (h : W.Nonsingular x y),
    P = Affine.Point.some x y h ∧ Z ≠ 0 ∧ Jac p jp (x * Z ^ 2) (y * Z ^ 3) Z

def StandsAffine (W : Affine (ZMod p.n)) (cp : CurvePoint) (P : W.Point) : Prop :=
  ∃ (x y : ZMod p.n) (h : W.Nonsingular x y), P = Affine.Point.some x y h ∧ Aff p cp x y

variable [Fact p.n.Prime] {curve : EcdsaCurve} {b : ZMod p.n}

theorem two_ne_zero_mod : (2 : ZMod p.n) ≠ 0 := by
  intro h
  have hdvd : p.n ∣ 2 := (ZMod.natCast_eq_zero_iff 2 p.n).mp (by exact_mod_cast h)
  have hle := Nat.le_of_dvd (by norm_num) hdvd
  have hlo := p.lower
  omega

theorem negY_over (x y : ZMod p.n) : (curve.over p b).negY x y = -y := by
  simp [Affine.negY, EcdsaCurve.over]

theorem addX_over (x1 x2 l : ZMod p.n) : (curve.over p b).addX x1 x2 l = l ^ 2 - x1 - x2 := by
  simp [Affine.addX, EcdsaCurve.over]

theorem addY_over (x1 x2 y1 l : ZMod p.n) :
    (curve.over p b).addY x1 x2 y1 l = l * (x1 - (l ^ 2 - x1 - x2)) - y1 := by
  rw [Affine.addY, negY_over, Affine.negAddY, addX_over]
  ring

/-- the slope of the line through two points, without a quotient -/
theorem slope_mul {x1 x2 y1 y2 : ZMod p.n} (hx : x1 ≠ x2) :
    (curve.over p b).slope x1 x2 y1 y2 * (x1 - x2) = y1 - y2 := by
  rw [Affine.slope_of_X_ne hx, div_mul_cancel₀ _ (sub_ne_zero.mpr hx)]

theorem slope_tangent {x y : ZMod p.n} (hy : y ≠ (curve.over p b).negY x y) :
    (curve.over p b).slope x x y y * (2 * y) = 3 * x ^ 2 + curve.a := by
  have hne : y - (curve.over p b).negY x y ≠ 0 := sub_ne_zero.mpr hy
  have hden : y - (curve.over p b).negY x y = 2 * y := by
    rw [negY_over]
    ring
  rw [Affine.slope_of_Y_ne rfl hy, ← hden, div_mul_cancel₀ _ hne]
  simp [EcdsaCurve.over]

/-- **Doubling in the group.** -/
theorem double_point {jp : JacobianCurvePoint} {P : (curve.over p b).Point} (hc : curve.Over p)
    (hP : Stands (curve.over p b) jp P) (hne : P + P ≠ 0) :
    ∃ q, pointJacobianDouble jp curve = some q ∧ Stands (curve.over p b) q (P + P) := by
  obtain ⟨x, y, Z, hns, rfl, hZ, hj⟩ := hP
  obtain ⟨q, m, hq, hm, hjac⟩ := jacobian_double hc hj
  have hy : y ≠ (curve.over p b).negY x y := by
    intro h
    exact hne (Affine.Point.add_self_of_Y_eq h)
  have hslope := slope_tangent hy
  have hy2 : 2 * y ≠ 0 := by
    rw [negY_over] at hy
    intro h
    exact hy (by linear_combination h)
  have hy0 : y ≠ 0 := right_ne_zero_of_mul hy2
  have hml : m = (curve.over p b).slope x x y y * (y * Z ^ 3 * Z) := by
    apply mul_left_cancel₀ (two_ne_zero_mod (p := p))
    linear_combination hm - Z ^ 4 * hslope
  have hsum : Affine.Point.some x y hns + Affine.Point.some x y hns = _ :=
    Affine.Point.add_self_of_Y_ne hy
  refine ⟨q, hq, _, _, y * Z ^ 3 * Z, _, hsum, ?_, ?_⟩
  · exact mul_ne_zero (mul_ne_zero hy0 (pow_ne_zero 3 hZ)) hZ
  · rw [addX_over, addY_over]
    generalize (curve.over p b).slope x x y y = l at hml
    have ex : m ^ 2 - 2 * (x * Z ^ 2 * (y * Z ^ 3) ^ 2)
        = (l ^ 2 - x - x) * (y * Z ^ 3 * Z) ^ 2 := by
      rw [hml]
      ring
    have ey : m * (x * Z ^ 2 * (y * Z ^ 3) ^ 2 - (m ^ 2 - 2 * (x * Z ^ 2 * (y * Z ^ 3) ^ 2)))
        - (y * Z ^ 3) ^ 4 = (l * (x - (l ^ 2 - x - x)) - y) * (y * Z ^ 3 * Z) ^ 3 := by
      rw [ex, hml]
      ring
    rw [← ex, ← ey]
    exact hjac

/-- **Addition in the group**, of an affine point and a Jacobian one. -/
theorem add_point {cp : CurvePoint} {jp : JacobianCurvePoint} {P Q : (curve.over p b).Point}
    (hc : curve.Over p) (hP : StandsAffine (curve.over p b) cp P)
    (hQ : Stands (curve.over p b) jp Q) (hne : P + Q ≠ 0) :
    ∃ q, pointJacobianAdd cp jp curve = some q ∧ Stands (curve.over p b) q (P + Q) := by
  obtain ⟨x1, y1, h1, rfl, ha⟩ := hP
  obtain ⟨x2, y2, Z, h2, rfl, hZ, hj⟩ := hQ
  obtain ⟨q, H, R, Y3, hq, hsame, hother, hY3, hjac⟩ := jacobian_add hc ha hj
  have hxy : ¬(x1 = x2 ∧ y1 = (curve.over p b).negY x2 y2) := by
    intro h
    exact hne (Affine.Point.add_of_Y_eq h.1 h.2)
  have hZ2 : Z ^ 2 ≠ 0 := pow_ne_zero 2 hZ
  have hZ3 : Z ^ 3 ≠ 0 := pow_ne_zero 3 hZ
  -- both branches take the slope of the group law
  obtain ⟨hR, hH, hline⟩ : R = (curve.over p b).slope x1 x2 y1 y2 * H * Z ∧ H ≠ 0 ∧
      (curve.over p b).slope x1 x2 y1 y2 * (x1 - x2) = y1 - y2 := by
    by_cases hx : x1 = x2
    · have hy := fun h => hxy ⟨hx, h⟩
      have heq := Affine.Y_eq_of_Y_ne h1.left h2.left hx hy
      subst hx heq
      obtain ⟨eH, eR⟩ := hsame rfl
      have hslope := slope_tangent hy
      have hy2 : 2 * y1 ≠ 0 := by
        rw [negY_over] at hy
        intro h
        exact hy (by linear_combination h)
      refine ⟨?_, ?_, by rw [sub_self, sub_self, mul_zero]⟩
      · rw [eH, eR]
        linear_combination -(Z ^ 4) * hslope
      · rw [eH]
        intro h
        exact mul_ne_zero hy2 hZ3 (by linear_combination h)
    · have hX : x1 * Z ^ 2 ≠ x2 * Z ^ 2 := fun h => hx (mul_right_cancel₀ hZ2 h)
      obtain ⟨eH, eR⟩ := hother hX
      have hslope : (curve.over p b).slope x1 x2 y1 y2 * (x1 - x2) = y1 - y2 := slope_mul hx
      refine ⟨?_, ?_, hslope⟩
      · rw [eH, eR]
        linear_combination -(Z ^ 3) * hslope
      · rw [eH]
        exact sub_ne_zero.mpr hX
  have hsum : Affine.Point.some x1 y1 h1 + Affine.Point.some x2 y2 h2 = _ :=
    Affine.Point.add_some hxy
  refine ⟨q, hq, _, _, H * Z, _, hsum, mul_ne_zero hH hZ, ?_⟩
  rw [addX_over, addY_over]
  generalize (curve.over p b).slope x1 x2 y1 y2 = l at hR hline
  have ex : R ^ 2 - H ^ 2 * (x1 * Z ^ 2 + x2 * Z ^ 2) = (l ^ 2 - x1 - x2) * (H * Z) ^ 2 := by
    rw [hR]
    ring
  have ey : Y3 = (l * (x1 - (l ^ 2 - x1 - x2)) - y1) * (H * Z) ^ 3 := by
    apply mul_left_cancel₀ (two_ne_zero_mod (p := p))
    rw [hY3, ex, hR]
    linear_combination -((H * Z) ^ 3) * hline
  rw [← ex, ← ey]
  exact hjac

/-- **Negation in the group**: the sign of `z` is that of the point. -/
theorem negate_point {jp : JacobianCurvePoint} {P : (curve.over p b).Point}
    (hP : Stands (curve.over p b) jp P) (cond : Bool) :
    ∃ z, conditionalNegate cond jp.z p.prime = some z ∧
      Stands (curve.over p b) { jp with z := z } (if cond then -P else P) := by
  obtain ⟨x, y, Z, hns, rfl, hZ, hj⟩ := hP
  obtain ⟨z, hz, rz⟩ := hj.z.conditionalNegate hZ cond
  refine ⟨z, hz, ?_⟩
  cases cond with
  | false => exact ⟨x, y, Z, hns, rfl, hZ, hj.x, hj.y, rz⟩
  | true =>
    have hneg : -Affine.Point.some x y hns = _ := Affine.Point.neg_some hns
    refine ⟨_, _, -Z, _, hneg, neg_ne_zero.mpr hZ, ?_, ?_, rz⟩
    · rw [neg_sq]
      exact hj.x
    · have ey : (curve.over p b).negY x y * (-Z) ^ 3 = y * Z ^ 3 := by
        rw [negY_over]
        ring
      rw [ey]
      exact hj.y

/-! ## runs -/

/-- a step of the loop: a doubling, a conditional negation of `z`, or the addition of an entry of
the table -/
inductive Step where
  | double
  | negate (cond : Bool)
  | add (cp : CurvePoint)

def Step.run (curve : EcdsaCurve) (jp : JacobianCurvePoint) : Step → Option JacobianCurvePoint
  | .double => pointJacobianDouble jp curve
  | .negate cond => do
    let z ← conditionalNegate cond jp.z curve.prime
    return { jp with z := z }
  | .add cp => pointJacobianAdd cp jp curve

/-- what the step does in the group -/
inductive Step.Does (W : Affine (ZMod p.n)) : Step → W.Point → W.Point → Prop where
  | double (P : W.Point) : Step.Does W .double P (P + P)
  | negate (cond : Bool) (P : W.Point) : Step.Does W (.negate cond) P (if cond then -P else P)
  | add {cp : CurvePoint} {T : W.Point} (h : StandsAffine W cp T) (P : W.Point) :
      Step.Does W (.add cp) P (T + P)

/-- a run in the group that never meets infinity -/
inductive Ladder (W : Affine (ZMod p.n)) : List Step → W.Point → W.Point → Prop where
  | nil (P : W.Point) : Ladder W [] P P
  | cons {s : Step} {l : List Step} {P Q R : W.Point} (h : s.Does W P Q) (hne : Q ≠ 0)
      (hl : Ladder W l Q R) : Ladder W (s :: l) P R

/-- a run from coordinates that stand for a point -/
theorem ladder_point {l : List Step} {jp : JacobianCurvePoint} {P R : (curve.over p b).Point}
    (hc : curve.Over p) (hP : Stands (curve.over p b) jp P) (hl : Ladder (curve.over p b) l P R) :
    ∃ q, l.foldlM (Step.run curve) jp = some q ∧ Stands (curve.over p b) q R := by
  induction hl generalizing jp with
  | nil P => exact ⟨jp, rfl, hP⟩
  | cons h hne hl ih =>
    cases h with
    | double P =>
      obtain ⟨q, hq, hQ⟩ := double_point hc hP hne
      obtain ⟨r, hr, hR⟩ := ih hQ
      refine ⟨r, ?_, hR⟩
      rw [List.foldlM_cons, Step.run, hq]
      exact hr
    | negate cond P =>
      obtain ⟨z, hz, hQ⟩ := negate_point hP cond
      obtain ⟨r, hr, hR⟩ := ih hQ
      refine ⟨r, ?_, hR⟩
      rw [List.foldlM_cons, Step.run, hc.prime, hz]
      exact hr
    | add hT P =>
      obtain ⟨q, hq, hQ⟩ := add_point hc hT hP hne
      obtain ⟨r, hr, hR⟩ := ih hQ
      refine ⟨r, ?_, hR⟩
      rw [List.foldlM_cons, Step.run, hq]
      exact hr

/-- **The loop, from an affine point.**  Whatever `z` is drawn, no assertion fails on the way. -/
theorem ladder_from_affine {l : List Step} {cp : CurvePoint} {z : Bignum256} {Z : ZMod p.n}
    {P R : (curve.over p b).Point} (hc : curve.Over p) (hP : StandsAffine (curve.over p b) cp P)
    (hz : Rep p 2 z Z) (hZ : Z ≠ 0) (hl : Ladder (curve.over p b) l P R) :
    ∃ q, (curveToJacobian cp z curve.prime >>= l.foldlM (Step.run curve)) = some q ∧
      Stands (curve.over p b) q R := by
  obtain ⟨x, y, hns, rfl, ha⟩ := hP
  obtain ⟨jp, hjp, hjac⟩ := aff_to_jac ha hz
  obtain ⟨q, hq, hR⟩ := ladder_point hc ⟨x, y, Z, hns, rfl, hZ, hjac⟩ hl
  refine ⟨q, ?_, hR⟩
  rw [hc.prime, hjp]
  exact hq

end

/-! ## a run over a prime of this shape -/

/-- `a ^ e` modulo `m`, for `e < 2 ^ k` -/
def powMod (m a : Nat) : Nat → Nat → Nat
  | 0, _ => 1
  | k + 1, e => powMod m a k (e / 2) ^ 2 * a ^ (e % 2) % m

theorem powMod_eq (m a : Nat) {k e : Nat} (h : e < 2 ^ k) :
    ((powMod m a k e : Nat) : ZMod m) = (a : ZMod m) ^ e := by
  induction k generalizing e with
  | zero =>
    have he : e = 0 := by omega
    rw [he, powMod, Nat.cast_one, pow_zero]
  | succ k ih =>
    have hdiv : e / 2 < 2 ^ k := by
      rw [pow_succ] at h
      omega
    rw [powMod, ZMod.natCast_mod, Nat.cast_mul, Nat.cast_pow, Nat.cast_pow, ih hdiv, ← pow_mul,
      ← pow_add]
    congr 1
    omega

theorem pow_eq_one_iff (m a : Nat) {k e : Nat} (h : e < 2 ^ k) :
    (a : ZMod m) ^ e = 1 ↔ powMod m a k e % m = 1 % m := by
  rw [← powMod_eq m a h, ← Nat.cast_one, ZMod.natCast_eq_natCast_iff']

/-- a prime whose predecessor has small factors only -/
def smoothModulus : Modulus where
  prime := [1, 0, 0, 0, 0, 0, 0x17d00000, 0x3fffffb5, 0xffff]
  n := 2 ^ 200 * (167 * (1487 * (5843 * (6701 * 7411)))) + 1
  normal := ⟨rfl, by simp⟩
  num_eq := by decide
  odd := by decide
  lower := by decide
  upper := by decide

theorem factor_smooth {q : Nat} (hq : q.Prime) (h : q ∣ smoothModulus.n - 1) :
    q = 2 ∨ q = 167 ∨ q = 1487 ∨ q = 5843 ∨ q = 6701 ∨ q = 7411 := by
  have hsub : smoothModulus.n - 1 = 2 ^ 200 * (167 * (1487 * (5843 * (6701 * 7411)))) :=
    Nat.add_sub_cancel _ 1
  rw [hsub, hq.dvd_mul, hq.dvd_mul, hq.dvd_mul, hq.dvd_mul, hq.dvd_mul,
    Nat.prime_dvd_prime_iff_eq hq (show Nat.Prime 167 by norm_num),
    Nat.prime_dvd_prime_iff_eq hq (show Nat.Prime 1487 by norm_num),
    Nat.prime_dvd_prime_iff_eq hq (show Nat.Prime 5843 by norm_num),
    Nat.prime_dvd_prime_iff_eq hq (show Nat.Prime 6701 by norm_num),
    Nat.prime_dvd_prime_iff_eq hq (show Nat.Prime 7411 by norm_num)] at h
  exact h.imp_left fun h2 => (Nat.prime_dvd_prime_iff_eq hq Nat.prime_two).mp (hq.dvd_of_dvd_pow h2)

theorem prime_smooth : smoothModulus.n.Prime := by
  apply lucas_primality smoothModulus.n ((3 : Nat) : ZMod smoothModulus.n)
  · rw [pow_eq_one_iff _ 3 (k := 256) (by decide)]
    decide +kernel
  · intro q hq hdvd
    rcases factor_smooth hq hdvd with h | h | h | h | h | h <;>
      rw [h, Ne, pow_eq_one_iff _ 3 (k := 256) (by decide)] <;> decide +kernel

instance : Fact smoothModulus.n.Prime := ⟨prime_smooth⟩

/-- `y ^ 2 = x ^ 3 + 3` -/
def smoothCurve : EcdsaCurve := ⟨smoothModulus.prime, 0⟩

theorem smoothCurve_over : smoothCurve.Over smoothModulus := ⟨rfl, by decide, by decide⟩

theorem nonsingular_over {p : Modulus} [Fact p.n.Prime] {curve : EcdsaCurve} {b x y : ZMod p.n}
    (h : y ^ 2 = x ^ 3 + curve.a * x + b) (hy : y ≠ 0) : (curve.over p b).Nonsingular x y := by
  rw [Affine.nonsingular_iff', Affine.equation_iff]
  refine ⟨?_, Or.inr ?_⟩
  · show y ^ 2 + 0 * x * y + 0 * y = x ^ 3 + 0 * x ^ 2 + curve.a * x + b
    linear_combination h
  · show 2 * y + 0 * x + 0 ≠ 0
    rw [zero_mul, add_zero, add_zero]
    exact mul_ne_zero two_ne_zero_mod hy

theorem nonsingular_smooth : (smoothCurve.over smoothModulus 3).Nonsingular 1 2 := by
  apply nonsingular_over _ two_ne_zero_mod
  show (2 : ZMod smoothModulus.n) ^ 2 = 1 ^ 3 + ((0 : Int) : ZMod smoothModulus.n) * 1 + 3
  rw [Int.cast_zero]
  norm_num

/-- the point `(1, 2)` -/
def smoothPoint : (smoothCurve.over smoothModulus 3).Point :=
  Affine.Point.some 1 2 nonsingular_smooth

theorem smoothPoint_double_ne : smoothPoint + smoothPoint ≠ 0 := by
  have hy : (2 : ZMod smoothModulus.n) ≠ (smoothCurve.over smoothModulus 3).negY 1 2 := by
    rw [negY_over]
    intro h
    have hfour : (2 : ZMod smoothModulus.n) * 2 = 0 := by linear_combination h
    exact mul_ne_zero two_ne_zero_mod two_ne_zero_mod hfour
  have hsum : smoothPoint + smoothPoint = _ := Affine.Point.add_self_of_Y_ne hy
  rw [hsum]
  exact Affine.Point.some_ne_zero _

/-- a one-limb number -/
def oneLimb (v : BitVec 32) : Bignum256 := [v, 0, 0, 0, 0, 0, 0, 0, 0]

theorem rep_oneLimb {p : Modulus} {v : BitVec 32} (hv : v.toNat < 2 ^ 30) :
    Rep p 2 (oneLimb v) v.toNat := by
  have hnum : num (oneLimb v) = v.toNat := by simp [num, oneLimb, value]
  refine ⟨⟨rfl, by simpa [oneLimb] using hv⟩, ?_, ?_⟩
  · have hlo := p.lower_int
    rw [hnum]
    push_cast
    omega
  · rw [hnum, Int.cast_natCast]

theorem rep_one : Rep smoothModulus 2 (oneLimb 1) 1 := by
  have h : Rep smoothModulus 2 (oneLimb 1) ((1 : BitVec 32).toNat : ZMod smoothModulus.n) :=
    rep_oneLimb (by decide)
  have e : ((1 : BitVec 32).toNat : ZMod smoothModulus.n) = 1 := Nat.cast_one
  rwa [e] at h

theorem rep_two : Rep smoothModulus 2 (oneLimb 2) 2 := by
  have h : Rep smoothModulus 2 (oneLimb 2) ((2 : BitVec 32).toNat : ZMod smoothModulus.n) :=
    rep_oneLimb (by decide)
  have e : ((2 : BitVec 32).toNat : ZMod smoothModulus.n) = 2 := Nat.cast_ofNat
  rwa [e] at h

theorem stands_smoothPoint :
    StandsAffine (smoothCurve.over smoothModulus 3) ⟨oneLimb 1, oneLimb 2⟩ smoothPoint :=
  ⟨1, 2, nonsingular_smooth, rfl, rep_one, rep_two⟩

theorem ladder_from_affine_double : ∃ q,
    (curveToJacobian ⟨oneLimb 1, oneLimb 2⟩ (oneLimb 1) smoothCurve.prime
        >>= [Step.double].foldlM (Step.run smoothCurve)) = some q ∧
      Stands (smoothCurve.over smoothModulus 3) q (smoothPoint + smoothPoint) :=
  ladder_from_affine smoothCurve_over stands_smoothPoint rep_one one_ne_zero
    (.cons (.double smoothPoint) smoothPoint_double_ne (.nil (smoothPoint + smoothPoint)))

end MTower.Curve
