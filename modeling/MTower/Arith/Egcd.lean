import Mathlib.Algebra.Group.Int.Even
import Mathlib.Tactic.Linarith
import MTower.Lib.Fuel
import MTower.Arith.Runs

/-!
# The binary loop for the greatest common divisor

`mpi_egcd` keeps two rows `a * x + b * y = w`, halves the last entry of each row while it is even,
and takes the smaller row from the larger one.

* `Row`, `corrected`, `halved`   a row, and how its last entry is halved;
* `mpiEgcd`                      the function;
* `RowOk`                        what holds of a row;
* `reduce_ends`                  the inner loops;
* `egcdLoop_ends`                the outer loop;
* `mpiEgcd_ends`                 the function ends with the divisor and its coefficients;
* `mpiEgcd_agree`                which depend on nothing but the two numbers;
* `mpiEgcd_coefficients`         both together.
-/

set_option linter.unusedVariables false

namespace MTower.Arith
open Lib

/-! ## the function -/

def mpiIsEven (x : Mpi) : Bool := !mpiIsOdd x

/-- `mbedtls_mpi_cmp_mpi` -/
def cmpMpi (x y : Mpi) : Int := (x.value - y.value).sign

/-- `A`, `B` and `u`, or `C`, `D` and `gcd` -/
structure Row where
  a : Mpi
  b : Mpi
  w : Mpi

/-- the two numbers without their common power of two; `exact` is for the proofs and says that only
even numbers were halved -/
structure Stripped where
  x : Mpi
  y : Mpi
  k : Nat
  exact : Bool

structure Loop where
  first : Row
  second : Row
  exact : Bool

structure EgcdResult where
  gcd : Mpi
  a : Mpi
  b : Mpi
  exact : Bool

section
variable (lib : Mbedtls)

def strip : Stripped → Fueled Stripped :=
  whileLoop (fun s => mpiIsEven s.x && mpiIsEven s.y) fun s => pure
    { x := lib.shiftR s.x 1
      y := lib.shiftR s.y 1
      k := s.k + 1
      exact := s.exact && mpiIsEven s.x && mpiIsEven s.y }

/-- the coefficients are made even -/
def corrected (x y : Mpi) (r : Row) : Row :=
  if mpiIsOdd r.a || mpiIsOdd r.b then
    { r with a := lib.addMpi r.a r.a y, b := lib.subMpi r.b r.b x }
  else r

def halved (r : Row) : Row where
  a := lib.shiftR r.a 1
  b := lib.shiftR r.b 1
  w := lib.shiftR r.w 1

def Row.isEven (r : Row) : Bool := mpiIsEven r.a && mpiIsEven r.b && mpiIsEven r.w

/-- `while (mpi_is_even(&u))`, and the same for `gcd` -/
def reduce (x y : Mpi) : Row × Bool → Fueled (Row × Bool) :=
  whileLoop (fun p => mpiIsEven p.1.w) fun p => pure
    (halved lib (corrected lib x y p.1), p.2 && (corrected lib x y p.1).isEven)

def subRow (r s : Row) : Row where
  a := lib.subMpi r.a r.a s.a
  b := lib.subMpi r.b r.b s.b
  w := lib.subMpi r.w r.w s.w

/-- the smaller row is taken from the larger one -/
def subSmaller (first second : Row) (exact : Bool) : Loop :=
  if 0 ≤ cmpMpi first.w second.w then
    { first := subRow lib first second, second := second, exact := exact }
  else
    { first := first, second := subRow lib second first, exact := exact }

def egcdLoop (x y : Mpi) : Loop → Fueled Loop :=
  whileLoop (fun s => decide (cmpInt s.first.w 0 ≠ 0)) fun s => do
    let p ← reduce lib x y (s.first, s.exact)
    let q ← reduce lib x y (s.second, p.2)
    pure (subSmaller lib p.1 q.1 q.2)

/-- the three numbers are what the results overwrite -/
def mpiEgcd (gcd a b xIn yIn : Mpi) : Fueled EgcdResult :=
  if cmpInt yIn 0 = 0 then pure
    { gcd := lib.copy gcd xIn
      a := lib.lset a 1
      b := lib.lset b 0
      exact := true }
  else do
    let init := mpiOf none
    let t ← strip lib { x := lib.copy init xIn, y := lib.copy init yIn, k := 0, exact := true }
    let s ← egcdLoop lib t.x t.y
      { first := ⟨lib.lset init 1, lib.lset init 0, lib.copy init t.x⟩
        second := ⟨lib.lset init 0, lib.lset init 1, lib.copy gcd t.y⟩
        exact := t.exact }
    pure
      { gcd := lib.shiftL s.second.w t.k
        a := lib.copy a s.second.a
        b := lib.copy b s.second.b
        exact := s.exact }

end

/-! ## parity -/

section
variable {lib : Mbedtls} {x y a b w u v m : Mpi} {r s : Row} {X Y : Int}

theorem isEven_iff : mpiIsEven m = true ↔ Even m.value := by
  rw [mpiIsEven, Bool.not_eq_true', ← Bool.not_eq_true, mpiIsOdd_iff, ← Int.not_even_iff, not_not]

theorem halve_even (lib : Mbedtls) (h : Even m.value) : 2 * (lib.shiftR m 1).value = m.value := by
  obtain ⟨n, hn⟩ := h
  rw [lib.value_shiftR, hn, ← two_mul, pow_one, Int.mul_tdiv_cancel_left _ (by decide)]

/-- **The correction makes both coefficients even** unless they are. -/
theorem corrected_even {A B W : Int} (h : A * X + B * Y = W) (hW : Even W)
    (hxy : ¬ (Even X ∧ Even Y)) (hodd : ¬ (Even A ∧ Even B)) : Even (A + Y) ∧ Even (B - X) := by
  rw [← h, Int.even_add, Int.even_mul, Int.even_mul] at hW
  rw [Int.even_add, Int.even_sub]
  tauto

/-! ## rows -/

/-- a row holds its equation, and its last entry is not used up -/
structure RowOk (X Y : Int) (r : Row) : Prop where
  eq : r.a.value * X + r.b.value * Y = r.w.value
  pos : 0 < r.w.value

theorem corrected_ok (lib : Mbedtls) (hxy : ¬ (Even x.value ∧ Even y.value)) (h : RowOk x.value y.value r)
    (heven : Even r.w.value) :
    (corrected lib x y r).isEven = true ∧ (corrected lib x y r).w = r.w ∧
    (corrected lib x y r).a.value * x.value + (corrected lib x y r).b.value * y.value =
      r.w.value := by
  have hodd : (mpiIsOdd r.a || mpiIsOdd r.b) = true ↔ ¬ (Even r.a.value ∧ Even r.b.value) := by
    rw [Bool.or_eq_true, mpiIsOdd_iff, mpiIsOdd_iff, ← Int.not_even_iff, ← Int.not_even_iff,
      not_and_or]
  unfold corrected
  by_cases hc : Even r.a.value ∧ Even r.b.value
  · rw [if_neg (hodd.not.mpr (not_not.mpr hc))]
    refine ⟨?_, rfl, h.eq⟩
    rw [Row.isEven, Bool.and_eq_true, Bool.and_eq_true, isEven_iff, isEven_iff, isEven_iff]
    exact ⟨hc, heven⟩
  · obtain ⟨ha, hb⟩ := corrected_even h.eq heven hxy hc
    rw [if_pos (hodd.mpr hc)]
    refine ⟨?_, rfl, ?_⟩
    · rw [Row.isEven, Bool.and_eq_true, Bool.and_eq_true, isEven_iff, isEven_iff, isEven_iff,
        lib.value_addMpi, lib.value_subMpi]
      exact ⟨⟨ha, hb⟩, heven⟩
    · rw [lib.value_addMpi, lib.value_subMpi, ← h.eq]
      ring

/-- **One halving** -/
theorem halved_ok (lib : Mbedtls) (hxy : ¬ (Even x.value ∧ Even y.value))
    (h : RowOk x.value y.value r) (heven : Even r.w.value) :
    RowOk x.value y.value (halved lib (corrected lib x y r)) ∧
      2 * (halved lib (corrected lib x y r)).w.value = r.w.value := by
  obtain ⟨hall, hw, heq⟩ := corrected_ok lib hxy h heven
  rw [Row.isEven, Bool.and_eq_true, Bool.and_eq_true, isEven_iff, isEven_iff, isEven_iff] at hall
  have ha := halve_even lib hall.1.1
  have hb := halve_even lib hall.1.2
  have hw2 : 2 * (halved lib (corrected lib x y r)).w.value = r.w.value :=
    (halve_even lib hall.2).trans (congrArg Mpi.value hw)
  have hpos := h.pos
  refine ⟨⟨?_, by omega⟩, hw2⟩
  apply mul_left_cancel₀ (two_ne_zero : (2 : Int) ≠ 0)
  calc 2 * ((halved lib (corrected lib x y r)).a.value * x.value +
        (halved lib (corrected lib x y r)).b.value * y.value)
      = 2 * (halved lib (corrected lib x y r)).a.value * x.value +
        2 * (halved lib (corrected lib x y r)).b.value * y.value := by ring
    _ = r.w.value := by rw [halved, ha, hb, heq]
    _ = 2 * (halved lib (corrected lib x y r)).w.value := hw2.symm

/-- **An inner loop ends** with an entry that divides the one it began with. -/
theorem reduce_ends (lib : Mbedtls) (hxy : ¬ (Even x.value ∧ Even y.value))
    (h : RowOk x.value y.value r) (e : Bool) :
    Ends (reduce lib x y (r, e)) fun p => RowOk x.value y.value p.1 ∧
      p.1.w.value ∣ r.w.value ∧ p.1.w.value ≤ r.w.value ∧ p.2 = e := by
  refine ends_mono (ends_while (fun p : Row × Bool => RowOk x.value y.value p.1 ∧
    p.1.w.value ∣ r.w.value ∧ p.1.w.value ≤ r.w.value ∧ p.2 = e) (fun p => p.1.w.value.toNat)
    (fun p hp hc => ?_) ⟨h, dvd_rfl, le_rfl, rfl⟩) fun p hp => hp.1
  obtain ⟨hrow, hdvd, hle, hexact⟩ := hp
  have heven := isEven_iff.mp hc
  obtain ⟨hnew, hhalf⟩ := halved_ok lib hxy hrow heven
  have hpos := hnew.pos
  refine ends_pure ⟨⟨hnew, dvd_trans ?_ hdvd, ?_, ?_⟩, ?_⟩
  · exact Dvd.intro_left _ hhalf
  · exact le_trans (by linarith) hle
  · rw [(corrected_ok lib hxy hrow heven).1, Bool.and_true]
    exact hexact
  · show (halved lib (corrected lib x y p.1)).w.value.toNat < p.1.w.value.toNat
    omega

/-! ## the outer loop -/

theorem subRow_eq (lib : Mbedtls) (hr : r.a.value * X + r.b.value * Y = r.w.value)
    (hs : s.a.value * X + s.b.value * Y = s.w.value) :
    (subRow lib r s).a.value * X + (subRow lib r s).b.value * Y = (subRow lib r s).w.value := by
  simp only [subRow, lib.value_subMpi]
  rw [← hr, ← hs]
  ring

/-- what the last entries come to -/
def Loop.left (s : Loop) : Int := s.first.w.value + s.second.w.value

/-- **The invariant of the outer loop.**  What divides the last entries divides the two numbers. -/
structure LoopOk (X Y : Int) (s : Loop) : Prop where
  first_eq : s.first.a.value * X + s.first.b.value * Y = s.first.w.value
  first_nonneg : 0 ≤ s.first.w.value
  second : RowOk X Y s.second
  dvd : ∀ q, q ∣ s.first.w.value → q ∣ s.second.w.value → q ∣ X ∧ q ∣ Y
  exact : s.exact = true

theorem LoopOk.left_nonneg {t : Loop} (h : LoopOk X Y t) : 0 ≤ t.left := by
  have h1 := h.first_nonneg
  have h2 := h.second.pos
  rw [Loop.left]
  omega

theorem cmpInt_zero (m : Mpi) : decide (cmpInt m 0 ≠ 0) = true ↔ m.value ≠ 0 := by
  rw [decide_eq_true_iff, cmpInt, ne_eq, Int.sign_eq_zero_iff_zero, Int.sub_zero]

/-- **The end of an iteration** -/
theorem subSmaller_ok (lib : Mbedtls) {e : Bool} (hr : RowOk X Y r) (hs : RowOk X Y s)
    (hdvd : ∀ q, q ∣ r.w.value → q ∣ s.w.value → q ∣ X ∧ q ∣ Y) (he : e = true) :
    LoopOk X Y (subSmaller lib r s e) ∧
      (subSmaller lib r s e).left < r.w.value + s.w.value := by
  have hrpos := hr.pos
  have hspos := hs.pos
  have hcmp : 0 ≤ cmpMpi r.w s.w ↔ s.w.value ≤ r.w.value := by
    rw [cmpMpi, Int.sign_nonneg_iff, sub_nonneg]
  unfold subSmaller
  by_cases hge : s.w.value ≤ r.w.value
  · have hsub : (subRow lib r s).w.value = r.w.value - s.w.value := lib.value_subMpi _ _ _
    rw [if_pos (hcmp.mpr hge)]
    refine ⟨⟨subRow_eq lib hr.eq hs.eq, ?_, hs, ?_, he⟩, ?_⟩
    · rw [hsub]
      omega
    · intro q h1 h2
      rw [hsub] at h1
      exact hdvd q ((Int.dvd_iff_dvd_of_dvd_sub h1).mpr h2) h2
    · show (subRow lib r s).w.value + s.w.value < r.w.value + s.w.value
      rw [hsub]
      omega
  · have hsub : (subRow lib s r).w.value = s.w.value - r.w.value := lib.value_subMpi _ _ _
    rw [if_neg (hcmp.not.mpr hge)]
    refine ⟨⟨hr.eq, hr.pos.le, ⟨subRow_eq lib hs.eq hr.eq, ?_⟩, ?_, he⟩, ?_⟩
    · rw [hsub]
      omega
    · intro q h1 h2
      rw [hsub] at h2
      exact hdvd q h1 ((Int.dvd_iff_dvd_of_dvd_sub h2).mpr h1)
    · show r.w.value + (subRow lib s r).w.value < r.w.value + s.w.value
      rw [hsub]
      omega

/-- **The outer loop ends**, with nothing left in its first row. -/
theorem egcdLoop_ends (lib : Mbedtls) {t : Loop} (hxy : ¬ (Even x.value ∧ Even y.value))
    (h : LoopOk x.value y.value t) :
    Ends (egcdLoop lib x y t) fun s => LoopOk x.value y.value s ∧ s.first.w.value = 0 := by
  refine ends_mono (ends_while (LoopOk x.value y.value) (fun s => s.left.toNat)
    (fun s hs hc => ?_) h) fun s hs => ⟨hs.1, ?_⟩
  · have hne := (cmpInt_zero _).mp hc
    have hfirst : RowOk x.value y.value s.first :=
      ⟨hs.first_eq, lt_of_le_of_ne hs.first_nonneg (Ne.symm hne)⟩
    refine ends_bind (reduce_ends lib hxy hfirst s.exact) fun p hp => ?_
    obtain ⟨hp1, hpdvd, hple, hpe⟩ := hp
    refine ends_bind (reduce_ends lib hxy hs.second p.2) fun q hq => ?_
    obtain ⟨hq1, hqdvd, hqle, hqe⟩ := hq
    obtain ⟨hok, hlt⟩ := subSmaller_ok lib hp1 hq1
      (fun z h1 h2 => hs.dvd z (h1.trans hpdvd) (h2.trans hqdvd))
      (hqe.trans (hpe.trans hs.exact))
    have hnonneg := hok.left_nonneg
    have hleft : p.1.w.value + q.1.w.value ≤ s.left := add_le_add hple hqle
    refine ends_pure ⟨hok, ?_⟩
    omega
  · have hfalse := hs.2
    by_contra hne
    rw [(cmpInt_zero _).mpr hne] at hfalse
    cases hfalse

/-! ## the whole function -/

/-- what the two numbers are without their common power of two -/
structure StrippedOk (X Y : Int) (t : Stripped) : Prop where
  x_eq : t.x.value * 2 ^ t.k = X
  y_eq : t.y.value * 2 ^ t.k = Y
  exact : t.exact = true

theorem StrippedOk.pos {t : Stripped} (h : StrippedOk X Y t) (hX : 0 < X) (hY : 0 < Y) :
    0 < t.x.value ∧ 0 < t.y.value := by
  have hpow : (0 : Int) < 2 ^ t.k := pow_pos (by decide) _
  constructor
  · exact (mul_pos_iff_of_pos_right hpow).mp (h.x_eq ▸ hX)
  · exact (mul_pos_iff_of_pos_right hpow).mp (h.y_eq ▸ hY)

theorem double_pow {c d : Int} (k : Nat) (h : 2 * c = d) : c * 2 ^ (k + 1) = d * 2 ^ k := by
  rw [← h, pow_succ]
  ring

theorem strip_ends (lib : Mbedtls) {t : Stripped} (hX : 0 < X) (hY : 0 < Y)
    (h : StrippedOk X Y t) : Ends (strip lib t) fun t' =>
      StrippedOk X Y t' ∧ ¬ (Even t'.x.value ∧ Even t'.y.value) := by
  refine ends_mono (ends_while (StrippedOk X Y) (fun t => t.y.value.toNat) (fun t ht hc => ?_) h)
    fun t ht => ⟨ht.1, ?_⟩
  · obtain ⟨hx, hy⟩ := Bool.and_eq_true_iff.mp hc
    have hx2 := halve_even lib (isEven_iff.mp hx)
    have hy2 := halve_even lib (isEven_iff.mp hy)
    have hpos := (ht.pos hX hY).2
    refine ends_pure ⟨⟨?_, ?_, ?_⟩, ?_⟩
    · exact (double_pow _ hx2).trans ht.x_eq
    · exact (double_pow _ hy2).trans ht.y_eq
    · simp [ht.exact, hx, hy]
    · show (lib.shiftR t.y 1).value.toNat < t.y.value.toNat
      omega
  · have hfalse := ht.2
    intro heven
    rw [isEven_iff.mpr heven.1, isEven_iff.mpr heven.2] at hfalse
    cases hfalse

/-- a combination of two numbers that divides both is their divisor -/
theorem eq_gcd {A B W : Int} (h : A * X + B * Y = W) (hpos : 0 < W) (hX : W ∣ X) (hY : W ∣ Y) :
    W = Int.gcd X Y := by
  apply Int.dvd_antisymm hpos.le (Int.natCast_nonneg _)
  · exact Int.dvd_coe_gcd hX hY
  · rw [← h]
    apply dvd_add
    · exact (Int.gcd_dvd_left _ _).mul_left _
    · exact (Int.gcd_dvd_right _ _).mul_left _

/-- the rows that the outer loop begins with -/
theorem loopOk_start {A B C D U W : Mpi} (hA : A.value = 1) (hB : B.value = 0)
    (hC : C.value = 0) (hD : D.value = 1) (hU : U.value = X) (hW : W.value = Y) (hX : 0 < X)
    (hY : 0 < Y) : LoopOk X Y ⟨⟨A, B, U⟩, ⟨C, D, W⟩, true⟩ where
  first_eq := by simp [hA, hB, hU]
  first_nonneg := by simp [hU, hX.le]
  second := ⟨by simp [hC, hD, hW], by simpa [hW] using hY⟩
  dvd := fun q h1 h2 => by
    rw [hU] at h1
    rw [hW] at h2
    exact ⟨h1, h2⟩
  exact := rfl

/-- what `mpi_egcd` computes -/
structure EgcdOk (X Y : Int) (r : EgcdResult) : Prop where
  gcd : r.gcd.value = Int.gcd X Y
  combination : r.a.value * X + r.b.value * Y = Int.gcd X Y
  exact : r.exact = true

/-- **`mpi_egcd` ends** with the divisor of two numbers and its coefficients. -/
theorem mpiEgcd_ends (lib : Mbedtls) (hY : 0 ≤ y.value) (hlt : y.value < x.value) :
    Ends (mpiEgcd lib w a b x y) (EgcdOk x.value y.value) := by
  have hzero : cmpInt y 0 = 0 ↔ y.value = 0 := by
    rw [cmpInt, Int.sign_eq_zero_iff_zero, Int.sub_zero]
  unfold mpiEgcd
  by_cases hy : y.value = 0
  · rw [if_pos (hzero.mpr hy)]
    have hgcd : (Int.gcd x.value y.value : Int) = x.value := by
      rw [hy, Int.gcd_zero_right, Int.natAbs_of_nonneg (by omega)]
    apply ends_pure
    constructor
    · rw [hgcd, lib.value_copy]
    · simp [hgcd]
    · rfl
  have hypos : 0 < y.value := lt_of_le_of_ne hY (Ne.symm hy)
  have hxpos : 0 < x.value := hypos.trans hlt
  rw [if_neg (hzero.not.mpr hy)]
  refine ends_bind (strip_ends lib hxpos hypos ⟨?_, ?_, rfl⟩) fun t ht => ?_
  · simp
  · simp
  obtain ⟨hok, hodd⟩ := ht
  obtain ⟨htx, hty⟩ := hok.pos hxpos hypos
  rw [hok.exact]
  refine ends_bind (egcdLoop_ends lib hodd (loopOk_start (lib.value_lset _ _) (lib.value_lset _ _)
    (lib.value_lset _ _) (lib.value_lset _ _) (lib.value_copy _ _) (lib.value_copy _ _) htx hty))
    fun s hs => ?_
  obtain ⟨hloop, hend⟩ := hs
  have hdvd := hloop.dvd s.second.w.value (hend ▸ dvd_zero _) dvd_rfl
  have hcomb : s.second.a.value * x.value + s.second.b.value * y.value =
      s.second.w.value * 2 ^ t.k := by
    rw [← hok.x_eq, ← hok.y_eq, ← hloop.second.eq]
    ring
  have hgcd : s.second.w.value * 2 ^ t.k = Int.gcd x.value y.value := by
    apply eq_gcd hcomb (mul_pos hloop.second.pos (pow_pos (by decide) _))
    · rw [← hok.x_eq]
      exact mul_dvd_mul_right hdvd.1 _
    · rw [← hok.y_eq]
      exact mul_dvd_mul_right hdvd.2 _
  apply ends_pure
  constructor
  · exact (lib.value_shiftL _ _).trans hgcd
  · rw [lib.value_copy, lib.value_copy]
    exact hcomb.trans hgcd
  · exact hloop.exact

end

/-! ## any library, any numbers with the same values -/

section
variable {lib lib' : Mbedtls} {x x' y y' w w' a a' b b' m m' : Mpi} {r r' s s' : Row}

/-- the same value, whatever the limbs -/
def Same (x x' : Mpi) : Prop := x.value = x'.value

theorem Same.isEven (h : Same m m') : mpiIsEven m = mpiIsEven m' := by
  rw [Bool.eq_iff_iff, isEven_iff, isEven_iff, h]

theorem Same.isOdd (h : Same m m') : mpiIsOdd m = mpiIsOdd m' := by
  rw [Bool.eq_iff_iff, mpiIsOdd_iff, mpiIsOdd_iff, h]

theorem same_add (h : Same x x') (h2 : Same y y') :
    Same (lib.addMpi m x y) (lib'.addMpi m' x' y') := by
  rw [Same, lib.value_addMpi, lib'.value_addMpi, h, h2]

theorem same_sub (h : Same x x') (h2 : Same y y') :
    Same (lib.subMpi m x y) (lib'.subMpi m' x' y') := by
  rw [Same, lib.value_subMpi, lib'.value_subMpi, h, h2]

theorem same_shiftR (h : Same x x') (k : Nat) : Same (lib.shiftR x k) (lib'.shiftR x' k) := by
  rw [Same, lib.value_shiftR, lib'.value_shiftR, h]

theorem same_copy (h : Same x x') : Same (lib.copy m x) (lib'.copy m' x') := by
  rw [Same, lib.value_copy, lib'.value_copy, h]

theorem same_lset (z : Int) : Same (lib.lset m z) (lib'.lset m' z) := by
  rw [Same, lib.value_lset, lib'.value_lset]

structure RowSame (r r' : Row) : Prop where
  a : Same r.a r'.a
  b : Same r.b r'.b
  w : Same r.w r'.w

theorem corrected_same (hx : Same x x') (hy : Same y y') (h : RowSame r r') :
    RowSame (corrected lib x y r) (corrected lib' x' y' r') := by
  unfold corrected
  rw [h.a.isOdd, h.b.isOdd]
  split
  · exact ⟨same_add h.a hy, same_sub h.b hx, h.w⟩
  · exact h

theorem halved_same (h : RowSame r r') : RowSame (halved lib r) (halved lib' r') :=
  ⟨same_shiftR h.a 1, same_shiftR h.b 1, same_shiftR h.w 1⟩

theorem subRow_same (h : RowSame r r') (hs : RowSame s s') :
    RowSame (subRow lib r s) (subRow lib' r' s') :=
  ⟨same_sub h.a hs.a, same_sub h.b hs.b, same_sub h.w hs.w⟩

theorem reduce_agree (hx : Same x x') (hy : Same y y') {e e' : Bool} (h : RowSame r r') :
    Agree (fun p p' => RowSame p.1 p'.1) (reduce lib x y (r, e)) (reduce lib' x' y' (r', e')) := by
  apply agree_while
  · intro p p' hp
    exact hp.w.isEven
  · intro p p' hp
    exact agree_pure (halved_same (corrected_same hx hy hp))
  · exact h

structure LoopSame (t t' : Loop) : Prop where
  first : RowSame t.first t'.first
  second : RowSame t.second t'.second

theorem subSmaller_same (h : RowSame r r') (hs : RowSame s s') {e e' : Bool} :
    LoopSame (subSmaller lib r s e) (subSmaller lib' r' s' e') := by
  have hcmp : cmpMpi r.w s.w = cmpMpi r'.w s'.w := by rw [cmpMpi, cmpMpi, h.w, hs.w]
  unfold subSmaller
  rw [hcmp]
  split
  · exact ⟨subRow_same h hs, hs⟩
  · exact ⟨h, subRow_same hs h⟩

theorem egcdLoop_agree (hx : Same x x') (hy : Same y y') {t t' : Loop} (h : LoopSame t t') :
    Agree LoopSame (egcdLoop lib x y t) (egcdLoop lib' x' y' t') := by
  apply agree_while
  · intro t t' ht
    rw [Bool.eq_iff_iff, cmpInt_zero, cmpInt_zero, ht.first.w]
  · intro t t' ht
    apply agree_bind (reduce_agree hx hy ht.first)
    intro p p' hp
    apply agree_bind (reduce_agree hx hy ht.second)
    intro q q' hq
    exact agree_pure (subSmaller_same hp hq)
  · exact h

structure StrippedSame (t t' : Stripped) : Prop where
  x : Same t.x t'.x
  y : Same t.y t'.y
  k : t.k = t'.k

theorem strip_agree {t t' : Stripped} (h : StrippedSame t t') :
    Agree StrippedSame (strip lib t) (strip lib' t') := by
  apply agree_while
  · intro t t' ht
    rw [ht.x.isEven, ht.y.isEven]
  · intro t t' ht
    exact agree_pure ⟨same_shiftR ht.x 1, same_shiftR ht.y 1, congrArg (· + 1) ht.k⟩
  · exact h

structure ResultSame (q q' : EgcdResult) : Prop where
  gcd : Same q.gcd q'.gcd
  a : Same q.a q'.a
  b : Same q.b q'.b

/-- **The results of `mpi_egcd`** depend on the values of the two numbers. -/
theorem mpiEgcd_agree (hx : Same x x') (hy : Same y y') :
    Agree ResultSame (mpiEgcd lib w a b x y) (mpiEgcd lib' w' a' b' x' y') := by
  have hcmp : cmpInt y 0 = cmpInt y' 0 := by rw [cmpInt, cmpInt, hy]
  unfold mpiEgcd
  rw [hcmp]
  split
  · exact agree_pure ⟨same_copy hx, same_lset 1, same_lset 0⟩
  · apply agree_bind (strip_agree (StrippedSame.mk ?_ ?_ ?_))
    rotate_left
    · exact same_copy hx
    · exact same_copy hy
    · rfl
    intro t t' ht
    apply agree_bind (egcdLoop_agree ht.x ht.y ⟨⟨same_lset 1, same_lset 0, same_copy ht.x⟩,
      ⟨same_lset 0, same_lset 1, same_copy ht.y⟩⟩)
    intro s s' hs
    refine agree_pure ⟨?_, same_copy hs.second.a, same_copy hs.second.b⟩
    rw [Same, Mbedtls.value_shiftL, Mbedtls.value_shiftL, hs.second.w, ht.k]

end

/-- **The coefficients** of two values: every library finds them. -/
theorem mpiEgcd_coefficients {X Y : Int} (hY : 0 ≤ Y) (hlt : Y < X) : ∃ (A B : Int) (k : Nat),
    A * X + B * Y = Int.gcd X Y ∧
    ∀ (lib : Mbedtls) (w a b x y : Mpi), x.value = X → y.value = Y → ∀ n, k ≤ n →
      ∃ r, mpiEgcd lib w a b x y n = some r ∧
        r.gcd.value = Int.gcd X Y ∧ r.a.value = A ∧ r.b.value = B := by
  have hx := value_mpiWith 0 X
  have hy := value_mpiWith 0 Y
  obtain ⟨r, hr, k, hend⟩ := mpiEgcd_ends (w := mpiOf none) (a := mpiOf none) (b := mpiOf none)
    Mbedtls.exact (hy.symm ▸ hY) (hx.symm ▸ hy.symm ▸ hlt)
  rw [hx, hy] at hr
  refine ⟨r.a.value, r.b.value, k, hr.combination, fun lib w a b x y hxv hyv n hn => ?_⟩
  have hagree : Agree ResultSame (mpiEgcd Mbedtls.exact (mpiOf none) (mpiOf none) (mpiOf none)
      (mpiWith 0 X) (mpiWith 0 Y)) (mpiEgcd lib w a b x y) :=
    mpiEgcd_agree (hx.trans hxv.symm) (hy.trans hyv.symm)
  obtain ⟨q, hq, hsame⟩ := hagree.result (hend n hn)
  exact ⟨q, hq, hsame.gcd.symm.trans hr.gcd, hsame.a.symm, hsame.b.symm⟩

end MTower.Arith
