import MTower.Arith.Egcd
import MTower.Arith.Room

/-!
# The extended greatest common divisor

`TEE_BigIntComputeExtendedGcd` takes the signs off its operands, gives the larger one to `mpi_egcd`
first, and puts the signs on the coefficients.

* `teeBigIntComputeExtendedGcd`   the function;
* `coefficients_run`              the three branches on the comparison;
* `extendedGcd_run`               the function stores the divisor and the coefficients.
-/

set_option linter.unusedVariables false

namespace MTower.Arith
open Lib

/-! ## the function -/

/-- `mbedtls_mpi_cmp_abs` -/
def cmpAbs (x y : Mpi) : Int := ((x.value.natAbs : Int) - y.value.natAbs).sign

def signOf (t : Temp) : O ℤˣ := do
  let x ← mpiAt t
  pure x.s

/-- `mpi.s = 1` -/
def unsigned (t : Temp) : O Unit := do
  let x ← mpiAt t
  setMpi t { x with s := 1 }

/-- `mpi.s *= s` -/
def applySign (t : Temp) (s : ℤˣ) : O Unit := do
  let x ← mpiAt t
  setMpi t (x.mulSign s)

def copyResult (t : Temp) : Option Nat → O Unit
  | none => throw .nullPointer
  | some dest => copyCheck t dest

section
variable (lib : Mbedtls) (fuel : Nat)

/-- `mpi_egcd` with these temporaries -/
def egcdInto (tg ta tb tx ty : Temp) : O Unit := do
  let g ← mpiAt tg
  let a ← mpiAt ta
  let b ← mpiAt tb
  let x ← mpiAt tx
  let y ← mpiAt ty
  match mpiEgcd lib g a b x y fuel with
  | none => throw .outOfFuel
  | some r => do
    setMpi tg r.gcd
    setMpi ta r.a
    setMpi tb r.b

/-- the branches on `cmp` -/
def coefficients (pop2 : Temp) : O Unit := do
  let x ← mpiAt .mpiOp1
  let y ← mpiAt pop2
  if cmpAbs x y = 0 then do
    let g ← mpiAt .mpiGcdRes
    let u ← mpiAt .mpiU
    let v ← mpiAt .mpiV
    setMpi .mpiGcdRes (lib.copy g x)
    setMpi .mpiU (lib.lset u 1)
    setMpi .mpiV (lib.lset v 0)
  else if 0 < cmpAbs x y then egcdInto lib fuel .mpiGcdRes .mpiU .mpiV .mpiOp1 pop2
  else egcdInto lib fuel .mpiGcdRes .mpiV .mpiU pop2 .mpiOp1

/-- the part with `mpi_u` and `mpi_v` -/
def bezout (u v : Option Nat) (pop2 : Temp) : O Unit := do
  let s1 ← signOf .mpiOp1
  let s2 ← signOf pop2
  unsigned .mpiOp1
  unsigned pop2
  getMpi .mpiU u
  getMpi .mpiV v
  coefficients lib fuel pop2
  applySign .mpiU s1
  applySign .mpiV s2
  copyResult .mpiU u
  copyResult .mpiV v
  mpiFree .mpiU
  mpiFree .mpiV

def divisorOnly (pop2 : Temp) : O Unit := do
  let g ← mpiAt .mpiGcdRes
  let x ← mpiAt .mpiOp1
  let y ← mpiAt pop2
  setMpi .mpiGcdRes (lib.gcd g x y)

/-- the branches on `u` and `v` -/
def divisorOrBezout (u v : Option Nat) (pop2 : Temp) : O Unit :=
  if u = none ∧ v = none then divisorOnly lib pop2 else bezout lib fuel u v pop2

def teeBigIntComputeExtendedGcd (gcd : Nat) (u v : Option Nat) (op1 op2 : Nat) : O Unit := do
  getMpi .mpiGcdRes (some gcd)
  getMpi .mpiOp1 (some op1)
  let pop2 ← operandGcd op1 op2
  divisorOrBezout lib fuel u v pop2
  copyCheck .mpiGcdRes gcd
  mpiFree .mpiGcdRes
  mpiFree .mpiOp1
  freeOperand .mpiOp2 pop2

end

/-! ## the branches -/

section
variable {lib : Mbedtls} {s v w : Sys} {pop2 t : Temp} {x y g a b : Mpi} {X Y A B D : Int}
  {dest op1 op2 : Nat}

/-- the results are in their temporaries, and nothing else has changed -/
structure Filled (s w : Sys) (D A B : Int) : Prop where
  big : w.big = s.big
  gcdRes : ∃ g, w.temps .mpiGcdRes = some g ∧ g.value = D
  u : ∃ a, w.temps .mpiU = some a ∧ a.value = A
  v : ∃ b, w.temps .mpiV = some b ∧ b.value = B
  other : ∀ t, t ≠ .mpiGcdRes → t ≠ .mpiU → t ≠ .mpiV → w.temps t = s.temps t

/-- the temporaries before the comparison -/
structure Ready (s : Sys) (pop2 : Temp) (X Y : Int) : Prop where
  gcdRes : ∃ g, s.temps .mpiGcdRes = some g
  u : ∃ a, s.temps .mpiU = some a
  v : ∃ b, s.temps .mpiV = some b
  first : ∃ x, s.temps .mpiOp1 = some x ∧ x.value = X
  second : ∃ y, s.temps pop2 = some y ∧ y.value = Y

theorem cmpAbs_eq (hx : x.value = X) (hy : y.value = Y) (hX : 0 ≤ X) (hY : 0 ≤ Y) :
    cmpAbs x y = (X - Y).sign := by
  rw [cmpAbs, hx, hy, Int.natAbs_of_nonneg hX, Int.natAbs_of_nonneg hY]

theorem egcdInto_run {fuel : Nat} {r : EgcdResult} {tg ta tb tx ty : Temp}
    (hg : s.temps tg = some g) (ha : s.temps ta = some a) (hb : s.temps tb = some b)
    (hx : s.temps tx = some x) (hy : s.temps ty = some y)
    (hr : mpiEgcd lib g a b x y fuel = some r) : egcdInto lib fuel tg ta tb tx ty s =
      .ok ((), ((s.put tg (some r.gcd)).put ta (some r.a)).put tb (some r.b)) := by
  rw [egcdInto, bind_of_ok (mpiAt_run hg), bind_of_ok (mpiAt_run ha), bind_of_ok (mpiAt_run hb),
    bind_of_ok (mpiAt_run hx), bind_of_ok (mpiAt_run hy), hr]
  rfl

/-- **The coefficients of two magnitudes** -/
theorem coefficients_run (hX : 0 ≤ X) (hY : 0 ≤ Y) : ∃ (A B : Int) (k : Nat),
    A * X + B * Y = Int.gcd X Y ∧
    ∀ (lib : Mbedtls) (fuel : Nat), k ≤ fuel → ∀ (s : Sys) (pop2 : Temp), Ready s pop2 X Y →
      ∃ w, coefficients lib fuel pop2 s = .ok ((), w) ∧ Filled s w (Int.gcd X Y) A B := by
  obtain hlt | heq | hgt := lt_trichotomy X Y
  · obtain ⟨B, A, k, hcomb, hends⟩ := mpiEgcd_coefficients hX hlt
    refine ⟨A, B, k, ?_, fun lib fuel hfuel s pop2 h => ?_⟩
    · rw [add_comm, hcomb, Int.gcd_comm]
    obtain ⟨⟨g, hg⟩, ⟨a, ha⟩, ⟨b, hb⟩, ⟨x, hx, hxv⟩, y, hy, hyv⟩ := h
    obtain ⟨r, hrun, hr1, hr2, hr3⟩ := hends lib g b a y x hyv hxv fuel hfuel
    have hcmp : cmpAbs x y = -1 := by
      rw [cmpAbs_eq hxv hyv hX hY, Int.sign_eq_neg_one_of_neg (by omega)]
    refine ⟨((s.put .mpiGcdRes (some r.gcd)).put .mpiV (some r.a)).put .mpiU (some r.b), ?_, ?_⟩
    · rw [coefficients, bind_of_ok (mpiAt_run hx), bind_of_ok (mpiAt_run hy), hcmp,
        if_neg (by decide), if_neg (by decide)]
      exact egcdInto_run hg hb ha hy hx hrun
    · refine ⟨rfl, ⟨r.gcd, ?_, ?_⟩, ⟨r.b, ?_, hr3⟩, ⟨r.a, ?_, hr2⟩, fun t h1 h2 h3 => ?_⟩
      · simp
      · rw [hr1, Int.gcd_comm]
      · simp
      · simp
      · simp [h1, h2, h3]
  · have hgcd : (Int.gcd X Y : Int) = X := by
      rw [← heq, Int.gcd_self, Int.natAbs_of_nonneg hX]
    refine ⟨1, 0, 0, ?_, fun lib fuel _ s pop2 h => ?_⟩
    · rw [hgcd]
      ring
    obtain ⟨⟨g, hg⟩, ⟨a, ha⟩, ⟨b, hb⟩, ⟨x, hx, hxv⟩, y, hy, hyv⟩ := h
    have hcmp : cmpAbs x y = 0 := by
      rw [cmpAbs_eq hxv hyv hX hY, heq, Int.sub_self, Int.sign_zero]
    refine ⟨((s.put .mpiGcdRes (some (lib.copy g x))).put .mpiU
      (some (lib.lset a 1))).put .mpiV (some (lib.lset b 0)), ?_, ?_⟩
    · rw [coefficients, bind_of_ok (mpiAt_run hx), bind_of_ok (mpiAt_run hy), hcmp, if_pos rfl,
        bind_of_ok (mpiAt_run hg), bind_of_ok (mpiAt_run ha), bind_of_ok (mpiAt_run hb)]
      rfl
    · refine ⟨rfl, ⟨lib.copy g x, ?_, ?_⟩, ⟨lib.lset a 1, ?_, lib.value_lset _ _⟩,
        ⟨lib.lset b 0, ?_, lib.value_lset _ _⟩, fun t h1 h2 h3 => ?_⟩
      · simp
      · rw [lib.value_copy, hxv, hgcd]
      · simp
      · simp
      · simp [h1, h2, h3]
  · obtain ⟨A, B, k, hcomb, hends⟩ := mpiEgcd_coefficients hY hgt
    refine ⟨A, B, k, hcomb, fun lib fuel hfuel s pop2 h => ?_⟩
    obtain ⟨⟨g, hg⟩, ⟨a, ha⟩, ⟨b, hb⟩, ⟨x, hx, hxv⟩, y, hy, hyv⟩ := h
    obtain ⟨r, hrun, hr1, hr2, hr3⟩ := hends lib g a b x y hxv hyv fuel hfuel
    have hcmp : cmpAbs x y = 1 := by
      rw [cmpAbs_eq hxv hyv hX hY, Int.sign_eq_one_of_pos (by omega)]
    refine ⟨((s.put .mpiGcdRes (some r.gcd)).put .mpiU (some r.a)).put .mpiV (some r.b), ?_, ?_⟩
    · rw [coefficients, bind_of_ok (mpiAt_run hx), bind_of_ok (mpiAt_run hy), hcmp,
        if_neg (by decide), if_pos (by decide)]
      exact egcdInto_run hg ha hb hx hy hrun
    · refine ⟨rfl, ⟨r.gcd, ?_, hr1⟩, ⟨r.a, ?_, hr2⟩, ⟨r.b, ?_, hr3⟩, fun t h1 h2 h3 => ?_⟩
      · simp
      · simp
      · simp
      · simp [h1, h2, h3]

/-! ## the function -/

theorem signOf_run (h : s.temps t = some x) : signOf t s = .ok (x.s, s) := by
  rw [signOf, bind_of_ok (mpiAt_run h)]
  rfl

theorem unsigned_run (h : s.temps t = some x) :
    unsigned t s = .ok ((), s.put t (some { x with s := 1 })) := by
  rw [unsigned, bind_of_ok (mpiAt_run h)]
  rfl

theorem applySign_run (e : ℤˣ) (h : s.temps t = some x) :
    applySign t e s = .ok ((), s.put t (some (x.mulSign e))) := by
  rw [applySign, bind_of_ok (mpiAt_run h)]
  rfl

theorem value_unsigned (x : Mpi) : Mpi.value { x with s := 1 } = x.value.natAbs := by
  rw [natAbs_value, Mpi.value, Units.val_one, one_mul]

/-- a number is its sign and its magnitude -/
theorem value_eq (x : Mpi) : x.value = x.s * x.value.natAbs := by
  rw [natAbs_value]
  rfl

/-- a result with room is stored, and nothing else changes -/
theorem copyCheck_room (ht : s.temps t = some x) (h : (s.big dest).Fits x.value) :
    ∃ s', copyCheck t dest s = .ok ((), s') ∧ s'.temps = s.temps ∧
      (s'.big dest).value = x.value ∧ ∀ b, b ≠ dest → s'.big b = s.big b := by
  obtain ⟨s', hs, -, hvalue, -⟩ := store_some s dest h
  refine ⟨s', ?_, store_temps hs, hvalue, fun b hb => ?_⟩
  · rw [copyCheck_run dest ht, hs]
    rfl
  · unfold Sys.store at hs
    split at hs
    · cases hs
    · cases hs
      exact Function.update_of_ne hb _ _

theorem fits_sign {c : BigInt} (e : ℤˣ) (h : c.Fits A) (ha : a.value = A) :
    c.Fits (a.mulSign e).value := by
  rw [value_mulSign, ha, BigInt.Fits, Int.natAbs_mul, Int.units_natAbs, Nat.one_mul]
  exact h

/-- the temporaries of the operands -/
structure Operands (s v : Sys) (pop2 : Temp) (x y g : Mpi) : Prop where
  big : v.big = s.big
  where2 : pop2 = .mpiOp1 ∧ x = y ∨ pop2 = .mpiOp2
  gcdRes : v.temps .mpiGcdRes = some g
  first : v.temps .mpiOp1 = some x
  second : v.temps pop2 = some y
  other : ∀ t, t ≠ .mpiGcdRes → t ≠ .mpiOp1 → t ≠ pop2 → v.temps t = none

theorem operands_run (hs : s.Idle) (gcd op1 op2 : Nat) : ∃ pop2 v,
    operandGcd op1 op2 ((s.put .mpiGcdRes (some (s.read gcd))).put .mpiOp1 (some (s.read op1))) =
      .ok (pop2, v) ∧ Operands s v pop2 (s.read op1) (s.read op2) (s.read gcd) := by
  have hidle : ∀ t, s.temps t = none := fun t => congrFun hs t
  unfold operandGcd
  by_cases h : op2 = op1
  · rw [if_pos h, h]
    refine ⟨.mpiOp1, _, rfl, rfl, .inl ⟨rfl, rfl⟩, ?_, ?_, ?_, fun t h1 h2 h3 => ?_⟩
    all_goals simp [*]
  · rw [if_neg h, bind_of_ok (getMpi_some (by simp [hidle]))]
    refine ⟨.mpiOp2, _, rfl, rfl, .inr rfl, ?_, ?_, ?_, fun t h1 h2 h3 => ?_⟩
    all_goals simp [*]

/-- the numbers that `mpi_egcd` is given are not negative -/
theorem signs_run (h : Operands s v pop2 x y g) : ∃ w0 w,
    unsigned .mpiOp1 v = .ok ((), w0) ∧ unsigned pop2 w0 = .ok ((), w) ∧
    Operands s w pop2 { x with s := 1 } { y with s := 1 } g := by
  obtain ⟨rfl, rfl⟩ | rfl := h.where2
  · refine ⟨_, _, unsigned_run h.first, unsigned_run (x := { x with s := 1 }) (by simp), h.big,
      .inl ⟨rfl, rfl⟩, ?_, ?_, ?_, fun t h1 h2 h3 => ?_⟩
    · simpa using h.gcdRes
    · simp
    · simp
    · simp [h2, h.other t h1 h2 h3]
  · refine ⟨_, _, unsigned_run h.first, unsigned_run (x := y) (by simpa using h.second), h.big,
      .inr rfl, ?_, ?_, ?_, fun t h1 h2 h3 => ?_⟩
    · simpa using h.gcdRes
    · simp
    · simp
    · simp [h2, h3, h.other t h1 h2 h3]

theorem Operands.pop2_ne (h : Operands s v pop2 x y g) :
    pop2 ≠ .mpiGcdRes ∧ pop2 ≠ .mpiU ∧ pop2 ≠ .mpiV := by
  obtain ⟨rfl, -⟩ | rfl := h.where2 <;> decide

/-- the temporaries when the coefficients have been copied to `du` and `dv` -/
structure Copied (s w : Sys) (pop2 : Temp) (du dv : Nat) (D A B : Int) : Prop where
  where2 : pop2 = .mpiOp1 ∨ pop2 = .mpiOp2
  gcdRes : ∃ g, w.temps .mpiGcdRes = some g ∧ g.value = D
  first : ∃ x, w.temps .mpiOp1 = some x
  second : ∃ y, w.temps pop2 = some y
  other : ∀ t, t ≠ .mpiGcdRes → t ≠ .mpiOp1 → t ≠ pop2 → w.temps t = none
  value_u : (w.big du).value = A
  value_v : (w.big dv).value = B
  big : ∀ b, b ≠ du → b ≠ dv → w.big b = s.big b

/-- the end of the part with `mpi_u` and `mpi_v` -/
theorem results_run {du dv : Nat} (huv : du ≠ dv) (hbig : w.big = s.big)
    (ha : w.temps .mpiU = some a) (hb : w.temps .mpiV = some b)
    (hu : (s.big du).Fits a.value) (hv : (s.big dv).Fits b.value) : ∃ w',
    (do copyResult .mpiU (some du); copyResult .mpiV (some dv); mpiFree .mpiU; mpiFree .mpiV) w =
      .ok ((), w') ∧
    w'.temps = ((w.put .mpiU none).put .mpiV none).temps ∧
    (w'.big du).value = a.value ∧ (w'.big dv).value = b.value ∧
    ∀ b, b ≠ du → b ≠ dv → w'.big b = s.big b := by
  rw [← hbig] at hu hv ⊢
  obtain ⟨w1, e1, ht1, hval1, hoth1⟩ := copyCheck_room ha hu
  rw [← hoth1 dv (Ne.symm huv)] at hv
  obtain ⟨w2, e2, ht2, hval2, hoth2⟩ := copyCheck_room (ht1 ▸ hb : w1.temps .mpiV = some b) hv
  have hfreeU : w2.temps .mpiU = some a := by rw [ht2, ht1, ha]
  have hfreeV : (w2.put .mpiU none).temps .mpiV = some b := by simp [ht2, ht1, hb]
  refine ⟨(w2.put .mpiU none).put .mpiV none, ?_, ?_, ?_, hval2, fun c hcu hcv => ?_⟩
  · show (copyCheck .mpiU du >>= fun _ => copyCheck .mpiV dv >>= fun _ => mpiFree .mpiU >>= fun _ =>
      mpiFree .mpiV) w = _
    rw [bind_of_ok e1, bind_of_ok e2, bind_of_ok (mpiFree_run hfreeU), mpiFree_run hfreeV]
  · funext t
    simp [ht2, ht1]
  · show (w2.big du).value = a.value
    rw [hoth2 du huv, hval1]
  · show w2.big c = w.big c
    rw [hoth2 c hcv, hoth1 c hcu]

theorem bezout_run {du dv : Nat} {fuel : Nat} (huv : du ≠ dv) (h : Operands s w pop2 x y g)
    (hco : ∀ w', Ready w' pop2 x.value.natAbs y.value.natAbs →
      ∃ w'', coefficients lib fuel pop2 w' = .ok ((), w'') ∧ Filled w' w'' D A B)
    (hu : (s.big du).Fits A) (hv : (s.big dv).Fits B) :
    ∃ w', bezout lib fuel (some du) (some dv) pop2 w = .ok ((), w') ∧
      Copied s w' pop2 du dv D (x.s * A) (y.s * B) := by
  obtain ⟨w0, w1, hrun0, hrun1, h1⟩ := signs_run h
  obtain ⟨hpg, hpu, hpv⟩ := h1.pop2_ne
  have hU : w1.temps .mpiU = none := h1.other _ (by decide) (by decide) (Ne.symm hpu)
  have hV : (w1.put .mpiU (some (w1.read du))).temps .mpiV = none := by
    simpa using h1.other _ (by decide) (by decide) (Ne.symm hpv)
  have hready : Ready ((w1.put .mpiU (some (w1.read du))).put .mpiV (some (w1.read dv))) pop2
      x.value.natAbs y.value.natAbs := by
    constructor
    · exact ⟨g, by simpa using h1.gcdRes⟩
    · exact ⟨w1.read du, by simp⟩
    · exact ⟨w1.read dv, by simp⟩
    · exact ⟨_, by simpa using h1.first, value_unsigned x⟩
    · exact ⟨_, by simpa [hpu, hpv] using h1.second, value_unsigned y⟩
  obtain ⟨w2, hrun2, hfill⟩ := hco _ hready
  obtain ⟨a, ha, hav⟩ := hfill.u
  obtain ⟨b, hb, hbv⟩ := hfill.v
  have hbig : w2.big = s.big := hfill.big.trans h1.big
  have hput : (w2.put .mpiU (some (a.mulSign x.s))).temps .mpiV = some b := by simpa using hb
  obtain ⟨w3, hrun3, htemps, hvalu, hvalv, hoth⟩ := results_run
    (w := (w2.put .mpiU (some (a.mulSign x.s))).put .mpiV (some (b.mulSign y.s)))
    (a := a.mulSign x.s) (b := b.mulSign y.s) huv hbig (by simp) (by simp)
    (fits_sign _ hu hav) (fits_sign _ hv hbv)
  have hkept : ∀ t, t ≠ .mpiGcdRes → t ≠ .mpiU → t ≠ .mpiV → w3.temps t = w1.temps t := by
    intro t h1' h2' h3'
    rw [htemps]
    simp [h2', h3', hfill.other t h1' h2' h3']
  refine ⟨w3, ?_, ?_⟩
  · rw [bezout, bind_of_ok (signOf_run h.first), bind_of_ok (signOf_run h.second),
      bind_of_ok hrun0, bind_of_ok hrun1, bind_of_ok (getMpi_some hU), bind_of_ok (getMpi_some hV),
      put_read, bind_of_ok hrun2, bind_of_ok (applySign_run _ ha),
      bind_of_ok (applySign_run _ hput)]
    exact hrun3
  · constructor
    · exact h1.where2.imp_left And.left
    · obtain ⟨d, hd, hdv⟩ := hfill.gcdRes
      exact ⟨d, by rw [htemps]; simpa using hd, hdv⟩
    · exact ⟨_, (hkept _ (by decide) (by decide) (by decide)).trans h1.first⟩
    · exact ⟨_, (hkept _ hpg hpu hpv).trans h1.second⟩
    · intro t hg hp hp2
      by_cases hu : t = .mpiU
      · rw [htemps]
        simp [hu]
      by_cases hv : t = .mpiV
      · rw [htemps]
        simp [hv]
      rw [hkept t hg hu hv, h1.other t hg hp hp2]
    · rw [hvalu, value_mulSign, hav]
    · rw [hvalv, value_mulSign, hbv]
    · exact hoth

theorem sign_mul (x : Mpi) (A : Int) : x.s * A * x.value = A * x.value.natAbs := by
  have hsq : (x.s : Int) * x.s = 1 := by rw [← Units.val_mul, Int.units_mul_self, Units.val_one]
  calc x.s * A * x.value = x.s * A * (x.s * x.value.natAbs) := by rw [← value_eq]
    _ = x.s * x.s * (A * x.value.natAbs) := by ring
    _ = A * x.value.natAbs := by rw [hsq, one_mul]

/-- **The function** stores the divisor and the coefficients when there is room. -/
theorem extendedGcd_run (hs : s.Idle) {gcd du dv : Nat} {fuel : Nat} (hgu : gcd ≠ du)
    (hgv : gcd ≠ dv) (huv : du ≠ dv)
    (hco : ∀ w' pop2, Ready w' pop2 (s.big op1).value.natAbs (s.big op2).value.natAbs →
      ∃ w'', coefficients lib fuel pop2 w' = .ok ((), w'') ∧ Filled w' w'' D A B)
    (hg : (s.big gcd).Fits D) (hu : (s.big du).Fits A) (hv : (s.big dv).Fits B) :
    ∃ t, teeBigIntComputeExtendedGcd lib fuel gcd (some du) (some dv) op1 op2 s = .ok ((), t) ∧
      t.Idle ∧ (t.big gcd).value = D ∧ (t.big du).value = (s.read op1).s * A ∧
      (t.big dv).value = (s.read op2).s * B := by
  obtain ⟨pop2, v, hrun, hops⟩ := operands_run hs gcd op1 op2
  have hco' := fun w' => hco w' pop2
  rw [← value_read, ← value_read] at hco'
  obtain ⟨w, hbez, hcop⟩ := bezout_run huv hops hco' hu hv
  obtain ⟨d, hd, hdv⟩ := hcop.gcdRes
  obtain ⟨x, hx⟩ := hcop.first
  obtain ⟨y, hy⟩ := hcop.second
  rw [← hdv, ← hcop.big gcd hgu hgv] at hg
  obtain ⟨w1, hcopy, htemps, hval, hoth⟩ := copyCheck_room hd hg
  have hidle : ∀ t, s.temps t = none := fun t => congrFun hs t
  have hfree1 : (w1.put .mpiGcdRes none).temps .mpiOp1 = some x := by simp [htemps, hx]
  have hfree2 : freeOperand .mpiOp2 pop2 ((w1.put .mpiGcdRes none).put .mpiOp1 none) =
      .ok ((), ((w1.put .mpiGcdRes none).put .mpiOp1 none).put .mpiOp2 none) := by
    apply freeOperand_run
    · intro hp
      exact ⟨y, by simpa [htemps, hp] using hy⟩
    · intro hp
      simpa [htemps] using hcop.other _ (by decide) (by decide) (Ne.symm hp)
  refine ⟨((w1.put .mpiGcdRes none).put .mpiOp1 none).put .mpiOp2 none, ?_, ?_, ?_, ?_, ?_⟩
  · rw [teeBigIntComputeExtendedGcd, bind_of_ok (getMpi_some (hidle _)),
      bind_of_ok (getMpi_some (by simp [hidle])), put_read, bind_of_ok hrun, divisorOrBezout,
      if_neg (by simp), bind_of_ok hbez, bind_of_ok hcopy, bind_of_ok (mpiFree_run (htemps ▸ hd)),
      bind_of_ok (mpiFree_run hfree1)]
    exact hfree2
  · funext t
    have hother := hcop.other t
    obtain rfl | rfl := hcop.where2 <;> simp [htemps] <;> grind
  · exact hval.trans hdv
  · rw [← hcop.value_u]
    exact congrArg BigInt.value (hoth du (Ne.symm hgu))
  · rw [← hcop.value_v]
    exact congrArg BigInt.value (hoth dv (Ne.symm hgv))

end

/-- **The extended greatest common divisor.**  Two values have coefficients, and however they are
given the function ends with the divisor and these, up to their signs, when there is room for them;
the loop by itself is right for every two numbers in order. -/
theorem extendedGcd_correct :
    (∀ X Y : Int, ∃ A B k : Nat, ∀ (lib : Mbedtls) (s : Sys) (gcd u v op1 op2 : Nat), s.Idle →
      (s.big op1).value = X → (s.big op2).value = Y → gcd ≠ u → gcd ≠ v → u ≠ v →
      (s.big gcd).Fits (Int.gcd X Y) → (s.big u).Fits A → (s.big v).Fits B →
      ∀ fuel, k ≤ fuel → ∃ t,
        teeBigIntComputeExtendedGcd lib fuel gcd (some u) (some v) op1 op2 s = .ok ((), t) ∧
        t.Idle ∧ (t.big gcd).value = Int.gcd X Y ∧
        (t.big u).value * X + (t.big v).value * Y = Int.gcd X Y) ∧
    ∀ (lib : Mbedtls) (gcd a b x y : Mpi), 0 ≤ y.value → y.value < x.value →
      Ends (mpiEgcd lib gcd a b x y) (EgcdOk x.value y.value) := by
  constructor
  · intro X Y
    obtain ⟨A, B, k, hcomb, hrun⟩ :=
      coefficients_run (Int.natCast_nonneg X.natAbs) (Int.natCast_nonneg Y.natAbs)
    refine ⟨A.natAbs, B.natAbs, k, ?_⟩
    intro lib s gcd u v op1 op2 hs hX hY hgu hgv huv hg hu hv fuel hfuel
    subst hX hY
    obtain ⟨t, ht, hidle, hgcd, hvalu, hvalv⟩ := extendedGcd_run hs hgu hgv huv
      (hrun lib fuel hfuel) hg hu hv
    have habs : Int.gcd (s.big op1).value.natAbs (s.big op2).value.natAbs =
        Int.gcd (s.big op1).value (s.big op2).value := by
      rw [Int.gcd, Int.natAbs_natCast, Int.natAbs_natCast, Int.gcd]
    refine ⟨t, ht, hidle, hgcd, ?_⟩
    rw [hvalu, hvalv, ← value_read, ← value_read, sign_mul, sign_mul, value_read, value_read, hcomb,
      habs]
  · intro lib gcd a b x y hy hlt
    exact mpiEgcd_ends lib hy hlt

/-- 12, -18, and results of `n` limbs -/
def twelve (n : Nat) : Nat → BigInt
  | 3 => ⟨1, 1, 1, limbsOf 12, one_limb⟩
  | 4 => ⟨-1, 1, 1, limbsOf 18, one_limb⟩
  | _ => ⟨1, n, 0, fun _ => 0, Nat.zero_le n⟩

theorem extendedGcd_twelve : ∃ n fuel t,
    teeBigIntComputeExtendedGcd Mbedtls.exact fuel 0 (some 1) (some 2) 3 4 (Sys.start (twelve n)) =
      .ok ((), t) ∧
    (t.big 0).value = 6 ∧ (t.big 1).value * 12 + (t.big 2).value * (-18) = 6 := by
  obtain ⟨A, B, k, h⟩ := extendedGcd_correct.1 12 (-18)
  have hroom : ∀ v : Nat, v ≤ A + B + 6 → v < 2 ^ (32 * (A + B + 6)) := by
    intro v hv
    exact lt_of_le_of_lt (by omega) Nat.lt_two_pow_self
  obtain ⟨t, ht, -, hgcd, hcomb⟩ := h Mbedtls.exact (Sys.start (twelve (A + B + 6))) 0 1 2 3 4
    (start_idle _) rfl rfl (by decide) (by decide) (by decide)
    (hroom 6 (by omega)) (hroom A (by omega)) (hroom B (by omega)) k le_rfl
  exact ⟨_, _, t, ht, hgcd, hcomb⟩

end MTower.Arith
