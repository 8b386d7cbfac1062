import Mathlib.Algebra.Group.Int.Units
import Mathlib.Data.Nat.Size
import Mathlib.Data.Int.GCD
import Mathlib.Tactic.Ring

/-!
# Big integers

* `trim`, `mag`      the loop that drops leading zero limbs, and what a row of limbs is worth;
* `Mpi`, `BigInt`    a number of the library, and one of the API with its header;
* `Mbedtls`          what is used of the library, with what each function computes;
* `trim_le_iff`      how many limbs a number needs;
* `Mbedtls.exact`    a library with these functions.
-/

set_option linter.unusedVariables false

namespace MTower.Arith

/-! ## rows of limbs -/

abbrev Limbs := Nat → UInt32

/-- `while (n && !p[n - 1]) n--` -/
def trim (p : Limbs) : Nat → Nat
  | 0 => 0
  | n + 1 => if p n = 0 then trim p n else n + 1

/-- what `n` limbs are worth -/
def mag (p : Limbs) : Nat → Nat
  | 0 => 0
  | n + 1 => mag p n + (p n).toNat * 2 ^ (32 * n)

section
variable {p q : Limbs} {n k v : Nat}

theorem trim_le (p : Limbs) (n : Nat) : trim p n ≤ n := by
  induction n with
  | zero => exact le_rfl
  | succ n ih =>
    rw [trim]
    split
    · exact Nat.le_succ_of_le ih
    · exact le_rfl

theorem mag_trim (p : Limbs) (n : Nat) : mag p (trim p n) = mag p n := by
  induction n with
  | zero => rfl
  | succ n ih =>
    rw [trim]
    split
    · next h => rw [ih, mag, h, UInt32.toNat_zero, Nat.zero_mul, Nat.add_zero]
    · rfl

theorem mag_lt (p : Limbs) (n : Nat) : mag p n < 2 ^ (32 * n) := by
  induction n with
  | zero => exact Nat.one_pos
  | succ n ih =>
    have hlimb : (p n).toNat + 1 ≤ 2 ^ 32 := (p n).toNat_lt
    have hmul := Nat.mul_le_mul_right (2 ^ (32 * n)) hlimb
    rw [Nat.add_mul, Nat.one_mul] at hmul
    have hpow : 2 ^ (32 * (n + 1)) = 2 ^ 32 * 2 ^ (32 * n) := by rw [← pow_add]; congr 1; ring
    rw [mag, hpow]
    omega

theorem le_mag_trim (h : trim p n ≠ 0) : 2 ^ (32 * (trim p n - 1)) ≤ mag p n := by
  induction n with
  | zero => exact absurd rfl h
  | succ n ih =>
    rw [trim] at h ⊢
    split
    · next h0 =>
      rw [if_pos h0] at h
      exact le_trans (ih h) (Nat.le_add_right _ _)
    · next h0 =>
      rw [Nat.add_sub_cancel, mag]
      have hpos : 1 ≤ (p n).toNat := by
        apply Nat.one_le_iff_ne_zero.mpr
        intro hz
        exact h0 (UInt32.toNat_inj.mp hz)
      exact le_trans (Nat.le_mul_of_pos_left _ hpos) (Nat.le_add_left _ _)

/-- **A number needs no more than `k` limbs** when it is small enough. -/
theorem trim_le_iff : trim p n ≤ k ↔ mag p n < 2 ^ (32 * k) := by
  constructor
  · intro h
    rw [← mag_trim]
    exact lt_of_lt_of_le (mag_lt p _) (Nat.pow_le_pow_right (by decide) (by omega))
  · intro h
    by_contra hlt
    have hle := le_mag_trim (p := p) (n := n) (by omega)
    have hpow : 2 ^ (32 * k) ≤ 2 ^ (32 * (trim p n - 1)) :=
      Nat.pow_le_pow_right (by decide) (by omega)
    omega

theorem mag_congr (h : ∀ i < n, p i = q i) : mag p n = mag q n := by
  induction n with
  | zero => rfl
  | succ n ih =>
    rw [mag, mag, ih fun i hi => h i (Nat.lt_succ_of_lt hi), h n (Nat.lt_succ_self n)]

/-- the limbs of a number -/
def limbsOf (v : Nat) : Limbs := fun i => UInt32.ofNat (v / 2 ^ (32 * i))

theorem mag_limbsOf (v n : Nat) : mag (limbsOf v) n = v % 2 ^ (32 * n) := by
  induction n with
  | zero => rw [Nat.mul_zero, pow_zero, Nat.mod_one]; rfl
  | succ n ih =>
    have hpow : 2 ^ (32 * (n + 1)) = 2 ^ (32 * n) * 2 ^ 32 := by rw [← pow_add]; congr 1
    rw [mag, ih, limbsOf, UInt32.toNat_ofNat', hpow, Nat.mod_mul, Nat.mul_comm (2 ^ (32 * n))]

end

/-! ## numbers -/

structure Mpi where
  s : ℤˣ
  n : Nat
  p : Limbs

def Mpi.value (x : Mpi) : Int := x.s * mag x.p x.n

structure BigInt where
  sign : ℤˣ
  allocSize : Nat
  nblimbs : Nat
  /-- the words behind the header -/
  limbs : Limbs
  nblimbs_le : nblimbs ≤ allocSize

def BigInt.value (b : BigInt) : Int := b.sign * mag b.limbs b.nblimbs

/-- there is room for a value -/
def BigInt.Fits (b : BigInt) (v : Int) : Prop := v.natAbs < 2 ^ (32 * b.allocSize)

/-- the number that `get_mpi` makes -/
def mpiOf : Option BigInt → Mpi
  | none => ⟨1, 0, fun _ => 0⟩
  | some b => ⟨b.sign, trim b.limbs b.nblimbs, b.limbs⟩

theorem value_mpiOf (b : BigInt) : (mpiOf (some b)).value = b.value := by
  rw [mpiOf, Mpi.value, mag_trim]
  rfl

theorem natAbs_value (x : Mpi) : x.value.natAbs = mag x.p x.n := by
  rw [Mpi.value, Int.natAbs_mul, Int.units_natAbs, Nat.one_mul, Int.natAbs_natCast]

/-- a number fits when the limbs that are left after trimming do -/
theorem fits_iff {b : BigInt} {x : Mpi} : b.Fits x.value ↔ ¬ b.allocSize < trim x.p x.n := by
  rw [BigInt.Fits, natAbs_value, Nat.not_lt, trim_le_iff]

/-- `mpi->s *= s` -/
def Mpi.mulSign (x : Mpi) (s : ℤˣ) : Mpi := { x with s := x.s * s }

theorem value_mulSign (x : Mpi) (s : ℤˣ) : (x.mulSign s).value = s * x.value := by
  rw [Mpi.mulSign, Mpi.value, Mpi.value, Units.val_mul]
  ring

/-! ## the library -/

/-- a magnitude with a bit set or cleared -/
def withBit (m pos : Nat) (val : Bool) : Nat :=
  if m.testBit pos = val then m else if val then m + 2 ^ pos else m - 2 ^ pos

def modulo (a n : Int) : Option Int := if 0 < n then some (a % n) else none

def inverse (a n : Int) : Option Int :=
  if 1 < n ∧ Int.gcd a n = 1 then some (Int.gcdA a n % n) else none

def power (a e n : Int) : Option Int :=
  if 0 ≤ e ∧ 0 < n ∧ n % 2 = 1 then some (a ^ e.toNat % n) else none

/-- The functions of the library.  The first argument is what the result overwrites, and what is
left of it may have more limbs than its value needs. -/
structure Mbedtls where
  addMpi : Mpi → Mpi → Mpi → Mpi
  subMpi : Mpi → Mpi → Mpi → Mpi
  mulMpi : Mpi → Mpi → Mpi → Mpi
  gcd : Mpi → Mpi → Mpi → Mpi
  modMpi : Mpi → Mpi → Mpi → Option Mpi
  invMod : Mpi → Mpi → Mpi → Option Mpi
  expMod : Mpi → Mpi → Mpi → Mpi → Option Mpi
  copy : Mpi → Mpi → Mpi
  lset : Mpi → Int → Mpi
  shiftL : Mpi → Nat → Mpi
  shiftR : Mpi → Nat → Mpi
  setBit : Mpi → Nat → Bool → Mpi
  value_addMpi : ∀ x a b, (addMpi x a b).value = a.value + b.value
  value_subMpi : ∀ x a b, (subMpi x a b).value = a.value - b.value
  value_mulMpi : ∀ x a b, (mulMpi x a b).value = a.value * b.value
  value_gcd : ∀ x a b, (gcd x a b).value = Int.gcd a.value b.value
  value_modMpi : ∀ x a n, (modMpi x a n).map Mpi.value = modulo a.value n.value
  value_invMod : ∀ x a n, (invMod x a n).map Mpi.value = inverse a.value n.value
  value_expMod : ∀ x a e n, (expMod x a e n).map Mpi.value = power a.value e.value n.value
  value_copy : ∀ x a, (copy x a).value = a.value
  value_lset : ∀ x z, (lset x z).value = z
  value_shiftL : ∀ x k, (shiftL x k).value = x.value * 2 ^ k
  value_shiftR : ∀ x k, (shiftR x k).value = x.value.tdiv (2 ^ k)
  value_setBit : ∀ x k val, (setBit x k val).value = x.s * withBit (mag x.p x.n) k val

attribute [simp] Mbedtls.value_addMpi Mbedtls.value_subMpi Mbedtls.value_mulMpi Mbedtls.value_gcd
  Mbedtls.value_copy Mbedtls.value_lset Mbedtls.value_shiftL Mbedtls.value_shiftR

/-- a number with at least `n` limbs -/
def mpiWith (n : Nat) (v : Int) : Mpi where
  s := if v < 0 then -1 else 1
  n := max n ((Nat.size v.natAbs + 31) / 32)
  p := limbsOf v.natAbs

theorem value_mpiWith (n : Nat) (v : Int) : (mpiWith n v).value = v := by
  have hsize : v.natAbs < 2 ^ (32 * max n ((Nat.size v.natAbs + 31) / 32)) := by
    apply lt_of_lt_of_le (Nat.lt_size_self v.natAbs)
    apply Nat.pow_le_pow_right (by decide)
    have hmax := le_max_right n ((Nat.size v.natAbs + 31) / 32)
    omega
  rw [Mpi.value, mpiWith, mag_limbsOf, Nat.mod_eq_of_lt hsize]
  split
  · rw [Units.val_neg, Units.val_one]
    omega
  · rw [Units.val_one]
    omega

theorem map_mpiWith (n : Nat) (o : Option Int) : (o.map (mpiWith n)).map Mpi.value = o := by
  cases o with
  | none => rfl
  | some v => exact congrArg some (value_mpiWith n v)

/-- a library that never gives back limbs of an operand -/
def Mbedtls.exact : Mbedtls where
  addMpi := fun x a b => mpiWith (max x.n (max a.n b.n)) (a.value + b.value)
  subMpi := fun x a b => mpiWith (max x.n (max a.n b.n)) (a.value - b.value)
  mulMpi := fun x a b => mpiWith (max x.n (a.n + b.n)) (a.value * b.value)
  gcd := fun x a b => mpiWith x.n (Int.gcd a.value b.value)
  modMpi := fun x a n => (modulo a.value n.value).map (mpiWith (max x.n a.n))
  invMod := fun x a n => (inverse a.value n.value).map (mpiWith (max x.n n.n))
  expMod := fun x a e n => (power a.value e.value n.value).map (mpiWith (max x.n n.n))
  copy := fun x a => mpiWith x.n a.value
  lset := fun x z => mpiWith x.n z
  shiftL := fun x k => mpiWith x.n (x.value * 2 ^ k)
  shiftR := fun x k => mpiWith x.n (x.value.tdiv (2 ^ k))
  setBit := fun x k val => mpiWith x.n (x.s * withBit (mag x.p x.n) k val)
  value_addMpi := fun x a b => value_mpiWith _ _
  value_subMpi := fun x a b => value_mpiWith _ _
  value_mulMpi := fun x a b => value_mpiWith _ _
  value_gcd := fun x a b => value_mpiWith _ _
  value_modMpi := fun x a n => map_mpiWith _ _
  value_invMod := fun x a n => map_mpiWith _ _
  value_expMod := fun x a e n => map_mpiWith _ _
  value_copy := fun x a => value_mpiWith _ _
  value_lset := fun x z => value_mpiWith _ _
  value_shiftL := fun x k => value_mpiWith _ _
  value_shiftR := fun x k => value_mpiWith _ _
  value_setBit := fun x k val => value_mpiWith _ _

end MTower.Arith
