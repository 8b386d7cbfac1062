import MTower.Lib.Exec
import MTower.Arith.Mpi

/-!
# The functions on big integers

`tee_api_arith_mpi.c` copies the operands to numbers of the library, calls the library and copies
the result back.  Operands that are the same object share one of these temporaries.

* `Sys`                 the big integers by their addresses, the temporaries, what was stored;
* `Fault`               a panic, and what the code must not do with a temporary;
* `bigintBinary` …      the functions;
* `Call`, `Call.run`    any of them.
-/

set_option linter.unusedVariables false

namespace MTower.Arith
open Lib

/-! ## temporaries -/

inductive Temp
  | mpi
  | mpiDest
  | mpiOp
  | mpiOp1
  | mpiOp2
  | mpiN
  | mpiT
  | mpiSrc
  | gcd
  | mpiGcdRes
  | mpiU
  | mpiV
deriving DecidableEq, Repr

inductive Fault
  /-- `TEE_Panic`, which does not return -/
  | panic
  /-- a temporary is read that was not initialised -/
  | uninitialised
  /-- a temporary is initialised while it holds a number -/
  | leaked
  /-- a temporary is freed that holds none -/
  | notLive
  /-- a result is copied to an object that is not there -/
  | nullPointer
  /-- a loop was cut off -/
  | outOfFuel
deriving DecidableEq, Repr

/-- so many limbs were written behind the header at `dest` -/
structure Store where
  dest : Nat
  limbs : Nat
deriving DecidableEq, Repr

structure Sys where
  big : Nat → BigInt
  /-- `none` before a temporary is initialised and after it is freed -/
  temps : Temp → Option Mpi
  stores : List Store

abbrev O := Exec Fault Sys

def teeSuccess : Nat := 0
def teeErrorOverflow : Nat := 0xFFFF300F
def teeErrorNotSupported : Nat := 0xFFFF000A

def Sys.put (s : Sys) (t : Temp) (x : Option Mpi) : Sys :=
  { s with temps := Function.update s.temps t x }

/-- `get_mpi` -/
def getMpi (t : Temp) (bigInt : Option Nat) : O Unit := fun s =>
  match s.temps t with
  | some _ => .error .leaked
  | none => .ok ((), s.put t (some (mpiOf (bigInt.map s.big))))

def mpiAt (t : Temp) : O Mpi := fun s =>
  match s.temps t with
  | none => .error .uninitialised
  | some x => .ok (x, s)

def setMpi (t : Temp) (x : Mpi) : O Unit := fun s => .ok ((), s.put t (some x))

def mpiFree (t : Temp) : O Unit := fun s =>
  match s.temps t with
  | none => .error .notLive
  | some _ => .ok ((), s.put t none)

/-- `MPI_CHECK` of a function that returns a number -/
def mpiCheck : Option Mpi → O Mpi
  | none => throw .panic
  | some x => pure x

/-- `hdr->nblimbs`, `hdr->sign` and the limbs of a number that fits; `memcpy` takes `mpi->n` limbs -/
def BigInt.store (b : BigInt) (x : Mpi) (h : ¬ b.allocSize < trim x.p x.n) : BigInt where
  sign := x.s
  allocSize := b.allocSize
  nblimbs := trim x.p x.n
  limbs := fun i => if i < x.n then x.p i else b.limbs i
  nblimbs_le := Nat.not_lt.mp h

/-- what `copy_mpi_to_bigint` does when the number fits -/
def Sys.store (s : Sys) (dest : Nat) (x : Mpi) : Option Sys :=
  if h : (s.big dest).allocSize < trim x.p x.n then none
  else some { s with
    big := Function.update s.big dest ((s.big dest).store x h)
    stores := s.stores ++ [⟨dest, x.n⟩] }

def copyMpiToBigint (t : Temp) (dest : Nat) : O Nat := do
  let x ← mpiAt t
  let s ← get
  match s.store dest x with
  | none => pure teeErrorOverflow
  | some s' => do
    set s'
    pure teeSuccess

/-- `MPI_CHECK(copy_mpi_to_bigint(…))` -/
def copyCheck (t : Temp) (dest : Nat) : O Unit := do
  let rc ← copyMpiToBigint t dest
  if rc ≠ teeSuccess then throw .panic else pure ()

/-! ## what is read of a number -/

def cmpInt (x : Mpi) (z : Int) : Int := (x.value - z).sign

/-- the number of bytes that a number needs -/
def mpiSize (x : Mpi) : Nat := (Nat.size (mag x.p x.n) + 7) / 8

def mpiIsOdd (x : Mpi) : Bool := (mag x.p x.n).testBit 0

/-! ## the functions -/

def teeBigIntCmpS32 (op : Nat) (shortVal : Int) : O Int := do
  getMpi .mpi (some op)
  let x ← mpiAt .mpi
  mpiFree .mpi
  pure (cmpInt x shortVal)

/-- `pop1` -/
def operand1 (dest op1 : Nat) : O Temp :=
  if op1 = dest then pure .mpiDest
  else do
    getMpi .mpiOp1 (some op1)
    pure .mpiOp1

/-- `pop2` -/
def operand2 (dest op1 op2 : Nat) (pop1 : Temp) : O Temp :=
  if op2 = dest then pure .mpiDest
  else if op2 = op1 then pure pop1
  else do
    getMpi .mpiOp2 (some op2)
    pure .mpiOp2

/-- `if (pop == &own) mbedtls_mpi_free(&own)` -/
def freeOperand (own pop : Temp) : O Unit := if pop = own then mpiFree own else pure ()

/-- a function of two numbers as it is passed to the two functions that follow -/
abbrev Binary := Mpi → Mpi → Mpi → Option Mpi

def bigintBinary (dest op1 op2 : Nat) (func : Binary) : O Unit := do
  getMpi .mpiDest (some dest)
  let pop1 ← operand1 dest op1
  let pop2 ← operand2 dest op1 op2 pop1
  let x ← mpiAt .mpiDest
  let a ← mpiAt pop1
  let b ← mpiAt pop2
  let r ← mpiCheck (func x a b)
  setMpi .mpiDest r
  copyCheck .mpiDest dest
  mpiFree .mpiDest
  freeOperand .mpiOp1 pop1
  freeOperand .mpiOp2 pop2

/-- `API_PANIC` when the modulus is too small -/
def checkModulus (n : Nat) : O Unit := do
  let c ← teeBigIntCmpS32 n 2
  if c < 0 then throw .panic else pure ()

section
variable (lib : Mbedtls)

def bigintBinaryMod (dest op1 op2 n : Nat) (func : Binary) : O Unit := do
  checkModulus n
  getMpi .mpiDest (some dest)
  getMpi .mpiN (some n)
  let pop1 ← operand1 dest op1
  let pop2 ← operand2 dest op1 op2 pop1
  getMpi .mpiT none
  let t ← mpiAt .mpiT
  let a ← mpiAt pop1
  let b ← mpiAt pop2
  let r ← mpiCheck (func t a b)
  setMpi .mpiT r
  let x ← mpiAt .mpiDest
  let t ← mpiAt .mpiT
  let m ← mpiAt .mpiN
  let r ← mpiCheck (lib.modMpi x t m)
  setMpi .mpiDest r
  copyCheck .mpiDest dest
  mpiFree .mpiDest
  freeOperand .mpiOp1 pop1
  freeOperand .mpiOp2 pop2
  mpiFree .mpiT
  mpiFree .mpiN

def binary (f : Mpi → Mpi → Mpi → Mpi) : Binary := fun x a b => some (f x a b)

def teeBigIntAdd (dest op1 op2 : Nat) : O Unit := bigintBinary dest op1 op2 (binary lib.addMpi)

def teeBigIntSub (dest op1 op2 : Nat) : O Unit := bigintBinary dest op1 op2 (binary lib.subMpi)

/-- the value of the source when it is another object -/
def negSource (dest src : Nat) : O Unit :=
  if dest ≠ src then do
    getMpi .mpiSrc (some src)
    let x ← mpiAt .mpiDest
    let y ← mpiAt .mpiSrc
    setMpi .mpiDest (lib.copy x y)
    mpiFree .mpiSrc
  else pure ()

def teeBigIntNeg (dest src : Nat) : O Unit := do
  getMpi .mpiDest (some dest)
  negSource lib dest src
  let x ← mpiAt .mpiDest
  setMpi .mpiDest (x.mulSign (-1))
  copyCheck .mpiDest dest
  mpiFree .mpiDest

def teeBigIntMod (dest op n : Nat) : O Unit := do
  checkModulus n
  bigintBinary dest op n lib.modMpi

def teeBigIntAddMod (dest op1 op2 n : Nat) : O Unit :=
  bigintBinaryMod lib dest op1 op2 n (binary lib.addMpi)

def teeBigIntSubMod (dest op1 op2 n : Nat) : O Unit :=
  bigintBinaryMod lib dest op1 op2 n (binary lib.subMpi)

def teeBigIntMulMod (dest op1 op2 n : Nat) : O Unit :=
  bigintBinaryMod lib dest op1 op2 n (binary lib.mulMpi)

/-- `API_PANIC` when zero is to be inverted -/
def checkInvertible (op : Nat) : O Unit := do
  let c ← teeBigIntCmpS32 op 0
  if c = 0 then throw .panic else pure ()

/-- `pop` -/
def operand (dest op : Nat) : O Temp :=
  if op = dest then pure .mpiDest
  else do
    getMpi .mpiOp (some op)
    pure .mpiOp

def teeBigIntInvMod (dest op n : Nat) : O Unit := do
  checkModulus n
  checkInvertible op
  getMpi .mpiDest (some dest)
  getMpi .mpiN (some n)
  let pop ← operand dest op
  let x ← mpiAt .mpiDest
  let a ← mpiAt pop
  let m ← mpiAt .mpiN
  let r ← mpiCheck (lib.invMod x a m)
  setMpi .mpiDest r
  copyCheck .mpiDest dest
  mpiFree .mpiDest
  mpiFree .mpiN
  freeOperand .mpiOp pop

/-- the branches of `TEE_BigIntShiftRight` -/
def shiftInto (dest op bits : Nat) : O Unit :=
  if dest = op then do
    let x ← mpiAt .mpiDest
    setMpi .mpiDest (lib.shiftR x bits)
  else do
    getMpi .mpiOp (some op)
    let x ← mpiAt .mpiDest
    let y ← mpiAt .mpiOp
    if mpiSize y ≤ mpiSize x then do
      setMpi .mpiDest (lib.shiftR (lib.copy x y) bits)
      mpiFree .mpiOp
    else do
      getMpi .mpiT none
      let t ← mpiAt .mpiT
      setMpi .mpiT (lib.shiftR (lib.copy t y) bits)
      let t ← mpiAt .mpiT
      setMpi .mpiDest (lib.copy x t)
      mpiFree .mpiT
      mpiFree .mpiOp

def teeBigIntShiftRight (dest op bits : Nat) : O Unit := do
  getMpi .mpiDest (some dest)
  shiftInto lib dest op bits
  copyCheck .mpiDest dest
  mpiFree .mpiDest

def teeBigIntSetBit (op bitIndex : Nat) (value : Bool) : O Nat := do
  getMpi .mpi (some op)
  let x ← mpiAt .mpi
  setMpi .mpi (lib.setBit x bitIndex value)
  let res ← copyMpiToBigint .mpi op
  mpiFree .mpi
  pure res

/-- the part of `TEE_BigIntExpMod` that an even modulus skips -/
def expModTail (dest : Nat) (pop1 pop2 : Temp) (m : Mpi) : O Nat :=
  if !mpiIsOdd m then pure teeErrorNotSupported
  else do
    let x ← mpiAt .mpiDest
    let a ← mpiAt pop1
    let e ← mpiAt pop2
    let r ← mpiCheck (lib.expMod x a e m)
    setMpi .mpiDest r
    copyCheck .mpiDest dest
    pure teeSuccess

def teeBigIntExpMod (dest op1 op2 n : Nat) : O Nat := do
  getMpi .mpiDest (some dest)
  getMpi .mpiN (some n)
  let pop1 ← operand1 dest op1
  let pop2 ← operand2 dest op1 op2 pop1
  let m ← mpiAt .mpiN
  if cmpInt m 2 ≤ 0 then throw .panic
  else do
    let res ← expModTail lib dest pop1 pop2 m
    mpiFree .mpiDest
    mpiFree .mpiN
    freeOperand .mpiOp1 pop1
    freeOperand .mpiOp2 pop2
    pure res

/-- `pop2` of `TEE_BigIntRelativePrime` and of `TEE_BigIntComputeExtendedGcd` -/
def operandGcd (op1 op2 : Nat) : O Temp :=
  if op2 = op1 then pure .mpiOp1
  else do
    getMpi .mpiOp2 (some op2)
    pure .mpiOp2

def teeBigIntRelativePrime (op1 op2 : Nat) : O Bool := do
  getMpi .mpiOp1 (some op1)
  let pop2 ← operandGcd op1 op2
  getMpi .gcd none
  let g ← mpiAt .gcd
  let a ← mpiAt .mpiOp1
  -- the temporary, and not `pop2`
  let b ← mpiAt .mpiOp2
  setMpi .gcd (lib.gcd g a b)
  let g ← mpiAt .gcd
  mpiFree .gcd
  mpiFree .mpiOp1
  freeOperand .mpiOp2 pop2
  pure (cmpInt g 1 == 0)

end

/-! ## any call -/

inductive Call
  | add (dest op1 op2 : Nat)
  | sub (dest op1 op2 : Nat)
  | neg (dest src : Nat)
  | mod (dest op n : Nat)
  | addMod (dest op1 op2 n : Nat)
  | subMod (dest op1 op2 n : Nat)
  | mulMod (dest op1 op2 n : Nat)
  | invMod (dest op n : Nat)
  | expMod (dest op1 op2 n : Nat)
  | shiftRight (dest op bits : Nat)
  | setBit (op bitIndex : Nat) (value : Bool)
  | relativePrime (op1 op2 : Nat)
deriving DecidableEq, Repr

/-- a function without a result returns `TEE_SUCCESS`, a truth value is 0 or 1 -/
def Call.run (lib : Mbedtls) : Call → O Nat
  | .add dest op1 op2 => do teeBigIntAdd lib dest op1 op2; pure teeSuccess
  | .sub dest op1 op2 => do teeBigIntSub lib dest op1 op2; pure teeSuccess
  | .neg dest src => do teeBigIntNeg lib dest src; pure teeSuccess
  | .mod dest op n => do teeBigIntMod lib dest op n; pure teeSuccess
  | .addMod dest op1 op2 n => do teeBigIntAddMod lib dest op1 op2 n; pure teeSuccess
  | .subMod dest op1 op2 n => do teeBigIntSubMod lib dest op1 op2 n; pure teeSuccess
  | .mulMod dest op1 op2 n => do teeBigIntMulMod lib dest op1 op2 n; pure teeSuccess
  | .invMod dest op n => do teeBigIntInvMod lib dest op n; pure teeSuccess
  | .expMod dest op1 op2 n => teeBigIntExpMod lib dest op1 op2 n
  | .shiftRight dest op bits => do teeBigIntShiftRight lib dest op bits; pure teeSuccess
  | .setBit op bitIndex value => teeBigIntSetBit lib op bitIndex value
  | .relativePrime op1 op2 => do
    let rc ← teeBigIntRelativePrime lib op1 op2
    pure rc.toNat

end MTower.Arith
