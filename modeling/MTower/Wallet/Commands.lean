import MTower.Lib.Buffers
import MTower.Lib.Exec
import MTower.Wallet.Bip32
import MTower.Wallet.Bip39

/-!
# The commands of the wallet that move buffers

`bw_ta.c` checks the parameter types and the PIN of a command, and then copies as many bytes as the
command has, whatever size the client has declared.

* `Env`                    PBKDF2, HMAC-SHA512, SHA-256, the curve and the address of a public key;
* `Sys`, `Access`          the client's memory, the stored keys, and what was touched of a buffer;
* `Command.run`            the four commands;
* `Respects`               a command stays inside the buffers, and refuses those that are too small.
-/

set_option linter.unusedVariables false

namespace MTower.Wallet.Ta
open Lib

def teeErrorBadParameters : Nat := 0xFFFF0006
def teeErrorShortBuffer : Nat := 0xFFFF0010

/-! ## states -/

/-- what the commands use of the libraries -/
structure Env where
  sha256 : List UInt8 → List.Vector UInt8 32
  hmac : Hmac512
  /-- the password, the salt and the rounds -/
  pbkdf2 : List UInt8 → List UInt8 → Nat → List.Vector UInt8 64
  point : Nat → Nat × Nat
  /-- `ecdsa_to_bitaddr`: the result, and the array `address` -/
  bitAddr : List UInt8 → List UInt8 → Nat × List.Vector UInt8 34
  /-- the private value, the public values and the digest -/
  sign : List UInt8 → List UInt8 → List UInt8 → List UInt8 → Option (List.Vector UInt8 64)
  fuel : Nat

/-- what one call draws, and finds in its locals -/
structure Draw where
  entropy : List.Vector UInt8 32
  /-- the byte behind the entropy -/
  behind : UInt8
  junk : Nat → UInt8
  /-- `TEE_CloseObject` takes the handle that `TEE_CreatePersistentObject` does not write -/
  closes : Bool

/-- a value or a memref, by the parameter types -/
structure Param where
  a : Nat
  b : Nat
  buffer : Nat
  size : Nat
deriving DecidableEq, Repr

/-- so many bytes from the start of a memref were read or written -/
structure Access where
  param : Nat
  len : Nat
deriving DecidableEq, Repr

structure Sys where
  mem : Mem
  params : Nat → Param
  /-- the data of the objects `TA_OBJECT_MASTERKEY_EXT`, the last one created first -/
  objects : List (List UInt8)
  log : List Access

inductive Fault
  | panic
  /-- past the end of an array -/
  | overrun
  | diverges
deriving DecidableEq, Repr

/-- a fault comes with the state it happens in -/
abbrev O := Exec (Fault × Sys) Sys

def stop {α : Type} (f : Fault) : O α := fun s => .error (f, s)

def orStop {α : Type} (f : Fault) : Option α → O α
  | none => stop f
  | some a => pure a

def Sys.touch (s : Sys) (i n : Nat) : Sys := { s with log := s.log ++ [⟨i, n⟩] }

/-- `TEE_MemMove` from a memref -/
def readBuffer (i n : Nat) : O (List UInt8) := fun s =>
  .ok (s.mem.bytes (s.params i).buffer n, s.touch i n)

/-- `TEE_MemMove` to a memref -/
def writeBuffer (i : Nat) (l : List UInt8) : O Unit := fun s =>
  .ok ((), { s.touch i l.length with mem := s.mem.write (s.params i).buffer l })

def setParam (i : Nat) (f : Param → Param) : O Unit :=
  modify fun s => { s with params := Function.update s.params i (f (s.params i)) }

/-! ## `bip39.c` and `bip32.c` -/

/-- the bytes before the first null -/
def cString (l : List UInt8) : Option (List UInt8) :=
  if 0 ∈ l then some (l.takeWhile (· ≠ 0)) else none

def bip39Pbkdf2Rounds : Nat := 2048

def fromMnemonicToSeed (e : Env) (mnemonic : List UInt8) : List UInt8 :=
  (e.pbkdf2 mnemonic (octets "mnemonic") bip39Pbkdf2Rounds).toList

/-- the array `key_str` has 64 bytes -/
def keyStr : List UInt8 := octets "Bitcoin seed" ++ List.replicate 52 0

/-- `hdnode_from_seed`: the key and the chain code -/
def hdnodeFromSeed (e : Env) (seed : List UInt8) : List UInt8 × List UInt8 :=
  let mac := (e.hmac keyStr seed).toList
  (mac.take 32, mac.drop 32)

/-! ## `bw_ta.c` -/

/-- `masterkey_ext` of a mnemonic -/
def masterkeyExt (e : Env) (mnemonic : List UInt8) : List UInt8 :=
  let r := hdnodeFromSeed e (fromMnemonicToSeed e mnemonic)
  r.1 ++ r.2

/-- `TEE_CreatePersistentObject`, and `TEE_CloseObject` of the handle -/
def storeMasterkey (d : Draw) (data : List UInt8) : O Unit := do
  modify fun s => { s with objects := data :: s.objects }
  if d.closes then pure () else stop .panic

def fromMnemonicToMasterkey (e : Env) (d : Draw) (mnemonic : List UInt8) : O Unit := do
  let text ← orStop .overrun (cString mnemonic)
  storeMasterkey d (masterkeyExt e text)

/-- the first of the objects that were created is found; without one `TEE_ReadObjectData` panics -/
def readMasterkey : O (List UInt8) := do
  let s ← get
  orStop .panic s.objects.getLast?

/-- `get_child_privatekey` and `get_child_publickey` -/
def getChildren (e : Env) (accountId : Nat) : O (Ckd × PublicCkd) := do
  let ext ← readMasterkey
  let sk ← orStop .diverges (getChildPrivatekey e.hmac e.fuel ext accountId)
  let ext ← readMasterkey
  let pk ← orStop .diverges (getChildPublickey e.hmac e.point e.fuel ext accountId)
  pure (sk, pk)

def getAccountAddress (e : Env) (accountId : Nat) : O (Nat × List.Vector UInt8 34) := do
  let r ← getChildren e accountId
  pure (e.bitAddr r.2.childPkX r.2.childPkY)

/-- the raw transaction is parameter 1 and the signature parameter 2; a null pointer is a panic of
the API -/
def signRawTx (e : Env) (accountId : Nat) : O Nat := do
  let r ← getChildren e accountId
  let s ← get
  if (s.params 1).buffer = 0 ∧ (s.params 1).size ≠ 0 then stop .panic
  else do
    let rawtx ← readBuffer 1 (s.params 1).size
    let hash := e.sha256 (e.sha256 rawtx).toList
    if (s.params 2).buffer = 0 then stop .panic
    else do
      let sig ← orStop .panic (e.sign r.1.childSk r.2.childPkX r.2.childPkY hash.toList)
      writeBuffer 2 sig.toList
      pure 1

def teeParamTypes (t0 t1 t2 t3 : Nat) : Nat := t0 ||| t1 <<< 4 ||| t2 <<< 8 ||| t3 <<< 12

def teeParamTypeNone : Nat := 0
def teeParamTypeValueInput : Nat := 1
def teeParamTypeValueInout : Nat := 3
def teeParamTypeMemrefInput : Nat := 5
def teeParamTypeMemrefOutput : Nat := 6

/-- the checks that every command begins with -/
def checked (expParamTypes paramTypes : Nat) (body : O Nat) : O Nat :=
  if paramTypes ≠ expParamTypes then pure teeErrorBadParameters
  else do
    let s ← get
    if (s.params 0).a ≠ 1234 then do
      setParam 0 fun p => { p with b := 2 }
      pure teeSuccess
    else body

def generateTypes : Nat :=
  teeParamTypes teeParamTypeValueInout teeParamTypeMemrefOutput teeParamTypeNone teeParamTypeNone

def generateBody (e : Env) (d : Draw) : O Nat := do
  let mnemonic ← orStop .overrun
    (getRandomMnemonic e.sha256 256 (d.entropy.toList ++ [d.behind]) d.junk)
  writeBuffer 1 mnemonic
  fromMnemonicToMasterkey e d mnemonic
  pure teeSuccess

def generateNewMasterkey (e : Env) (d : Draw) (paramTypes : Nat) : O Nat :=
  checked generateTypes paramTypes (generateBody e d)

def restoreTypes : Nat :=
  teeParamTypes teeParamTypeValueInout teeParamTypeMemrefInput teeParamTypeNone teeParamTypeNone

def restoreBody (e : Env) (d : Draw) : O Nat := do
  let mnemonic ← readBuffer 1 mnemonicLength
  fromMnemonicToMasterkey e d mnemonic
  pure teeSuccess

def mnemonicToMasterkey (e : Env) (d : Draw) (paramTypes : Nat) : O Nat :=
  checked restoreTypes paramTypes (restoreBody e d)

def addressTypes : Nat :=
  teeParamTypes teeParamTypeValueInout teeParamTypeValueInput teeParamTypeMemrefOutput
    teeParamTypeNone

def addressBody (e : Env) : O Nat := do
  let s ← get
  let r ← getAccountAddress e (s.params 1).a
  writeBuffer 2 (r.2.toList.take 25)
  pure r.1

def getBitcoinAddress (e : Env) (paramTypes : Nat) : O Nat :=
  checked addressTypes paramTypes (addressBody e)

def signTypes : Nat :=
  teeParamTypes teeParamTypeValueInout teeParamTypeMemrefInput teeParamTypeMemrefOutput
    teeParamTypeValueInput

def signBody (e : Env) : O Nat := do
  let s ← get
  let res ← signRawTx e (s.params 3).a
  setParam 0 fun p => if res = 1 then { p with a := 1 } else { p with b := 1 }
  pure teeSuccess

def signTransaction (e : Env) (paramTypes : Nat) : O Nat :=
  checked signTypes paramTypes (signBody e)

/-! ## any of them -/

inductive Command
  | generate
  | restore
  | address
  | sign
deriving DecidableEq, Repr

def Command.types : Command → Nat
  | .generate => generateTypes
  | .restore => restoreTypes
  | .address => addressTypes
  | .sign => signTypes

def Command.body (e : Env) (d : Draw) : Command → O Nat
  | .generate => generateBody e d
  | .restore => restoreBody e d
  | .address => addressBody e
  | .sign => signBody e

def Command.run (e : Env) (d : Draw) (paramTypes : Nat) : Command → O Nat
  | .generate => generateNewMasterkey e d paramTypes
  | .restore => mnemonicToMasterkey e d paramTypes
  | .address => getBitcoinAddress e paramTypes
  | .sign => signTransaction e paramTypes

/-- the memref that takes or gives the mnemonic, the address or the signature -/
def Command.memref : Command → Nat
  | .generate => 1
  | .restore => 1
  | .address => 2
  | .sign => 2

/-- the bytes of a mnemonic, an address or a signature -/
def Command.need : Command → Nat
  | .generate => mnemonicLength
  | .restore => mnemonicLength
  | .address => 25
  | .sign => 64

/-- nothing was touched yet -/
def Sys.fresh (s : Sys) : Sys := { s with log := [] }

/-- A command touches no more of a buffer than was declared, and one with a buffer that is too small
is refused, with the stored keys as they were. -/
structure Respects (e : Env) (d : Draw) (paramTypes : Nat) (c : Command) (s : Sys) : Prop where
  inside : ∀ x ∈ (endState (c.run e d paramTypes s.fresh)).log, x.len ≤ (s.params x.param).size
  refuses : (s.params c.memref).size < c.need → ∃ rc t, c.run e d paramTypes s.fresh = .ok (rc, t) ∧
    (rc = teeErrorShortBuffer ∨ rc = teeErrorBadParameters) ∧ t.objects = s.objects

/-- libraries for examples: the key tells the length of the mnemonic -/
def someEnv : Env where
  sha256 _ := List.Vector.replicate 32 0
  hmac _ message := List.Vector.replicate 64 (message.headD 0)
  pbkdf2 password _ _ := List.Vector.replicate 64 (UInt8.ofNat password.length)
  point _ := (0, 0)
  bitAddr _ _ := (teeSuccess, List.Vector.replicate 34 0)
  sign _ _ _ _ := some (List.Vector.replicate 64 0)
  fuel := 1

def someDraw : Draw := ⟨List.Vector.replicate 32 0, 0, fun _ => 0, true⟩

/-- the right PIN, and a buffer at 64 of a declared size -/
def someSys (mem : Mem) (size : Nat) : Sys :=
  ⟨mem, fun i => if i = 0 then ⟨1234, 0, 0, 0⟩ else ⟨0, 0, 64, size⟩, [], []⟩

end MTower.Wallet.Ta
