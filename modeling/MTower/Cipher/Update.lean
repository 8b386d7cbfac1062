import MTower.Lib.Buffers
import MTower.Lib.Cbc
import MTower.Lib.Exec

/-!
# The cipher update with ciphertext stealing

`tee_aes_cbc_cts_update` puts the stealing on top of a context that chains blocks: it writes blocks
at crossed offsets, through two arrays of its own.

* `Ciphers`                  the cipher functions of the library, for any block cipher;
* `Sys`, `Ptr`               the caller's memory, the two arrays and the two contexts;
* `teeDoCipherUpdate`        whole blocks, but for the last call of some algorithms;
* `teeAesCbcCtsUpdate`       the function.
-/

set_option linter.unusedVariables false

namespace MTower.Cipher
open Lib Lib.Cbc

def teeSuccess : Nat := 0
def teeErrorBadParameters : Nat := 0xFFFF0006
def teeErrorBadState : Nat := 0xFFFF0007
def teeErrorNotSupported : Nat := 0xFFFF000A

def teeModeEncrypt : Nat := 0
def teeModeDecrypt : Nat := 1

def teeAlgAesEcbNoPad : Nat := 0x10000010
def teeAlgAesCbcNoPad : Nat := 0x10000110
def teeAlgAesCtr : Nat := 0x10000210
def teeAlgAesCts : Nat := 0x10000310
def teeAlgAesXts : Nat := 0x10000410

/-! ## the library -/

abbrev Block := Vector UInt8 16

/-- chained blocks of ciphertext -/
abbrev chained (E : Block → Block) (iv : Block) (l : List UInt8) : List Block :=
  cbcEncrypt (Vector.zipWith (· ^^^ ·)) E iv (cut 16 l)

/-- and of plaintext -/
abbrev unchained (D : Block → Block) (iv : Block) (l : List UInt8) : List Block :=
  cbcDecrypt (Vector.zipWith (· ^^^ ·)) D iv (cut 16 l)

/-- `crypto_cipher_update` of a block cipher: in CBC mode the vector is the last block of ciphertext,
in ECB mode every block stands by itself -/
structure Ciphers where
  Key : Type
  encrypt : Key → Block → Block
  decrypt : Key → Block → Block
  decrypt_encrypt : ∀ k v, decrypt k (encrypt k v) = v
  Ctx : Type
  key : Ctx → Key
  iv : Ctx → Block
  /-- the algorithm, the mode and `last_block`; what is written, or an error -/
  update : Ctx → Nat → Nat → Bool → List UInt8 → Except Nat (List UInt8 × Ctx)
  cbc_encrypt : ∀ c last l, 16 ∣ l.length → ∃ c',
    update c teeAlgAesCbcNoPad teeModeEncrypt last l =
      .ok (join (chained (encrypt (key c)) (iv c) l), c') ∧
    key c' = key c ∧ iv c' = chain (iv c) (chained (encrypt (key c)) (iv c) l)
  cbc_decrypt : ∀ c last l, 16 ∣ l.length → ∃ c',
    update c teeAlgAesCbcNoPad teeModeDecrypt last l =
      .ok (join (unchained (decrypt (key c)) (iv c) l), c') ∧
    key c' = key c ∧ iv c' = chain (iv c) (cut 16 l)
  ecb_decrypt : ∀ c last l, 16 ∣ l.length → ∃ c',
    update c teeAlgAesEcbNoPad teeModeDecrypt last l =
      .ok (join ((cut 16 l).map (decrypt (key c))), c') ∧ key c' = key c

/-! ## memory -/

inductive Area
  | caller
  | tmpBlock
  | tmp2Block
deriving DecidableEq, Repr

structure Ptr where
  area : Area
  off : Nat
deriving DecidableEq, Repr

def Ptr.add (p : Ptr) (n : Nat) : Ptr := ⟨p.area, p.off + n⟩

inductive Context
  | cbc
  | ecb
deriving DecidableEq, Repr

inductive Fault
  /-- past the end of `tmp_block` or `tmp2_block` -/
  | overrun
deriving DecidableEq, Repr

structure Sys (lib : Ciphers) where
  mem : Area → Mem
  ctx : Context → lib.Ctx

abbrev O (lib : Ciphers) := Exec Fault (Sys lib)

/-- the arrays have 64 bytes -/
def Ptr.Inside (p : Ptr) (n : Nat) : Prop := p.area = .caller ∨ p.off + n ≤ 64

instance (p : Ptr) (n : Nat) : Decidable (p.Inside n) :=
  inferInstanceAs (Decidable (_ ∨ _))

section
variable {lib : Ciphers}

def Sys.bytes (s : Sys lib) (p : Ptr) (n : Nat) : List UInt8 := (s.mem p.area).bytes p.off n

def Sys.put (s : Sys lib) (p : Ptr) (l : List UInt8) : Sys lib :=
  { s with mem := Function.update s.mem p.area ((s.mem p.area).write p.off l) }

def Sys.setCtx (s : Sys lib) (c : Context) (x : lib.Ctx) : Sys lib :=
  { s with ctx := Function.update s.ctx c x }

def rd (p : Ptr) (n : Nat) : O lib (List UInt8) := fun s =>
  if p.Inside n then .ok (s.bytes p n, s) else .error .overrun

def wr (p : Ptr) (l : List UInt8) : O lib Unit := fun s =>
  if p.Inside l.length then .ok ((), s.put p l) else .error .overrun

def memcpy (dst src : Ptr) (n : Nat) : O lib Unit := do
  let l ← rd src n
  wr dst l

def memset (dst : Ptr) (n : Nat) : O lib Unit := wr dst (List.replicate n 0)

/-! ## the functions -/

/-- the buffers lie apart: the input is read before the output is written -/
def cryptoCipherUpdate (ctx : Context) (algo mode : Nat) (lastBlock : Bool) (data : Ptr) (len : Nat)
    (dst : Ptr) : O lib Nat := do
  let l ← rd data len
  let s ← get
  match lib.update (s.ctx ctx) algo mode lastBlock l with
  | .error res => pure res
  | .ok (out, c) => do
    modify fun s => s.setCtx ctx c
    wr dst out
    pure teeSuccess

/-- `TEE_ALG_AES_…` and `TEE_ALG_DES…` -/
def teeAlgAes : List Nat :=
  [0x30000110, 0x30000510, 0x30000610, 0x10000010, 0x10000110, 0x10000210, 0x10000310, 0x10000410,
    0x40000710, 0x40000810]
def teeAlgDes : List Nat :=
  [0x30000111, 0x30000511, 0x10000011, 0x10000111, 0x30000113, 0x30000513, 0x10000013, 0x10000113]

def teeCipherGetBlockSize (algo : Nat) : Option Nat :=
  if algo ∈ teeAlgAes then some 16 else if algo ∈ teeAlgDes then some 8 else none

/-- ECB and CBC of AES, DES and DES3 -/
def teeAlgNoPad : List Nat :=
  [0x10000010, 0x10000011, 0x10000013, 0x10000110, 0x10000111, 0x10000113]

def teeDoCipherUpdate (ctx : Context) (algo mode : Nat) (lastBlock : Bool) (data : Ptr) (len : Nat)
    (dst : Ptr) : O lib Nat :=
  if mode ≠ teeModeEncrypt ∧ mode ≠ teeModeDecrypt then pure teeErrorBadParameters
  else
    match teeCipherGetBlockSize algo with
    | none => pure teeErrorNotSupported
    | some blockSize =>
      if len % blockSize ≠ 0 then
        if lastBlock = false ∧ algo ≠ teeAlgAesCtr then pure teeErrorBadParameters
        else if algo ∈ teeAlgNoPad then pure teeErrorBadParameters
        else if algo = teeAlgAesCtr ∨ algo = teeAlgAesXts ∨ algo = teeAlgAesCts then
          cryptoCipherUpdate ctx algo mode lastBlock data len dst
        else pure teeErrorNotSupported
      else cryptoCipherUpdate ctx algo mode lastBlock data len dst

def tmpBlock : Ptr := ⟨.tmpBlock, 0⟩
def tmp2Block : Ptr := ⟨.tmp2Block, 0⟩

/-- `tee_do_cipher_update` with `TEE_ALG_AES_CBC_NOPAD` and `last_block` 0 -/
def cbcUpdate (mode : Nat) (data : Ptr) (len : Nat) (dst : Ptr) : O lib Nat :=
  teeDoCipherUpdate .cbc teeAlgAesCbcNoPad mode false data len dst

/-- `if (res != TEE_SUCCESS) return res;` -/
def onSuccess (x next : O lib Nat) : O lib Nat := do
  let res ← x
  if res ≠ teeSuccess then pure res else next

def ctsEncrypt (nbBlocks lenLast : Nat) (data dst : Ptr) : O lib Nat := do
  memcpy tmpBlock (data.add ((nbBlocks - 1) * 16)) lenLast
  memset (tmpBlock.add lenLast) (16 - lenLast)
  onSuccess (cbcUpdate teeModeEncrypt data ((nbBlocks - 1) * 16) dst) do
    memcpy (dst.add ((nbBlocks - 1) * 16)) (dst.add ((nbBlocks - 2) * 16)) lenLast
    onSuccess (cbcUpdate teeModeEncrypt tmpBlock 16 (dst.add ((nbBlocks - 2) * 16)))
      (pure teeSuccess)

/-- `if (nb_blocks > 2)` -/
def ctsHead (nbBlocks mode : Nat) (data dst : Ptr) : O lib Nat :=
  if 2 < nbBlocks then cbcUpdate mode data ((nbBlocks - 2) * 16) dst else pure teeSuccess

def ctsDecrypt (nbBlocks lenLast mode : Nat) (data dst : Ptr) : O lib Nat :=
  onSuccess (teeDoCipherUpdate .ecb teeAlgAesEcbNoPad mode false (data.add ((nbBlocks - 2) * 16)) 16
      tmp2Block) do
    memcpy tmpBlock (data.add ((nbBlocks - 1) * 16)) lenLast
    memcpy (tmpBlock.add lenLast) (tmp2Block.add lenLast) (16 - lenLast)
    onSuccess (ctsHead nbBlocks mode data dst) do
      onSuccess (cbcUpdate mode tmpBlock 16 (dst.add ((nbBlocks - 2) * 16))) do
        onSuccess (cbcUpdate mode (data.add ((nbBlocks - 2) * 16)) 16 tmpBlock) do
          memcpy (dst.add ((nbBlocks - 1) * 16)) tmpBlock lenLast
          pure teeSuccess

/-- the length is a 32-bit number -/
def nbBlocks (len : Nat) : Nat := (len + 15) % 2 ^ 32 / 16

def lenLastBlock (len : Nat) : Nat := if len % 16 = 0 then 16 else len % 16

def teeAesCbcCtsUpdate (mode : Nat) (lastBlock : Bool) (data : Ptr) (len : Nat) (dst : Ptr) :
    O lib Nat :=
  if lastBlock = false then
    teeDoCipherUpdate .cbc teeAlgAesCbcNoPad mode lastBlock data len dst
  else if nbBlocks len < 2 then pure teeErrorBadState
  else if mode = teeModeEncrypt then ctsEncrypt (nbBlocks len) (lenLastBlock len) data dst
  else ctsDecrypt (nbBlocks len) (lenLastBlock len) mode data dst

end

end MTower.Cipher
