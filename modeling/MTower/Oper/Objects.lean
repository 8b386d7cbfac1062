import MTower.Cryp.Info

/-!
# Operation handles of a Trusted Application

The data of `tee_api_operations.c` and what its entry points call: the handle blocks with their
registry `oprtn_hndl_head`, the object functions of `tee_api_objects.c`, and the system calls that
work on the context of a crypto state.

* `Operation`, `Sys`            a handle block, and the state of the TA;
* `getOperationElem`            the registry;
* `teeGetObjectInfo1`, `teeResetTransientObject`, `teeCopyObjectAttributes1`, …  key objects;
* `uteeHashInit`, `uteeHashUpdate`, `uteeHashFinal`, `uteeCipherInit`, `uteeCipherUpdate`,
  `uteeCipherFinal`             the context of a state.

`TEE_Panic` never returns, so it ends the program.  Handle blocks, registry elements and block
buffers live in a heap of their own beside the one of the objects and states.  The cryptographic
library is a parameter: it answers each call as it likes.  `log` is a ghost, the calls that reached
the library and the changes of keys.
-/

set_option linter.unusedVariables false

namespace MTower.Oper
open Lib Kernel Cryp

/-! ## constants -/

def teeErrorCorruptObject2 : Nat := 0xF0100002
def teeErrorStorageNotAvailable : Nat := 0xF0100003
def teeErrorStorageNotAvailable2 : Nat := 0xF0100004
def teeErrorShortBuffer : Nat := 0xFFFF0010
def teeErrorMacInvalid : Nat := 0xFFFF3071

def teeHandleFlagKeySet : Nat := 0x00040000
def teeHandleFlagExpectTwoKeys : Nat := 0x00080000

def teeOperationStateInitial : Nat := 0
def teeOperationStateActive : Nat := 1

def teeAesBlockSize : Nat := 16
def teeDesBlockSize : Nat := 8
def teeMaxHashSize : Nat := 64

/-! ## state -/

/-- `TEE_OperationInfo` -/
structure OperationInfo where
  algorithm : Nat
  operationClass : Nat
  mode : Nat
  digestLength : Nat
  maxKeySize : Nat
  keySize : Nat
  requiredKeyUsage : Nat
  handleState : Nat
deriving DecidableEq, Repr

/-- `struct __TEE_OperationHandle` -/
structure Operation where
  info : OperationInfo
  key1 : Nat
  key2 : Nat
  operationState : Nat
  buffer : Nat
  bufferTwoBlocks : Bool
  blockSize : Nat
  bufferOffs : Nat
  state : Nat
  aeTagLen : Nat
deriving DecidableEq, Repr

/-- a block of zeros -/
def Operation.zero : Operation := ⟨⟨0, 0, 0, 0, 0, 0, 0, 0⟩, 0, 0, 0, 0, false, 0, 0, 0, 0⟩

/-- `handleState & flag` -/
def Operation.has (o : Operation) (flag : Nat) : Bool := o.info.handleState &&& flag != 0

def Operation.setFlag (o : Operation) (flag : Nat) : Operation :=
  { o with info := { o.info with handleState := o.info.handleState ||| flag } }

def Operation.clearFlag (o : Operation) (flag : Nat) : Operation :=
  { o with info := { o.info with handleState := o.info.handleState &&& (0xffffffff ^^^ flag) } }

/-- a handle, an element of the registry with the `addr` it holds, or a buffer for blocks -/
inductive Block where
  | op (o : Operation)
  | elem (addr : Nat)
  | buffer (data : List UInt8)
deriving DecidableEq, Repr

/-- what happens to the contexts: calls of the library for the context of a state, and of the
system calls that have no body here; `room` is the length that the end of a context is given for its
output, `setKey` a change of the keys of an operation and `reset` its reset -/
inductive Event where
  | init (state : Nat) (key1 : List UInt8) (key2 : Option (List UInt8)) (iv : List UInt8)
  | feed (state : Nat) (data : List UInt8)
  | final (state : Nat) (data : List UInt8) (room : Nat)
  | copy (dst src : Nat)
  | authenc (state : Nat) (data : List UInt8)
  | setKey (key1 : List UInt8) (key2 : Option (List UInt8))
  | reset
deriving DecidableEq, Repr

/-- `elems` is `oprtn_hndl_head`; the newest event of `log` comes first -/
structure Sys where
  utc : Utc
  heap : Heap Block
  elems : List Nat
  log : List Event

inductive Stop where
  | panic (code : Nat)
  | fault (f : Cryp.Fault)
deriving DecidableEq, Repr

abbrev O := StateT Sys (Except Stop)

/-- `TEE_Panic` -/
def teePanic {α : Type} (code : Nat) : O α := throw (.panic code)

/-- a system call, or a function of `tee_svc_cryp.c` -/
def sys {α : Type} (x : C α) : O α := fun s =>
  match x s.utc with
  | .ok (a, u) => .ok (a, { s with utc := u })
  | .error f => .error (.fault f)

/-- the `out` label of an entry point: the results it returns, and a panic for any other -/
def leave (ok : List Nat) (res : Nat) : O Nat := if res ∈ ok then pure res else teePanic res

/-! ## memory -/

def blockAt (a : Nat) : O Block := do
  let s ← get
  match s.heap.blocks a with
  | some b => pure b
  | none => throw (.fault (faultAt a))

/-- the fields of `*operation` -/
def opAt (a : Nat) : O Operation := do
  match ← blockAt a with
  | .op o => pure o
  | _ => throw (.fault .danglingPointer)

def elemAt (a : Nat) : O Nat := do
  match ← blockAt a with
  | .elem addr => pure addr
  | _ => throw (.fault .danglingPointer)

def bufferAt (a : Nat) : O (List UInt8) := do
  match ← blockAt a with
  | .buffer data => pure data
  | _ => throw (.fault .danglingPointer)

def Sys.store (s : Sys) (a : Nat) (b : Block) : Sys := { s with heap := s.heap.store a b }

def storeAt (a : Nat) (b : Block) : O Unit := modify fun s => s.store a b

/-- a write to fields of `*operation` -/
def updateOp (a : Nat) (f : Operation → Operation) : O Unit := do
  let o ← opAt a
  storeAt a (.op (f o))

def malloc (b : Block) : O Nat := do
  let s ← get
  set { s with heap := (s.heap.alloc b).2 }
  pure (s.heap.alloc b).1

def Sys.erase (s : Sys) (a : Nat) : Sys := { s with heap := s.heap.erase a }

def free (a : Nat) : O Unit := do
  let s ← get
  if a = 0 then pure ()
  else
    match s.heap.blocks a with
    | some _ => set (s.erase a)
    | none => throw (.fault .badFree)

/-- `memcpy(op->buffer + offs, data, n)` -/
def bufferWrite (buffer offs : Nat) (data : List UInt8) : O Unit := do
  let old ← bufferAt buffer
  if old.length < offs + data.length then throw (.fault .outOfBounds)
  else storeAt buffer (.buffer (old.take offs ++ data ++ old.drop (offs + data.length)))

/-- the `n` bytes of the buffer from `offs` on -/
def bufferRead (buffer offs n : Nat) : O (List UInt8) := do
  let old ← bufferAt buffer
  if old.length < offs + n then throw (.fault .outOfBounds)
  else pure ((old.drop offs).take n)

/-- a pointer into the memory of the TA, `none` for `NULL` -/
abbrev Ptr := Option (Nat → UInt8)

/-- `n` bytes from `offs` on -/
def Ptr.bytes (p : Ptr) (offs n : Nat) : List UInt8 :=
  match p with
  | none => []
  | some f => (List.range n).map fun i => f (offs + i)

/-! ## the registry -/

def findElem (op : Nat) : List Nat → O Nat
  | [] => pure 0
  | e :: l => do
    let addr ← elemAt e
    if addr = op then pure e else findElem op l

/-- the element that holds `op`, or `0` -/
def getOperationElem (op : Nat) : O Nat := do
  let s ← get
  findElem op s.elems

/-- every element of `l` is read -/
def touchElems : List Nat → O Unit
  | [] => pure ()
  | e :: l => do
    let _ ← elemAt e
    touchElems l

/-- `TAILQ_INSERT_HEAD(&oprtn_hndl_head, e, link)` -/
def insertElem (e : Nat) : O Unit := do
  let s ← get
  touchElems (s.elems.take 1)
  modify fun s => { s with elems := e :: s.elems }

/-- `TAILQ_REMOVE(&oprtn_hndl_head, e, link)` -/
def removeElem (e : Nat) : O Unit := do
  let s ← get
  touchElems (e :: neighbours e s.elems)
  modify fun s => { s with elems := s.elems.erase e }

/-- `operation == TEE_HANDLE_NULL || get_operation_elem(operation) == NULL` -/
def unknown (operation : Nat) : O Bool := do
  if operation = 0 then pure true
  else do
    let e ← getOperationElem operation
    pure (e = 0)

/-! ## key objects -/

/-- the result and `*info` -/
def uteeCrypObjGetInfo (obj : Nat) : C (Nat × ObjectInfo) := do
  let res ← teeObjGet obj
  if res ≠ teeSuccess then pure (res, ⟨0, 0, 0, 0, 0⟩)
  else do
    let o ← objAt obj
    pure (teeSuccess, o.info)

/-- what `TEE_GetObjectInfo1` and `TEE_CopyObjectAttributes1` return -/
def objectResults : List Nat := [teeSuccess, teeErrorCorruptObject, teeErrorStorageNotAvailable]

def teeGetObjectInfo1 (object : Nat) : O (Nat × ObjectInfo) := do
  let r ← sys (uteeCrypObjGetInfo object)
  let res ← leave objectResults r.1
  pure (res, r.2)

def teeAllocateTransientObject (objectType maxKeySize : Nat) : O (Nat × Nat) := do
  let r ← sys (uteeCrypObjAlloc objectType maxKeySize)
  let res ← leave [teeSuccess, teeErrorOutOfMemory, teeErrorNotSupported] r.1
  pure (res, r.2)

/-- the handle of a transient object, or a panic -/
def checkTransient (object : Nat) : O Unit := do
  let r ← sys (uteeCrypObjGetInfo object)
  if r.1 ≠ teeSuccess then teePanic r.1
  else if r.2.has teeHandleFlagPersistent then teePanic 0
  else pure ()

def teeFreeTransientObject (object : Nat) : O Unit := do
  if object = 0 then pure ()
  else do
    checkTransient object
    let res ← sys (uteeCrypObjClose object)
    if res ≠ teeSuccess then teePanic res else pure ()

def teeResetTransientObject (object : Nat) : O Unit := do
  if object = 0 then pure ()
  else do
    checkTransient object
    let res ← sys (uteeCrypObjReset object)
    if res ≠ teeSuccess then teePanic res else pure ()

def teeCopyObjectAttributes1 (destObject srcObject : Nat) : O Nat := do
  let dst ← sys (uteeCrypObjGetInfo destObject)
  if dst.1 ≠ teeSuccess then leave objectResults dst.1
  else do
    let src ← sys (uteeCrypObjGetInfo srcObject)
    if src.1 ≠ teeSuccess then leave objectResults src.1
    else if !src.2.has teeHandleFlagInitialized then teePanic 0
    else if dst.2.has teeHandleFlagPersistent then teePanic 0
    else if dst.2.has teeHandleFlagInitialized then teePanic 0
    else do
      let res ← sys (uteeCrypObjCopy destObject srcObject)
      leave objectResults res

/-! ## the library -/

/-- The cryptographic library, and the system calls without a body: `utee_cipher_final`,
`utee_cryp_state_copy` and `utee_authenc_*`.  It answers a call after the calls `log`; `ran` says
whether the call reached the context.  A call that succeeds did, and one that answers
`TEE_ERROR_SHORT_BUFFER` did not. -/
structure Crypto where
  provider : Provider
  answer : List Event → Event → Nat
  ran : List Event → Event → Bool
  ran_success : ∀ log e, answer log e = teeSuccess → ran log e = true
  ran_short : ∀ log e, answer log e = teeErrorShortBuffer → ran log e = false
  /-- `*dst_len` after `utee_cipher_final` -/
  length : List Event → Event → Nat
  /-- the bytes that `crypto_mac_final` writes -/
  mac : List Event → Nat → UInt8
  /-- `CONFIG_MAX_CRYPTO_CHUNK_SIZE` -/
  maxChunk : Nat

/-- one call of the library -/
def crypto (c : Crypto) (e : Event) : O Nat := do
  let s ← get
  set { s with log := if c.ran s.log e then e :: s.log else s.log }
  pure (c.answer s.log e)

/-- the secret of the object `k`, for the record -/
def secretOf (u : Utc) (k : Nat) : List UInt8 :=
  match u.obj k with
  | none => []
  | some o =>
    match u.heap.blocks o.attr with
    | some (.attr _ (.secret n _ data)) => data.take n
    | _ => []

/-- a change that is no call of the library -/
def note (e : Utc → Event) : O Unit := modify fun s => { s with log := e s.utc :: s.log }

/-- the key behind `struct tee_cryp_obj_secret` -/
def secretAt (attr : Nat) : C (List UInt8) := do
  match ← Cryp.blockAt attr with
  | .attr _ (.secret k _ data) =>
    if data.length < k then throw .outOfBounds else pure (data.take k)
  | _ => throw .danglingPointer

/-- the secret of a key object that must be initialised -/
def keyOf (key : Nat) : C (Nat × List UInt8) := do
  let res ← teeObjGet key
  if res ≠ teeSuccess then pure (res, [])
  else do
    let o ← objAt key
    if !o.info.has teeHandleFlagInitialized then pure (teeErrorBadParameters, [])
    else do
      let secret ← secretAt o.attr
      pure (teeSuccess, secret)

/-! ## MACs and digests -/

def uteeHashInit (c : Crypto) (state : Nat) : O Nat := do
  let res ← sys (teeSvcCrypGetState state)
  if res ≠ teeSuccess then pure res
  else do
    let cs ← sys (stateAt state)
    if teeAlgGetClass cs.algo = teeOperationDigest then crypto c (.init state [] none [])
    else if teeAlgGetClass cs.algo = teeOperationMac then do
      let key ← sys (keyOf cs.key1)
      if key.1 ≠ teeSuccess then pure key.1 else crypto c (.init state key.2 none [])
    else pure teeErrorBadParameters

def uteeHashUpdate (c : Crypto) (state : Nat) (chunk : Ptr) (chunkSize : Nat) : O Nat := do
  if chunk = none ∧ chunkSize ≠ 0 then pure teeErrorBadParameters
  else if chunkSize = 0 then pure teeSuccess
  else do
    let res ← sys (teeSvcCrypGetState state)
    if res ≠ teeSuccess then pure res
    else do
      let cs ← sys (stateAt state)
      if teeAlgGetClass cs.algo = teeOperationDigest ∨ teeAlgGetClass cs.algo = teeOperationMac then
        crypto c (.feed state (chunk.bytes 0 chunkSize))
      else pure teeErrorBadParameters

def teeAlgHmac : List (Nat × Nat) :=
  [(0x30000001, 16), (0x30000002, 20), (0x30000003, 28), (0x30000004, 32), (0x30000005, 48),
   (0x30000006, 64)]

/-- `TEE_ALG_MD5` to `TEE_ALG_SHA512`, and the DSA algorithms that share their sizes -/
def teeAlgHash : List (Nat × Nat) :=
  [(0x50000001, 16), (0x50000002, 20), (0x70002131, 20), (0x50000003, 28), (0x70003131, 28),
   (0x50000004, 32), (0x70004131, 32), (0x50000005, 48), (0x50000006, 64)]

def teeHashGetDigestSize (algo : Nat) : Option Nat := (teeAlgHash ++ teeAlgHmac).lookup algo

def teeAlgAesMac : List Nat := [0x30000110, 0x30000510, 0x30000610]
def teeAlgDesMac : List Nat := [0x30000111, 0x30000511, 0x30000113, 0x30000513]

def teeMacGetDigestSize (algo : Nat) : Option Nat :=
  if (teeAlgHmac.lookup algo).isSome then teeHashGetDigestSize algo
  else if algo ∈ teeAlgAesMac then some teeAesBlockSize
  else if algo ∈ teeAlgDesMac then some teeDesBlockSize
  else none

/-- the part of `utee_hash_final` that digests and MACs share: the result and `*hash_len` -/
def hashFinal (c : Crypto) (state : Nat) (size : Option Nat) (chunk : Ptr)
    (chunkSize hashLen : Nat) : O (Nat × Nat) := do
  match size with
  | none => pure (teeErrorNotSupported, hashLen)
  | some hashSize =>
    if hashLen < hashSize then pure (teeErrorShortBuffer, hashSize)
    else do
      let res ← if chunkSize ≠ 0 then crypto c (.feed state (chunk.bytes 0 chunkSize))
        else pure teeSuccess
      if res ≠ teeSuccess then pure (res, hashLen)
      else do
        let res ← crypto c (.final state [] hashSize)
        if res ≠ teeSuccess then pure (res, hashLen) else pure (teeSuccess, hashSize)

def uteeHashFinal (c : Crypto) (state : Nat) (chunk : Ptr) (chunkSize hashLen : Nat) :
    O (Nat × Nat) := do
  if chunk = none ∧ chunkSize ≠ 0 then pure (teeErrorBadParameters, hashLen)
  else do
    let res ← sys (teeSvcCrypGetState state)
    if res ≠ teeSuccess then pure (res, hashLen)
    else do
      let cs ← sys (stateAt state)
      if teeAlgGetClass cs.algo = teeOperationDigest then
        hashFinal c state (teeHashGetDigestSize cs.algo) chunk chunkSize hashLen
      else if teeAlgGetClass cs.algo = teeOperationMac then
        hashFinal c state (teeMacGetDigestSize cs.algo) chunk chunkSize hashLen
      else pure (teeErrorBadParameters, hashLen)

/-! ## ciphers -/

def uteeCipherInit (c : Crypto) (state : Nat) (iv : Ptr) (ivLen : Nat) : O Nat := do
  let res ← sys (teeSvcCrypGetState state)
  if res ≠ teeSuccess then pure res
  else do
    let cs ← sys (stateAt state)
    let key1 ← sys (keyOf cs.key1)
    if key1.1 ≠ teeSuccess then pure key1.1
    else do
      let found ← sys (teeObjGet cs.key2)
      if found = teeSuccess then do
        let key2 ← sys (keyOf cs.key2)
        if key2.1 ≠ teeSuccess then pure key2.1
        else do
          let res ← crypto c (.init state key1.2 (some key2.2) (iv.bytes 0 ivLen))
          finishInit state res
      else do
        let res ← crypto c (.init state key1.2 none (iv.bytes 0 ivLen))
        finishInit state res
where
  /-- `cs->ctx_finalize = crypto_cipher_final` -/
  finishInit (state res : Nat) : O Nat := do
    if res ≠ teeSuccess then pure res
    else do
      let cs ← sys (stateAt state)
      sys (Cryp.storeAt state (.state { cs with ctxFinalize := true }))
      pure teeSuccess

def teeAlgNoPad : List Nat :=
  [0x10000010, 0x10000110, 0x10000011, 0x10000111, 0x10000013, 0x10000113]
def teeAlgAesCtr : Nat := 0x10000210
def teeAlgAesCts : Nat := 0x10000310
def teeAlgAesCcm : Nat := 0x40000710
def teeAlgAesGcm : Nat := 0x40000810

def teeCipherGetBlockSize (algo : Nat) : Option Nat :=
  if algo ∈ teeAlgAesMac ∨ algo ∈ [0x10000010, 0x10000110, teeAlgAesCtr, teeAlgAesCts, teeAlgAesXts,
      teeAlgAesCcm, teeAlgAesGcm] then some 16
  else if algo ∈ teeAlgDesMac ∨ algo ∈ [0x10000011, 0x10000111, 0x10000013, 0x10000113] then some 8
  else none

def teeModeEncrypt : Nat := 0
def teeModeDecrypt : Nat := 1

/-- `last_block` is false -/
def teeDoCipherUpdate (c : Crypto) (state : Nat) (cs : CrypState) (data : List UInt8) : O Nat := do
  if cs.mode ≠ teeModeEncrypt ∧ cs.mode ≠ teeModeDecrypt then pure teeErrorBadParameters
  else
    match teeCipherGetBlockSize cs.algo with
    | none => pure teeErrorNotSupported
    | some blockSize =>
      if data.length % blockSize ≠ 0 ∧ cs.algo ≠ teeAlgAesCtr then pure teeErrorBadParameters
      else crypto c (.feed state data)

/-- `utee_cipher_update`: the result and `*dst_len` -/
def uteeCipherUpdate (c : Crypto) (state : Nat) (src : List UInt8) (dstLen : Nat) :
    O (Nat × Nat) := do
  let res ← sys (teeSvcCrypGetState state)
  if res ≠ teeSuccess then pure (res, dstLen)
  else do
    let cs ← sys (stateAt state)
    if dstLen < src.length then pure (teeErrorShortBuffer, src.length)
    else do
      let res ← if src.length ≠ 0 then teeDoCipherUpdate c state cs src else pure teeSuccess
      if res = teeSuccess ∨ res = teeErrorShortBuffer then pure (res, src.length)
      else pure (res, dstLen)

/-- the last block and the end of the context: the result and `*dst_len` -/
def uteeCipherFinal (c : Crypto) (state : Nat) (src : List UInt8) (dstLen : Nat) :
    O (Nat × Nat) := do
  let s ← get
  let res ← crypto c (.final state src dstLen)
  pure (res, c.length s.log (.final state src dstLen))

end MTower.Oper
