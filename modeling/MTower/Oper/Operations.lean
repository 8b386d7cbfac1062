import MTower.Oper.Objects

/-!
# The operation functions

The entry points of `tee_api_operations.c` that work on a `TEE_OperationHandle`, up to
`TEE_AEUpdate`.

* `teeAllocateOperation`, `teeFreeOperation`     the life of a handle;
* `teeSetOperationKey`, `teeSetOperationKey2`    the keys;
* `teeCipherInit`, `teeCipherUpdate`, `teeCipherDoFinal`, `teeBufferUpdate`  ciphers;
* `teeMacInit`, `teeMacUpdate`, `teeMacComputeFinal`, `teeMacCompareFinal`   MACs;
* `Entry`, `entry`                               one call of the API on a handle.

A function with an `out` label is split there: what comes before it is a definition of its own.
Lengths and offsets have 32 bits.
-/

set_option linter.unusedVariables false

namespace MTower.Oper
open Lib Kernel Cryp

/-! ## algorithms -/

def teeUsageEncrypt : Nat := 0x2
def teeUsageDecrypt : Nat := 0x4
def teeUsageMac : Nat := 0x8
def teeUsageSign : Nat := 0x10
def teeUsageVerify : Nat := 0x20
def teeUsageDerive : Nat := 0x40

def teeModeSign : Nat := 2
def teeModeMac : Nat := 4
def teeModeDigest : Nat := 5
def teeModeDerive : Nat := 6

def teeMainAlgoAes : Nat := 0x10

def teeAlgGetKeyType (algo : Nat) (withPrivateKey : Bool) : Nat :=
  (0xA0000000 ||| teeAlgGetMainAlg algo) ||| if withPrivateKey then 0x01000000 else 0

/-- the algorithms with one key size, and this size -/
def fixedKeySize : List (Nat × Nat) :=
  [(0x70003131, 2048), (0x70001041, 192), (0x80001042, 192), (0x70002041, 224), (0x80002042, 224),
   (0x70003042, 256), (0x80003042, 256), (0x70004042, 384), (0x80004042, 384), (0x70005042, 521),
   (0x80005042, 521)]

def teeAlgDsaSha1 : Nat := 0x70002131
def teeAlgDsaSha256 : Nat := 0x70004131

/-- the first switch of `TEE_AllocateOperation` -/
def maxKeySizeOk (algorithm maxKeySize : Nat) : Bool :=
  if algorithm = teeAlgDsaSha1 then
    512 ≤ maxKeySize && maxKeySize ≤ 1024 && maxKeySize % 64 = 0
  else if algorithm = teeAlgDsaSha256 then maxKeySize = 2048 || maxKeySize = 3072
  else
    match fixedKeySize.lookup algorithm with
    | some n => maxKeySize = n
    | none => true

def teeAlgTwoBlocks : List Nat := [teeAlgAesCts, teeAlgAesXts]

def teeAlgBlocks : List Nat :=
  [0x10000010, 0x10000110, teeAlgAesCcm, 0x10000011, 0x10000111, 0x10000013, 0x10000113]

def teeAlgStream : List Nat := [teeAlgAesCtr, teeAlgAesGcm]

/-- `TEE_ALG_RSASSA_*`, `TEE_ALG_DSA_*` and `TEE_ALG_ECDSA_*` -/
def teeAlgSign : List Nat :=
  [0x70001830, 0x70002830, 0x70003830, 0x70004830, 0x70005830, 0x70006830,
   0x70212930, 0x70313930, 0x70414930, 0x70515930, 0x70616930,
   0x70002131, 0x70003131, 0x70004131,
   0x70001041, 0x70002041, 0x70003042, 0x70004042, 0x70005042]

def teeAlgRsaes : List Nat :=
  [0x60000130, 0x60210230, 0x60310230, 0x60410230, 0x60510230, 0x60610230]

def teeAlgRsaNoPad : Nat := 0x60000030

def teeAlgDerive : List Nat :=
  [0x80000032, 0x80001042, 0x80002042, 0x80003042, 0x80004042, 0x80005042,
   0x800010C0, 0x800020C0, 0x800030C0, 0x800040C0, 0x800050C0, 0x800060C0,
   0x800020C1, 0x800030C1, 0x800040C1, 0x800050C1, 0x800060C1, 0x800020C2]

def teeAlgDigest : List Nat :=
  [0x50000001, 0x50000002, 0x50000003, 0x50000004, 0x50000005, 0x50000006]

def teeAlgMac : List Nat :=
  teeAlgAesMac ++ teeAlgDesMac ++ teeAlgHmac.map Prod.fst

/-- what the second switch of `TEE_AllocateOperation` decides -/
structure Setup where
  requiredKeyUsage : Nat
  withPrivateKey : Bool
  blockSize : Nat
  bufferTwoBlocks : Bool
deriving DecidableEq, Repr

/-- a plain setup, when the mode is the one of the algorithm -/
def setupFor (mode wanted usage : Nat) (withPrivateKey : Bool) : Option Setup :=
  if mode = wanted then some ⟨usage, withPrivateKey, 1, false⟩ else none

/-- the second switch; `none` for `TEE_ERROR_NOT_SUPPORTED` -/
def setupOf (algorithm mode : Nat) : Option Setup :=
  if algorithm ∈ teeAlgTwoBlocks ++ teeAlgBlocks ++ teeAlgStream then
    let blockSize := if algorithm ∈ teeAlgStream then 1
      else if teeAlgGetMainAlg algorithm = teeMainAlgoAes then teeAesBlockSize
      else teeDesBlockSize
    if mode = teeModeEncrypt then
      some ⟨teeUsageEncrypt, false, blockSize, algorithm ∈ teeAlgTwoBlocks⟩
    else if mode = teeModeDecrypt then
      some ⟨teeUsageDecrypt, false, blockSize, algorithm ∈ teeAlgTwoBlocks⟩
    else none
  else if algorithm ∈ teeAlgSign then
    if mode = teeModeSign then some ⟨teeUsageSign, true, 1, false⟩
    else setupFor mode teeModeVerify teeUsageVerify false
  else if algorithm ∈ teeAlgRsaes then
    if mode = teeModeEncrypt then some ⟨teeUsageEncrypt, false, 1, false⟩
    else setupFor mode teeModeDecrypt teeUsageDecrypt true
  else if algorithm = teeAlgRsaNoPad then
    if mode = teeModeEncrypt then some ⟨teeUsageEncrypt ||| teeUsageVerify, false, 1, false⟩
    else setupFor mode teeModeDecrypt (teeUsageDecrypt ||| teeUsageSign) true
  else if algorithm ∈ teeAlgDerive then setupFor mode teeModeDerive teeUsageDerive true
  else if algorithm ∈ teeAlgDigest then setupFor mode teeModeDigest 0 false
  else if algorithm ∈ teeAlgMac then setupFor mode teeModeMac teeUsageMac false
  else none

/-- `handle_state` -/
def handleStateOf (algorithm : Nat) : Nat :=
  (if algorithm = teeAlgAesXts then teeHandleFlagExpectTwoKeys else 0) |||
    if algorithm ∈ teeAlgDigest then teeHandleFlagKeySet else 0

/-! ## the life of a handle -/

/-- `y`, unless `x` gives an error -/
def andThen (x y : O Nat) : O Nat := do
  let res ← x
  if res ≠ teeSuccess then pure res else y

def teeFreeOperation (c : Crypto) (operation : Nat) : O Unit := do
  if ← unknown operation then teePanic 0
  else do
    let o ← opAt operation
    let res ← sys (uteeCrypStateFree c.provider o.state)
    if res ≠ teeSuccess then teePanic res
    else do
      free o.buffer
      let e ← getOperationElem operation
      if e ≠ 0 then do
        removeElem e
        free e
        free operation
      else free operation

def allocBuffer (op : Nat) (a : Setup) : O Nat := do
  if 1 < a.blockSize then do
    let size := if a.bufferTwoBlocks then a.blockSize * 2 else a.blockSize
    let buffer ← malloc (.buffer (List.replicate size 0))
    updateOp op fun o => { o with buffer := buffer }
    pure (if buffer = 0 then teeErrorOutOfMemory else teeSuccess)
  else pure teeSuccess

def setBlockSize (op : Nat) (a : Setup) : O Nat := do
  updateOp op fun o => { o with blockSize := a.blockSize, bufferTwoBlocks := a.bufferTwoBlocks }
  pure teeSuccess

def allocKey (op keyType maxKeySize : Nat) (put : Operation → Nat → Operation) : O Nat := do
  let r ← teeAllocateTransientObject keyType maxKeySize
  if r.1 ≠ teeSuccess then pure r.1
  else do
    updateOp op fun o => put o r.2
    pure teeSuccess

def allocKeys (op : Nat) (a : Setup) (algorithm maxKeySize : Nat) : O Nat := do
  if teeAlgGetClass algorithm = teeOperationDigest then pure teeSuccess
  else do
    let o ← opAt op
    let keyType := teeAlgGetKeyType algorithm a.withPrivateKey
    -- with two keys the maximal size is the sum of both
    if o.has teeHandleFlagExpectTwoKeys then
      andThen (allocKey op keyType (maxKeySize / 2) fun o k => { o with key1 := k })
        (allocKey op keyType (maxKeySize / 2) fun o k => { o with key2 := k })
    else allocKey op keyType maxKeySize fun o k => { o with key1 := k }

def allocState (c : Crypto) (op algorithm mode : Nat) : O Nat := do
  let o ← opAt op
  let r ← sys (uteeCrypStateAlloc c.provider algorithm mode o.key1 o.key2)
  if r.1 ≠ teeSuccess then pure r.1
  else do
    updateOp op fun o => { o with state := r.2 }
    pure teeSuccess

def initDigest (c : Crypto) (op algorithm : Nat) : O Nat := do
  if teeAlgGetClass algorithm = teeOperationDigest then do
    let o ← opAt op
    let res ← uteeHashInit c o.state
    if res ≠ teeSuccess then pure res
    else do
      updateOp op fun o => o.setFlag teeHandleFlagInitialized
      pure teeSuccess
  else pure teeSuccess

def setInitial (op : Nat) : O Nat := do
  updateOp op fun o => { o with operationState := teeOperationStateInitial }
  pure teeSuccess

/-- `TEE_AllocateOperation` from the registered handle to the `out` label -/
def prepareOperation (c : Crypto) (op : Nat) (a : Setup) (algorithm mode maxKeySize : Nat) :
    O Nat :=
  andThen (allocBuffer op a) <|
  andThen (setBlockSize op a) <|
  andThen (allocKeys op a algorithm maxKeySize) <|
  andThen (allocState c op algorithm mode) <|
  andThen (initDigest c op algorithm) (setInitial op)

/-- the `out` label of `TEE_AllocateOperation` for an error -/
def abandonOperation (c : Crypto) (op res : Nat) : O Unit := do
  if res ≠ teeErrorOutOfMemory ∧ res ≠ teeErrorNotSupported then teePanic res
  else do
    let o ← opAt op
    if o.state ≠ 0 then teeFreeOperation c op
    else do
      free o.buffer
      teeFreeTransientObject o.key1
      teeFreeTransientObject o.key2
      free op

/-- the handle with what is known of it before anything is allocated -/
def Operation.start (a : Setup) (algorithm mode maxKeySize : Nat) : Operation :=
  { Operation.zero with info := ⟨algorithm, teeAlgGetClass algorithm, mode, 0, maxKeySize, 0,
                                  a.requiredKeyUsage, handleStateOf algorithm⟩ }

/-- the handle is in the registry before anything else is allocated -/
def registerOperation (c : Crypto) (a : Setup) (algorithm mode maxKeySize : Nat) :
    O (Nat × Nat) := do
  let op ← malloc (.op Operation.zero)
  if op = 0 then pure (teeErrorOutOfMemory, 0)
  else do
    let e ← malloc (.elem 0)
    if e = 0 then do
      free op
      pure (teeErrorOutOfMemory, 0)
    else do
      storeAt e (.elem op)
      insertElem e
      storeAt op (.op (Operation.start a algorithm mode maxKeySize))
      let res ← prepareOperation c op a algorithm mode maxKeySize
      if res ≠ teeSuccess then do
        abandonOperation c op res
        pure (res, 0)
      else pure (teeSuccess, op)

/-- the result and `*operation`; `operation` says that the pointer is not `NULL` -/
def teeAllocateOperation (c : Crypto) (operation : Bool) (algorithm mode maxKeySize : Nat) :
    O (Nat × Nat) := do
  if operation = false then teePanic 0
  else if maxKeySizeOk algorithm maxKeySize = false then pure (teeErrorNotSupported, 0)
  else
    match setupOf algorithm mode with
    | none => pure (teeErrorNotSupported, 0)
    | some a => registerOperation c a algorithm mode maxKeySize

/-! ## what is known of a handle -/

/-- `operationInfo` says that the pointer is not `NULL` -/
def teeGetOperationInfo (operation : Nat) (operationInfo : Bool) : O OperationInfo := do
  if operation = 0 then teePanic 0
  else if operationInfo = false then teePanic 0
  else do
    let o ← opAt operation
    pure o.info

/-- `TEE_OperationInfoMultiple` -/
structure OperationInfoMultiple where
  info : OperationInfo
  operationState : Nat
  keyInformation : List (Nat × Nat)
deriving DecidableEq, Repr

def sizeofOperationInfoMultiple : Nat := 32
def sizeofOperationInfoKey : Nat := 8

/-- the size of a key of the operation and its usage -/
def keyInfo (o : Operation) (key : Nat) : O (Nat × Nat × Nat) := do
  let r ← teeGetObjectInfo1 key
  pure (r.1, r.2.keySize, o.info.requiredKeyUsage)

/-- `TEE_GetOperationInfoMultiple` up to the `out` label -/
def infoMultiple (operation : Nat) (operationInfo : Bool) (operationSize : Option Nat) :
    O (Nat × Option OperationInfoMultiple) := do
  if ← unknown operation then pure (teeErrorBadParameters, none)
  else if operationInfo = false then pure (teeErrorBadParameters, none)
  else
    match operationSize with
    | none => pure (teeErrorBadParameters, none)
    | some size => do
      let numOfKeys := (size + 2 ^ 32 - sizeofOperationInfoMultiple) % 2 ^ 32 /
        sizeofOperationInfoKey
      if 2 < numOfKeys then pure (teeErrorBadParameters, none)
      else do
        let o ← opAt operation
        if o.has teeHandleFlagExpectTwoKeys ∧ numOfKeys ≠ 2 then pure (teeErrorShortBuffer, none)
        else if numOfKeys = 0 then pure (teeSuccess, some ⟨o.info, o.operationState, []⟩)
        else if numOfKeys = 1 then do
          let k1 ← keyInfo o o.key1
          if k1.1 ≠ teeSuccess then pure (k1.1, none)
          else pure (teeSuccess, some ⟨o.info, o.operationState, [k1.2]⟩)
        else do
          let k2 ← keyInfo o o.key2
          if k2.1 ≠ teeSuccess then pure (k2.1, none)
          else do
            let k1 ← keyInfo o o.key1
            if k1.1 ≠ teeSuccess then pure (k1.1, none)
            else pure (teeSuccess, some ⟨o.info, o.operationState, [k1.2, k2.2]⟩)

/-- the pointers are `NULL` for `false` and `none` -/
def teeGetOperationInfoMultiple (operation : Nat) (operationInfo : Bool)
    (operationSize : Option Nat) : O (Nat × Option OperationInfoMultiple) := do
  let r ← infoMultiple operation operationInfo operationSize
  let res ← leave [teeSuccess, teeErrorShortBuffer] r.1
  pure (res, r.2)

/-! ## reset and keys -/

def teeResetOperation (c : Crypto) (operation : Nat) : O Unit := do
  if ← unknown operation then teePanic 0
  else do
    let o ← opAt operation
    if o.has teeHandleFlagKeySet = false then teePanic 0
    else do
      updateOp operation fun o => { o with operationState := teeOperationStateInitial }
      note fun _ => .reset
      if o.info.operationClass = teeOperationDigest then do
        let res ← uteeHashInit c o.state
        if res ≠ teeSuccess then teePanic res
        else updateOp operation fun o => o.setFlag teeHandleFlagInitialized
      else updateOp operation fun o => o.clearFlag teeHandleFlagInitialized

/-- the usage that the operation needs is not allowed for the key -/
def Operation.usageDenied (o : Operation) (info : ObjectInfo) : Bool :=
  info.objectUsage &&& o.info.requiredKeyUsage != o.info.requiredKeyUsage

/-- `TEE_SetOperationKey` up to the `out` label -/
def setOperationKey (operation key : Nat) : O Nat := do
  if ← unknown operation then pure teeErrorBadParameters
  else do
    let o ← opAt operation
    if o.operationState ≠ teeOperationStateInitial then pure teeErrorBadParameters
    else if key = 0 then do
      teeResetTransientObject o.key1
      pure teeErrorBadParameters
    else if o.info.operationClass = teeOperationDigest then pure teeErrorBadParameters
    else if o.has teeHandleFlagExpectTwoKeys then pure teeErrorBadParameters
    else do
      let info ← teeGetObjectInfo1 key
      if info.1 ≠ teeSuccess then pure info.1
      else if o.usageDenied info.2 then pure teeErrorBadParameters
      else if o.info.maxKeySize < info.2.keySize then pure teeErrorBadParameters
      else do
        teeResetTransientObject o.key1
        updateOp operation fun o => o.clearFlag teeHandleFlagKeySet
        let res ← teeCopyObjectAttributes1 o.key1 key
        if res ≠ teeSuccess then pure res
        else do
          note fun u => .setKey (secretOf u key) none
          updateOp operation fun o => { o.setFlag teeHandleFlagKeySet with
            info := { (o.setFlag teeHandleFlagKeySet).info with keySize := info.2.keySize } }
          pure teeSuccess

def teeSetOperationKey (operation key : Nat) : O Nat := do
  let res ← setOperationKey operation key
  leave [teeSuccess, teeErrorCorruptObject, teeErrorStorageNotAvailable] res

/-- the result for the second key -/
def secondKey (res : Nat) : Nat :=
  if res = teeErrorCorruptObject then teeErrorCorruptObject2 else res

/-- `TEE_SetOperationKey2` from the checked keys to the `out` label -/
def replaceKeys (operation : Nat) (o : Operation) (key1 key2 keySize : Nat) : O Nat := do
  teeResetTransientObject o.key1
  teeResetTransientObject o.key2
  updateOp operation fun o => o.clearFlag teeHandleFlagKeySet
  let res ← teeCopyObjectAttributes1 o.key1 key1
  if res ≠ teeSuccess then pure res
  else do
    let res ← teeCopyObjectAttributes1 o.key2 key2
    if res ≠ teeSuccess then pure (secondKey res)
    else do
      note fun u => .setKey (secretOf u key1) (some (secretOf u key2))
      updateOp operation fun o => { o.setFlag teeHandleFlagKeySet with
        info := { (o.setFlag teeHandleFlagKeySet).info with keySize := keySize } }
      pure teeSuccess

/-- `TEE_SetOperationKey2` up to the `out` label -/
def setOperationKey2 (operation key1 key2 : Nat) : O Nat := do
  if ← unknown operation then pure teeErrorBadParameters
  else do
    let o ← opAt operation
    if o.operationState ≠ teeOperationStateInitial then pure teeErrorBadParameters
    else if key1 = 0 ∨ key2 = 0 then do
      let _ ← if key1 = 0 then teeResetTransientObject o.key1 else pure ()
      let _ ← if key2 = 0 then teeResetTransientObject o.key2 else pure ()
      pure teeErrorBadParameters
    else if o.info.operationClass = teeOperationDigest then pure teeErrorBadParameters
    else if o.has teeHandleFlagExpectTwoKeys = false then pure teeErrorBadParameters
    else do
      let info1 ← teeGetObjectInfo1 key1
      if info1.1 ≠ teeSuccess then pure info1.1
      else if o.usageDenied info1.2 then pure teeErrorBadParameters
      else do
        let info2 ← teeGetObjectInfo1 key2
        if info2.1 ≠ teeSuccess then pure (secondKey info2.1)
        else if o.usageDenied info2.2 then pure teeErrorBadParameters
        else if o.info.algorithm = teeAlgAesXts ∧ info1.2.keySize ≠ info2.2.keySize then
          pure teeErrorBadParameters
        else if o.info.maxKeySize < info1.2.keySize then pure teeErrorBadParameters
        else replaceKeys operation o key1 key2 info1.2.keySize

def teeSetOperationKey2 (operation key1 key2 : Nat) : O Nat := do
  let res ← setOperationKey2 operation key1 key2
  leave [teeSuccess, teeErrorCorruptObject, teeErrorCorruptObject2, teeErrorStorageNotAvailable,
    teeErrorStorageNotAvailable2] res

/-- the keys of the source for the target -/
def copyKeys (dstOp : Nat) (src : Operation) : O Unit := do
  let key1 := if src.has teeHandleFlagKeySet then src.key1 else 0
  let key2 := if src.has teeHandleFlagKeySet then src.key2 else 0
  if src.info.operationClass = teeOperationDigest then pure ()
  else if src.has teeHandleFlagExpectTwoKeys = false then do
    let _ ← teeSetOperationKey dstOp key1
    pure ()
  else do
    let _ ← teeSetOperationKey2 dstOp key1 key2
    pure ()

/-- the bytes that are buffered for the next block -/
def copyBuffer (dstOp : Nat) (dst src : Operation) : O Unit := do
  if dst.buffer ≠ 0 then
    if src.buffer = 0 then teePanic 0
    else do
      let data ← bufferRead src.buffer 0 src.bufferOffs
      bufferWrite dst.buffer 0 data
      updateOp dstOp fun o => { o with bufferOffs := src.bufferOffs }
  else if src.buffer ≠ 0 then teePanic 0
  else pure ()

def teeCopyOperation (c : Crypto) (dstOp srcOp : Nat) : O Unit := do
  if dstOp = 0 ∨ srcOp = 0 then teePanic 0
  else do
    let dst ← opAt dstOp
    let src ← opAt srcOp
    if dst.info.algorithm ≠ src.info.algorithm then teePanic 0
    else do
      copyKeys dstOp src
      let src ← opAt srcOp
      updateOp dstOp fun o => { o with
        info := { o.info with handleState := src.info.handleState, keySize := src.info.keySize }
        operationState := src.operationState }
      let dst ← opAt dstOp
      let src ← opAt srcOp
      if dst.bufferTwoBlocks ≠ src.bufferTwoBlocks ∨ dst.blockSize ≠ src.blockSize then teePanic 0
      else do
        copyBuffer dstOp dst src
        let res ← crypto c (.copy dst.state src.state)
        if res ≠ teeSuccess then teePanic res else pure ()

/-! ## digests -/

def initHashOperation (c : Crypto) (operation : Nat) : O Unit := do
  let o ← opAt operation
  let res ← uteeHashInit c o.state
  if res ≠ teeSuccess then teePanic res
  else updateOp operation fun o => { o.setFlag teeHandleFlagInitialized with bufferOffs := 0 }

def teeDigestUpdate (c : Crypto) (operation : Nat) (chunk : Ptr) (chunkSize : Nat) : O Unit := do
  if ← unknown operation then teePanic 0
  else do
    let o ← opAt operation
    if o.info.operationClass ≠ teeOperationDigest then teePanic 0
    else do
      updateOp operation fun o => { o with operationState := teeOperationStateActive }
      let res ← uteeHashUpdate c o.state chunk chunkSize
      if res ≠ teeSuccess then teePanic res else pure ()

/-- `TEE_DigestDoFinal` up to the `out` label: the result and `*hashLen` -/
def digestDoFinal (c : Crypto) (operation : Nat) (chunk : Ptr) (chunkLen : Nat) (hash : Bool)
    (hashLen : Option Nat) : O (Nat × Nat) := do
  if ← unknown operation then pure (teeErrorBadParameters, 0)
  else if (chunk = none ∧ chunkLen ≠ 0) ∨ hash = false then pure (teeErrorBadParameters, 0)
  else
    match hashLen with
    | none => pure (teeErrorBadParameters, 0)
    | some hl => do
      let o ← opAt operation
      if o.info.operationClass ≠ teeOperationDigest then pure (teeErrorBadParameters, hl)
      else do
        let r ← uteeHashFinal c o.state chunk chunkLen hl
        if r.1 ≠ teeSuccess then pure r
        else do
          initHashOperation c operation
          updateOp operation fun o => { o with operationState := teeOperationStateInitial }
          pure r

def teeDigestDoFinal (c : Crypto) (operation : Nat) (chunk : Ptr) (chunkLen : Nat) (hash : Bool)
    (hashLen : Option Nat) : O (Nat × Nat) := do
  let r ← digestDoFinal c operation chunk chunkLen hash hashLen
  let res ← leave [teeSuccess, teeErrorShortBuffer] r.1
  pure (res, r.2)

/-! ## ciphers -/

def teeCipherInit (c : Crypto) (operation : Nat) (iv : Ptr) (ivLen : Nat) : O Unit := do
  if ← unknown operation then teePanic 0
  else do
    let o ← opAt operation
    if o.info.operationClass ≠ teeOperationCipher then teePanic 0
    else if o.has teeHandleFlagKeySet = false ∨ o.key1 = 0 then teePanic 0
    else do
      let _ ← if o.operationState ≠ teeOperationStateInitial then teeResetOperation c operation
        else pure ()
      updateOp operation fun o => { o with operationState := teeOperationStateActive }
      let res ← uteeCipherInit c o.state iv ivLen
      if res ≠ teeSuccess then teePanic res
      else updateOp operation fun o => { o.setFlag teeHandleFlagInitialized with bufferOffs := 0 }

/-- `ROUNDUP` of `size_t` values -/
def roundUp (v size : Nat) : Nat :=
  (v + (size + 2 ^ 32 - 1)) % 2 ^ 32 &&& (0xffffffff ^^^ ((size + 2 ^ 32 - 1) % 2 ^ 32))

/-- `update_func`: a state, the bytes of the source and `*dlen`; the result and the new `*dlen` -/
abbrev UpdateFunc := Nat → List UInt8 → Nat → O (Nat × Nat)

/-- the position in the source, what is left of it, and the room and the output so far -/
structure Progress where
  pos : Nat
  slen : Nat
  dlen : Nat
  accDlen : Nat
deriving DecidableEq, Repr

def Operation.bufferSize (o : Operation) : Nat :=
  if o.bufferTwoBlocks then o.blockSize * 2 else o.blockSize

def Operation.bufferLeft (o : Operation) : Nat := if o.bufferTwoBlocks then 1 else 0

/-- fill up a block that has begun; `true` when nothing is left to do -/
def fillBlock (op : Nat) (src : Ptr) (p : Progress) : O (Bool × Progress) := do
  let o ← opAt op
  if o.bufferOffs = 0 then pure (false, p)
  else do
    let l := if o.bufferOffs < o.blockSize then min p.slen (o.blockSize - o.bufferOffs)
      else min p.slen ((o.bufferSize + 2 ^ 32 - o.bufferOffs) % 2 ^ 32)
    bufferWrite o.buffer o.bufferOffs (src.bytes p.pos l)
    updateOp op fun o => { o with bufferOffs := o.bufferOffs + l }
    pure ((o.bufferOffs + l) % o.blockSize ≠ 0, { p with pos := p.pos + l, slen := p.slen - l })

/-- one call of `update_func` -/
def feed (update : UpdateFunc) (state : Nat) (data : List UInt8) (p : Progress) : O Progress := do
  let r ← update state data p.dlen
  if r.1 ≠ teeSuccess then teePanic r.1
  else pure { p with dlen := p.dlen - r.2, accDlen := p.accDlen + r.2 }

/-- the rest of the source goes behind what is buffered -/
def keepRest (op : Nat) (src : Ptr) (p : Progress) : O Unit := do
  let o ← opAt op
  bufferWrite o.buffer o.bufferOffs (src.bytes p.pos p.slen)
  updateOp op fun o => { o with bufferOffs := o.bufferOffs + p.slen }

/-- feed from the buffer; `true` when nothing is left to do -/
def feedBuffer (update : UpdateFunc) (op : Nat) (src : Ptr) (p : Progress) :
    O (Bool × Progress) := do
  let o ← opAt op
  if o.bufferOffs = 0 ∨ (o.bufferOffs + p.slen) % 2 ^ 32 < o.bufferSize + o.bufferLeft then
    pure (false, p)
  else do
    let l := min o.bufferOffs (roundUp ((o.bufferOffs + p.slen) % 2 ^ 32 - o.bufferSize) o.blockSize)
    let data ← bufferRead o.buffer 0 l
    let p ← feed update o.state data p
    updateOp op fun o => { o with bufferOffs := o.bufferOffs - l }
    if o.bufferOffs - l = 0 then pure (false, p)
    else do
      let rest ← bufferRead o.buffer l (o.bufferSize - l)
      bufferWrite o.buffer 0 rest
      keepRest op src p
      pure (true, p)

/-- feed as much as possible from the source -/
def feedSource (update : UpdateFunc) (op : Nat) (src : Ptr) (p : Progress) : O Progress := do
  let o ← opAt op
  if p.slen < o.bufferSize + o.bufferLeft then pure p
  else do
    let l := if o.info.algorithm = teeAlgAesCts then roundUp (p.slen - o.bufferSize) o.blockSize
      else roundUp (p.slen - o.bufferSize + 1) o.blockSize
    let q ← feed update o.state (src.bytes p.pos l) p
    pure { q with pos := p.pos + l, slen := (p.slen + 2 ^ 32 - l) % 2 ^ 32 }

/-- the result and `*dest_len` -/
def teeBufferUpdate (update : UpdateFunc) (op : Nat) (src : Ptr) (srcLen destLen : Nat) :
    O (Nat × Nat) := do
  if src = none then
    if srcLen ≠ 0 then teePanic 0 else pure (teeSuccess, 0)
  else do
    let (done, p) ← fillBlock op src ⟨0, srcLen, destLen, 0⟩
    if done then pure (teeSuccess, p.accDlen)
    else do
      let (done, p) ← feedBuffer update op src p
      if done then pure (teeSuccess, p.accDlen)
      else do
        let p ← feedSource update op src p
        keepRest op src p
        pure (teeSuccess, p.accDlen)

/-- the room that `TEE_CipherUpdate` asks for -/
def Operation.updateLength (o : Operation) (srcLen : Nat) : Nat :=
  let n := if 1 < o.blockSize then (o.bufferOffs + srcLen) % 2 ^ 32 / o.blockSize * o.blockSize
    else srcLen
  if o.bufferTwoBlocks then if o.blockSize * 2 < n then n - o.blockSize * 2 else 0 else n

/-- `TEE_CipherUpdate` up to the `out` label: the result and `*destLen`; `dest` says that
`destData` is not `NULL` -/
def cipherUpdate (c : Crypto) (operation : Nat) (src : Ptr) (srcLen : Nat) (dest : Bool)
    (destLen : Option Nat) : O (Nat × Nat) := do
  if operation = 0 ∨ (src = none ∧ srcLen ≠ 0) then pure (teeErrorBadParameters, 0)
  else
    match destLen with
    | none => pure (teeErrorBadParameters, 0)
    | some dl =>
      if (dest = false ∧ dl ≠ 0) ∨ c.maxChunk < srcLen ∨ c.maxChunk < dl then
        pure (teeErrorBadParameters, dl)
      else do
        let o ← opAt operation
        if o.info.operationClass ≠ teeOperationCipher then pure (teeErrorBadParameters, dl)
        else if o.has teeHandleFlagInitialized = false then pure (teeErrorBadParameters, dl)
        else if o.operationState ≠ teeOperationStateActive then pure (teeErrorBadParameters, dl)
        else if src = none ∧ srcLen = 0 then pure (teeSuccess, 0)
        else if dl < o.updateLength srcLen then pure (teeErrorShortBuffer, o.updateLength srcLen)
        else if 1 < o.blockSize then teeBufferUpdate (uteeCipherUpdate c) operation src srcLen dl
        else if 0 < srcLen then uteeCipherUpdate c o.state (src.bytes 0 srcLen) dl
        else pure (teeSuccess, 0)

def teeCipherUpdate (c : Crypto) (operation : Nat) (src : Ptr) (srcLen : Nat) (dest : Bool)
    (destLen : Option Nat) : O (Nat × Nat) := do
  let r ← cipherUpdate c operation src srcLen dest destLen
  let res ← leave [teeSuccess, teeErrorShortBuffer] r.1
  pure (res, r.2)

/-- the handle after the end of its context -/
def endContext (operation : Nat) : O Unit :=
  updateOp operation fun o =>
    { o.clearFlag teeHandleFlagInitialized with operationState := teeOperationStateInitial }

/-- `TEE_CipherDoFinal` from the checked arguments to the `out` label -/
def finishCipher (c : Crypto) (operation : Nat) (o : Operation) (src : Ptr) (srcLen dl : Nat) :
    O (Nat × Nat) := do
  if 1 < o.blockSize then do
    let r ← teeBufferUpdate (uteeCipherUpdate c) operation src srcLen dl
    if r.1 ≠ teeSuccess then pure (r.1, dl)
    else do
      let o ← opAt operation
      let data ← bufferRead o.buffer 0 o.bufferOffs
      let f ← uteeCipherFinal c o.state data (dl - r.2)
      if f.1 ≠ teeSuccess then pure (f.1, dl)
      else do
        endContext operation
        pure (teeSuccess, r.2 + f.2)
  else do
    let f ← uteeCipherFinal c o.state (src.bytes 0 srcLen) dl
    if f.1 ≠ teeSuccess then pure (f.1, dl)
    else do
      endContext operation
      pure (teeSuccess, f.2)

/-- `TEE_CipherDoFinal` up to the `out` label -/
def cipherDoFinal (c : Crypto) (operation : Nat) (src : Ptr) (srcLen : Nat) (dest : Bool)
    (destLen : Option Nat) : O (Nat × Nat) := do
  if operation = 0 ∨ (src = none ∧ srcLen ≠ 0) then pure (teeErrorBadParameters, 0)
  else
    match destLen with
    | none => pure (teeErrorBadParameters, 0)
    | some dl =>
      if dest = false ∧ dl ≠ 0 then pure (teeErrorBadParameters, dl)
      else do
        let o ← opAt operation
        if o.info.operationClass ≠ teeOperationCipher then pure (teeErrorBadParameters, dl)
        else if o.has teeHandleFlagInitialized = false then pure (teeErrorBadParameters, dl)
        else if o.operationState ≠ teeOperationStateActive then pure (teeErrorBadParameters, dl)
        else if o.info.algorithm ∈ teeAlgNoPad ∧
            (o.bufferOffs + srcLen) % 2 ^ 32 % o.blockSize ≠ 0 then
          pure (teeErrorBadParameters, dl)
        else
          let need := if 1 < o.blockSize then (o.bufferOffs + srcLen) % 2 ^ 32 else srcLen
          if dl < need then pure (teeErrorShortBuffer, need)
          else finishCipher c operation o src srcLen dl

def teeCipherDoFinal (c : Crypto) (operation : Nat) (src : Ptr) (srcLen : Nat) (dest : Bool)
    (destLen : Option Nat) : O (Nat × Nat) := do
  let r ← cipherDoFinal c operation src srcLen dest destLen
  let res ← leave [teeSuccess, teeErrorShortBuffer] r.1
  pure (res, r.2)

/-! ## MACs -/

/-- the IV is not used -/
def teeMacInit (c : Crypto) (operation : Nat) : O Unit := do
  if ← unknown operation then teePanic 0
  else do
    let o ← opAt operation
    if o.info.operationClass ≠ teeOperationMac then teePanic 0
    else if o.has teeHandleFlagKeySet = false ∨ o.key1 = 0 then teePanic 0
    else do
      let _ ← if o.operationState ≠ teeOperationStateInitial then teeResetOperation c operation
        else pure ()
      updateOp operation fun o => { o with operationState := teeOperationStateActive }
      initHashOperation c operation

def teeMacUpdate (c : Crypto) (operation : Nat) (chunk : Ptr) (chunkSize : Nat) : O Unit := do
  if ← unknown operation then teePanic 0
  else if chunk = none ∧ chunkSize ≠ 0 then teePanic 0
  else do
    let o ← opAt operation
    if o.info.operationClass ≠ teeOperationMac then teePanic 0
    else if o.has teeHandleFlagInitialized = false then teePanic 0
    else if o.operationState ≠ teeOperationStateActive then teePanic 0
    else if c.maxChunk < chunkSize then teePanic teeErrorBadParameters
    else do
      let res ← uteeHashUpdate c o.state chunk chunkSize
      if res ≠ teeSuccess then teePanic res else pure ()

/-- `TEE_MACComputeFinal` up to the `out` label: the result and `*macLen` -/
def macComputeFinal (c : Crypto) (operation : Nat) (message : Ptr) (messageLen : Nat) (mac : Bool)
    (macLen : Option Nat) : O (Nat × Nat) := do
  if ← unknown operation then pure (teeErrorBadParameters, 0)
  else if (message = none ∧ messageLen ≠ 0) ∨ mac = false then pure (teeErrorBadParameters, 0)
  else
    match macLen with
    | none => pure (teeErrorBadParameters, 0)
    | some ml => do
      let o ← opAt operation
      if o.info.operationClass ≠ teeOperationMac then pure (teeErrorBadParameters, ml)
      else if o.has teeHandleFlagInitialized = false then pure (teeErrorBadParameters, ml)
      else if o.operationState ≠ teeOperationStateActive then pure (teeErrorBadParameters, ml)
      else if c.maxChunk < ml then pure (teeErrorBadParameters, ml)
      else do
        let r ← uteeHashFinal c o.state message messageLen ml
        if r.1 ≠ teeSuccess then pure r
        else do
          endContext operation
          pure r

def teeMacComputeFinal (c : Crypto) (operation : Nat) (message : Ptr) (messageLen : Nat)
    (mac : Bool) (macLen : Option Nat) : O (Nat × Nat) := do
  let r ← macComputeFinal c operation message messageLen mac macLen
  let res ← leave [teeSuccess, teeErrorShortBuffer] r.1
  pure (res, r.2)

/-- `buf_compare_ct(mac, computed_mac, n) == 0` -/
def sameMac (c : Crypto) (mac : Ptr) (n : Nat) : O Bool := do
  let s ← get
  match mac with
  | none => if n = 0 then pure true else throw (.fault .nullPointer)
  | some f => pure ((List.range n).all fun i => f i == c.mac s.log i)

/-- `TEE_MACCompareFinal` up to the `out` label -/
def macCompareFinal (c : Crypto) (operation : Nat) (message : Ptr) (messageLen : Nat) (mac : Ptr)
    (macLen : Nat) : O Nat := do
  if operation = 0 then pure teeErrorBadParameters
  else do
    let o ← opAt operation
    if o.info.operationClass ≠ teeOperationMac then pure teeErrorBadParameters
    else if o.has teeHandleFlagInitialized = false then pure teeErrorBadParameters
    else if o.operationState ≠ teeOperationStateActive then pure teeErrorBadParameters
    else do
      let r ← teeMacComputeFinal c operation message messageLen true (some teeMaxHashSize)
      if r.1 ≠ teeSuccess then pure r.1
      else if r.2 ≠ macLen then pure teeErrorMacInvalid
      else if ← sameMac c mac r.2 then do
        updateOp operation fun o => { o with operationState := teeOperationStateInitial }
        pure teeSuccess
      else pure teeErrorMacInvalid

def teeMacCompareFinal (c : Crypto) (operation : Nat) (message : Ptr) (messageLen : Nat)
    (mac : Ptr) (macLen : Nat) : O Nat := do
  let res ← macCompareFinal c operation message messageLen mac macLen
  leave [teeSuccess, teeErrorMacInvalid] res

/-! ## authenticated encryption -/

/-- `TEE_AEInit` up to the `out` label -/
def aeInit (c : Crypto) (operation : Nat) (nonce : Ptr) (nonceLen tagLen : Nat) : O Nat := do
  if operation = 0 ∨ nonce = none then pure teeErrorBadParameters
  else do
    let o ← opAt operation
    if o.info.operationClass ≠ teeOperationAe then pure teeErrorBadParameters
    else if o.operationState ≠ teeOperationStateInitial then pure teeErrorBadParameters
    else if o.info.algorithm = teeAlgAesGcm ∧ (tagLen < 96 ∨ 128 < tagLen ∨ tagLen % 8 ≠ 0) then
      pure teeErrorNotSupported
    else do
      let res ← crypto c (.authenc o.state (nonce.bytes 0 nonceLen))
      if res ≠ teeSuccess then pure res
      else do
        updateOp operation fun o =>
          { o.setFlag teeHandleFlagInitialized with aeTagLen := tagLen / 8 }
        pure teeSuccess

/-- the lengths of the AAD and of the payload go to `utee_authenc_init` only -/
def teeAeInit (c : Crypto) (operation : Nat) (nonce : Ptr) (nonceLen tagLen : Nat) : O Nat := do
  let res ← aeInit c operation nonce nonceLen tagLen
  leave [teeSuccess, teeErrorNotSupported] res

def teeAeUpdateAad (c : Crypto) (operation : Nat) (aad : Ptr) (aadLen : Nat) : O Unit := do
  if operation = 0 ∨ (aad = none ∧ aadLen ≠ 0) then teePanic 0
  else do
    let o ← opAt operation
    if o.info.operationClass ≠ teeOperationAe then teePanic 0
    else if o.has teeHandleFlagInitialized = false then teePanic 0
    else do
      let res ← crypto c (.authenc o.state (aad.bytes 0 aadLen))
      updateOp operation fun o => { o with operationState := teeOperationStateActive }
      if res ≠ teeSuccess then teePanic res else pure ()

/-- `TEE_AEUpdate` up to the `out` label; the calls of `utee_authenc_update_payload` are commented
out in the source -/
def aeUpdate (operation : Nat) (src : Ptr) (srcLen : Nat) (dest : Bool) (destLen : Option Nat) :
    O (Nat × Nat) := do
  if ← unknown operation then pure (teeErrorBadParameters, 0)
  else if src = none ∧ srcLen ≠ 0 then pure (teeErrorBadParameters, 0)
  else
    match destLen with
    | none => pure (teeErrorBadParameters, 0)
    | some dl =>
      if dest = false ∧ dl ≠ 0 then pure (teeErrorBadParameters, dl)
      else do
        let o ← opAt operation
        if o.info.operationClass ≠ teeOperationAe then pure (teeErrorBadParameters, dl)
        else if o.has teeHandleFlagInitialized = false then pure (teeErrorBadParameters, dl)
        else if src = none ∧ srcLen = 0 then pure (teeSuccess, 0)
        else
          let need := if 1 < o.blockSize then
            (o.bufferOffs + srcLen) % 2 ^ 32 / o.blockSize * o.blockSize else srcLen
          if dl < need then pure (teeErrorShortBuffer, need)
          else do
            updateOp operation fun o => { o with operationState := teeOperationStateActive }
            pure (teeSuccess, dl)

def teeAeUpdate (operation : Nat) (src : Ptr) (srcLen : Nat) (dest : Bool)
    (destLen : Option Nat) : O (Nat × Nat) := do
  let r ← aeUpdate operation src srcLen dest destLen
  let res ← leave [teeSuccess, teeErrorShortBuffer] r.1
  pure (res, r.2)

/-! ## one call -/

/-- a call of the API on operation handles -/
inductive Entry where
  | allocateOperation (operation : Bool) (algorithm mode maxKeySize : Nat)
  | freeOperation (operation : Nat)
  | getOperationInfo (operation : Nat) (operationInfo : Bool)
  | getOperationInfoMultiple (operation : Nat) (operationInfo : Bool) (operationSize : Option Nat)
  | resetOperation (operation : Nat)
  | setOperationKey (operation key : Nat)
  | setOperationKey2 (operation key1 key2 : Nat)
  | copyOperation (dstOp srcOp : Nat)
  | digestUpdate (operation : Nat) (chunk : Ptr) (chunkSize : Nat)
  | digestDoFinal (operation : Nat) (chunk : Ptr) (chunkLen : Nat) (hash : Bool)
      (hashLen : Option Nat)
  | cipherInit (operation : Nat) (iv : Ptr) (ivLen : Nat)
  | cipherUpdate (operation : Nat) (src : Ptr) (srcLen : Nat) (dest : Bool) (destLen : Option Nat)
  | cipherDoFinal (operation : Nat) (src : Ptr) (srcLen : Nat) (dest : Bool)
      (destLen : Option Nat)
  | macInit (operation : Nat)
  | macUpdate (operation : Nat) (chunk : Ptr) (chunkSize : Nat)
  | macComputeFinal (operation : Nat) (message : Ptr) (messageLen : Nat) (mac : Bool)
      (macLen : Option Nat)
  | macCompareFinal (operation : Nat) (message : Ptr) (messageLen : Nat) (mac : Ptr) (macLen : Nat)
  | aeInit (operation : Nat) (nonce : Ptr) (nonceLen tagLen : Nat)
  | aeUpdateAad (operation : Nat) (aad : Ptr) (aadLen : Nat)
  | aeUpdate (operation : Nat) (src : Ptr) (srcLen : Nat) (dest : Bool) (destLen : Option Nat)

/-- the result of the call; a call without one gives `TEE_SUCCESS` -/
def entry (c : Crypto) : Entry → O Nat
  | .allocateOperation p a m n => Prod.fst <$> teeAllocateOperation c p a m n
  | .freeOperation h => (fun _ => teeSuccess) <$> teeFreeOperation c h
  | .getOperationInfo h i => (fun _ => teeSuccess) <$> teeGetOperationInfo h i
  | .getOperationInfoMultiple h i n => Prod.fst <$> teeGetOperationInfoMultiple h i n
  | .resetOperation h => (fun _ => teeSuccess) <$> teeResetOperation c h
  | .setOperationKey h k => teeSetOperationKey h k
  | .setOperationKey2 h k l => teeSetOperationKey2 h k l
  | .copyOperation d s => (fun _ => teeSuccess) <$> teeCopyOperation c d s
  | .digestUpdate h p n => (fun _ => teeSuccess) <$> teeDigestUpdate c h p n
  | .digestDoFinal h p n o l => Prod.fst <$> teeDigestDoFinal c h p n o l
  | .cipherInit h p n => (fun _ => teeSuccess) <$> teeCipherInit c h p n
  | .cipherUpdate h p n o l => Prod.fst <$> teeCipherUpdate c h p n o l
  | .cipherDoFinal h p n o l => Prod.fst <$> teeCipherDoFinal c h p n o l
  | .macInit h => (fun _ => teeSuccess) <$> teeMacInit c h
  | .macUpdate h p n => (fun _ => teeSuccess) <$> teeMacUpdate c h p n
  | .macComputeFinal h p n o l => Prod.fst <$> teeMacComputeFinal c h p n o l
  | .macCompareFinal h p n m l => teeMacCompareFinal c h p n m l
  | .aeInit h p n t => teeAeInit c h p n t
  | .aeUpdateAad h p n => (fun _ => teeSuccess) <$> teeAeUpdateAad c h p n
  | .aeUpdate h p n o l => Prod.fst <$> teeAeUpdate h p n o l

end MTower.Oper
