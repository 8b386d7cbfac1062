import MTower.Cryp.Objects

/-!
# Cryptographic operations of a Trusted Application

The state calls of `tee_svc_cryp.c` and the end of a user context.  A state is a heap block in the
tail queue `utc->cryp_states`, its handle is its address; the context of the algorithm is a block
of its own.

* `teeSvcCrypCheckKeyType`  the object type an algorithm wants;
* `uteeCrypStateAlloc`, `uteeCrypStateFree`, `crypStateFree`  the life of a state;
* `userTaCtxDestroy`        the sweep when the session of the TA ends;
* `Call`, `call`            one system call.
-/

set_option linter.unusedVariables false

namespace MTower.Cryp
open Lib Kernel

/-! ## algorithms -/

/-- `TEE_OPERATION_*` -/
def teeOperationCipher : Nat := 1
def teeOperationMac : Nat := 3
def teeOperationAe : Nat := 4
def teeOperationDigest : Nat := 5
def teeOperationAsymmetricCipher : Nat := 6
def teeOperationAsymmetricSignature : Nat := 7
def teeOperationKeyDerivation : Nat := 8

def teeAlgAesXts : Nat := 0x10000410
def teeModeVerify : Nat := 3

def teeAlgGetClass (algo : Nat) : Nat := algo >>> 28 &&& 0xF

/-- `TEE_ALG_ECDSA_SHA1` to `TEE_ALG_ECDSA_SHA512` -/
def teeAlgEcdsa : List Nat := [0x70001042, 0x70002042, 0x70003042, 0x70004042, 0x70005042]

def teeMainAlgoEcdsa : Nat := 0x41

def teeAlgGetMainAlg (algo : Nat) : Nat :=
  if algo ∈ teeAlgEcdsa then teeMainAlgoEcdsa else algo &&& 0xff

/-- `TEE_MAIN_ALGO_*` with the object type of its keys -/
def reqKeyType : List (Nat × Nat) :=
  [(0x1, teeTypeHmacMd5), (0x2, teeTypeHmacSha1), (0x3, teeTypeHmacSha224),
   (0x4, teeTypeHmacSha256), (0x5, teeTypeHmacSha384), (0x6, teeTypeHmacSha512),
   (0x10, teeTypeAes), (0x11, teeTypeDes), (0x13, teeTypeDes3),
   (teeMainAlgoEcdsa, teeTypeEcdsaKeypair)]

/-- `req_key_type2` -/
def reqKeyType2 (algo mode : Nat) : Nat :=
  if teeAlgGetMainAlg algo = teeMainAlgoEcdsa ∧ mode = teeModeVerify then teeTypeEcdsaPublicKey
  else 0

def teeSvcCrypCheckKeyType (o : TeeObj) (algo mode : Nat) : Nat :=
  match reqKeyType.lookup (teeAlgGetMainAlg algo) with
  | none => teeErrorBadParameters
  | some req =>
    if req ≠ o.info.objectType ∧ reqKeyType2 algo mode ≠ o.info.objectType then
      teeErrorBadParameters
    else teeSuccess

/-! ## states -/

def teeSvcCrypGetState (stateId : Nat) : C Nat := do
  let u ← get
  let found ← lookup stateAt stateId u.crypStates
  pure (if found then teeSuccess else teeErrorBadParameters)

/-- `tee_obj_close` of a key that is in the object list -/
def releaseKey (key : Nat) : C Unit := do
  let res ← teeObjGet key
  if res = teeSuccess then teeObjClose key else pure ()

/-- whether `cs->ctx` of this algorithm may be set, and the algorithm is known -/
def ctxKnown (p : Provider) (algo : Nat) : Bool :=
  if teeAlgGetClass algo = teeOperationCipher then p.cipher algo
  else if teeAlgGetClass algo = teeOperationDigest then p.hash algo
  else if teeAlgGetClass algo = teeOperationMac then p.mac algo
  else false

/-- the switch of `cryp_state_free` with the assertions of `crypto_*_free_ctx` -/
def freeCtx (p : Provider) (ctx algo : Nat) : C Unit :=
  if ctx ≠ 0 ∧ ctxKnown p algo = false then throw .assertion else teeFree ctx

def finalizeCtx (cs : CrypState) : C Unit :=
  if cs.ctxFinalize then do
    let _ ← blockAt cs.ctx
    pure ()
  else pure ()

/-- `TAILQ_REMOVE(&utc->cryp_states, cs, link)` -/
def removeState (s : Nat) : C Unit := do
  let u ← get
  touch stateAt (s :: neighbours s u.crypStates)
  modify fun u => { u with crypStates := u.crypStates.erase s }

def crypStateFree (p : Provider) (s : Nat) : C Unit := do
  let cs ← stateAt s
  releaseKey cs.key1
  releaseKey cs.key2
  removeState s
  finalizeCtx cs
  freeCtx p cs.ctx cs.algo
  teeFree s

/-- a key argument of `utee_cryp_state_alloc` -/
def checkKey (algo mode key : Nat) : C Nat := do
  if key = 0 then pure teeSuccess
  else do
    let res ← teeObjGet key
    if res ≠ teeSuccess then pure res
    else do
      let o ← objAt key
      if o.busy then pure teeErrorBadParameters
      else pure (teeSvcCrypCheckKeyType o algo mode)

/-- `crypto_cipher_alloc_ctx`, `crypto_mac_alloc_ctx` and `crypto_hash_alloc_ctx` -/
def allocCtx (known : Nat → Bool) (s algo : Nat) : C Nat := do
  if known algo = false then pure teeErrorNotSupported
  else do
    let ctx ← teeMalloc (.ctx s)
    if ctx = 0 then pure teeErrorOutOfMemory
    else do
      let cs ← stateAt s
      storeAt s (.state { cs with ctx := ctx })
      pure teeSuccess

/-- the switch of `utee_cryp_state_alloc` -/
def prepareState (p : Provider) (s algo key1 key2 : Nat) : C Nat :=
  if teeAlgGetClass algo = teeOperationCipher then
    if (algo = teeAlgAesXts ∧ (key1 = 0 ∨ key2 = 0)) ∨
        (algo ≠ teeAlgAesXts ∧ (key1 = 0 ∨ key2 ≠ 0)) then pure teeErrorBadParameters
    else allocCtx p.cipher s algo
  else if teeAlgGetClass algo = teeOperationAe then
    if key1 = 0 ∨ key2 ≠ 0 then pure teeErrorBadParameters else pure teeSuccess
  else if teeAlgGetClass algo = teeOperationMac then
    if key1 = 0 ∨ key2 ≠ 0 then pure teeErrorBadParameters else allocCtx p.mac s algo
  else if teeAlgGetClass algo = teeOperationDigest then
    if key1 ≠ 0 ∨ key2 ≠ 0 then pure teeErrorBadParameters else allocCtx p.hash s algo
  else if teeAlgGetClass algo = teeOperationAsymmetricCipher ∨
      teeAlgGetClass algo = teeOperationAsymmetricSignature then
    if key1 = 0 ∨ key2 ≠ 0 then pure teeErrorBadParameters else pure teeSuccess
  else if teeAlgGetClass algo = teeOperationKeyDerivation then
    if key1 = 0 ∨ key2 ≠ 0 then pure teeErrorBadParameters else pure teeSuccess
  else pure teeErrorNotSupported

def setBusy (key : Nat) : C Unit := do
  if key = 0 then pure ()
  else do
    let o ← objAt key
    storeAt key (.obj { o with busy := true })

/-- the two keys become those of the state -/
def registerKeys (s key1 key2 : Nat) : C Unit := do
  setBusy key1
  setBusy key2
  let cs ← stateAt s
  storeAt s (.state { cs with key1 := key1, key2 := key2 })

/-- `TAILQ_INSERT_HEAD(&utc->cryp_states, cs, link)` -/
def insertState (s : Nat) : C Unit := do
  let u ← get
  touch stateAt (u.crypStates.take 1)
  modify fun u => { u with crypStates := s :: u.crypStates }

/-- the result and `*state` -/
def uteeCrypStateAlloc (p : Provider) (algo mode key1 key2 : Nat) : C (Nat × Nat) := do
  let res ← checkKey algo mode key1
  if res ≠ teeSuccess then pure (res, 0)
  else do
    let res ← checkKey algo mode key2
    if res ≠ teeSuccess then pure (res, 0)
    else do
      let s ← teeMalloc (.state ⟨0, 0, 0, 0, 0, false⟩)
      if s = 0 then pure (teeErrorOutOfMemory, 0)
      else do
        insertState s
        storeAt s (.state ⟨algo, mode, 0, 0, 0, false⟩)
        let res ← prepareState p s algo key1 key2
        if res ≠ teeSuccess then do
          crypStateFree p s
          pure (res, 0)
        else do
          registerKeys s key1 key2
          pure (teeSuccess, s)

def uteeCrypStateFree (p : Provider) (state : Nat) : C Nat := do
  let res ← teeSvcCrypGetState state
  if res ≠ teeSuccess then pure res
  else do
    crypStateFree p state
    pure teeSuccess

/-! ## the end of the context -/

/-- `while (!TAILQ_EMPTY(states))`, for at most `n` rounds -/
def freeFirst (p : Provider) : Nat → C Unit
  | 0 => do
    let u ← get
    if u.crypStates = [] then pure () else throw .endless
  | n + 1 => do
    let u ← get
    match u.crypStates with
    | [] => pure ()
    | s :: _ => do
      crypStateFree p s
      freeFirst p n

def teeSvcCrypFreeStates (p : Provider) : C Unit := do
  let u ← get
  freeFirst p u.crypStates.length

/-- `user_ta_ctx_destroy`, after the sessions the TA opened are closed -/
def userTaCtxDestroy (p : Provider) : C Unit := do
  teeSvcCrypFreeStates p
  teeObjCloseAll

/-! ## system calls -/

inductive Call where
  | objAlloc (objType maxKeySize : Nat)
  | objPopulate (mem : Nat → UInt8) (obj : Nat) (attrs : List UteeAttribute)
  | objCopy (dst src : Nat)
  | objReset (obj : Nat)
  | objClose (obj : Nat)
  | stateAlloc (algo mode key1 key2 : Nat)
  | stateFree (state : Nat)

/-- the result of the call and the handle it gives out -/
def call (p : Provider) : Call → C (Nat × Nat)
  | .objAlloc t n => uteeCrypObjAlloc t n
  | .objPopulate mem o l => do
    let r ← uteeCrypObjPopulate p mem o l
    pure (r, 0)
  | .objCopy d s => do
    let r ← uteeCrypObjCopy d s
    pure (r, 0)
  | .objReset o => do
    let r ← uteeCrypObjReset o
    pure (r, 0)
  | .objClose o => do
    let r ← uteeCrypObjClose o
    pure (r, 0)
  | .stateAlloc a m k1 k2 => uteeCrypStateAlloc p a m k1 k2
  | .stateFree s => do
    let r ← uteeCrypStateFree p s
    pure (r, 0)

end MTower.Cryp
