import MTower.Client.Transport
import MTower.Kernel.Session

/-!
# The client library

`tee_client_api.c` above its transport: `TEEC_OpenSession`, `TEEC_InvokeCommand` and the marshalling
of a `TEEC_Operation`.  The request buffer is a sequence of zeroed words, `params` starts at a word
of it.  Temporary references travel in blocks of `TEEC_AllocateSharedMemory`; what these blocks hold
is the part of the world that the client and the TAs share.

* `System`                   client memory, the client's heap, the shared blocks and the TEE;
* `teecPreProcessOperation`, `teecPostProcessOperation`, `teecFreeTempRefs`  the four slots;
* `teecInvokeCommand`, `teecOpenSession`  over any transport;
* `direct`, `answering`      the call of `ioctl` of `entry_std.c`, and a peer that answers anything.
-/

set_option linter.unusedVariables false

namespace MTower.Client
open Lib
open Kernel (Words Fault Uuid)

/-! ## constants -/

def teecSuccess : Nat := 0
def teecErrorBadParameters : Nat := 0xFFFF0006
def teecErrorOutOfMemory : Nat := 0xFFFF000C

def teecOriginApi : Nat := 1
def teecOriginComms : Nat := 2

def teecNone : Nat := 0
def teecValueInput : Nat := 1
def teecValueOutput : Nat := 2
def teecValueInout : Nat := 3
def teecMemrefTempInput : Nat := 5
def teecMemrefTempOutput : Nat := 6
def teecMemrefTempInout : Nat := 7
def teecMemrefWhole : Nat := 0xC
def teecMemrefPartialInput : Nat := 0xD
def teecMemrefPartialOutput : Nat := 0xE
def teecMemrefPartialInout : Nat := 0xF

def teecMemInput : Nat := 1
def teecMemOutput : Nat := 2

/-- words of `struct tee_ioctl_invoke_arg` -/
def invokeArgFunc : Nat := 0
def invokeArgSession : Nat := 1
def invokeArgRet : Nat := 3
def invokeArgRetOrigin : Nat := 4
def invokeArgCount : Nat := 5
def invokeArgWords : Nat := 6

/-- words of `struct tee_ioctl_open_session_arg` -/
def openArgClntLogin : Nat := 8
def openArgSession : Nat := 10
def openArgRet : Nat := 11
def openArgRetOrigin : Nat := 12
def openArgCount : Nat := 13
def openArgWords : Nat := 14

/-! ## data -/

/-- `TEEC_Parameter`: `a` is `value.a` and `tmpref.buffer`, `b` is `value.b` and `tmpref.size` -/
structure TeecParameter where
  a : Nat
  b : Nat
  c : Nat
deriving DecidableEq, Repr

def TeecParameter.buffer (p : TeecParameter) : Nat := p.a

def TeecParameter.size (p : TeecParameter) : Nat := p.b

/-- `TEEC_InitializeContext` is the only source of contexts, and sets `reg_mem` -/
structure TeecContext where
  fd : Int
  regMem : Bool
  capable : regMem = true
deriving DecidableEq

structure TeecSession where
  ctx : Option TeecContext
  sessionId : Nat
deriving DecidableEq

structure TeecOperation where
  paramTypes : Nat
  params : Nat → TeecParameter
  session : Option TeecSession

/-- `TEEC_PARAM_TYPE_GET(operation->paramTypes, n)` -/
def TeecOperation.type (op : TeecOperation) (n : Nat) : Nat := op.paramTypes >>> (n * 4) &&& 0xF

structure TeecSharedMemory where
  buffer : Nat
  size : Nat
  flags : Nat
  bufferAllocated : Bool
deriving DecidableEq, Repr

def TeecSharedMemory.zero : TeecSharedMemory := ⟨0, 0, 0, false⟩

/-- the request buffer and `shm` -/
structure Locals where
  buf : Words
  shm : Nat → TeecSharedMemory

/-! ## state -/

/-- what the blocks of shared memory hold, and the rest of the world of the TAs -/
structure Shared (υ : Type) where
  bytes : Nat → Nat → UInt8
  rest : υ

structure System (υ : Type) where
  mem : Mem
  heap : Heap Nat
  kernel : Kernel.State (Shared υ)

abbrev C (υ : Type) := StateT (System υ) (Except Fault)

/-- `tee_transport_ioctl`: a request goes in, the return code and the request buffer come out; the
client's memory and the TEE can change on the way, its heap cannot -/
abbrev Transport (υ : Type) := Nat → Words → Mem → Kernel.State (Shared υ) →
  Except Fault ((Nat × Words) × Mem × Kernel.State (Shared υ))

section
variable {υ : Type}

def System.setBytes (s : System υ) (bytes : Nat → Nat → UInt8) : System υ :=
  { s with kernel := { s.kernel with world := { s.kernel.world with bytes := bytes } } }

/-! ## memory -/

def malloc (size : Nat) : C υ Nat := do
  let s ← get
  set { s with heap := (s.heap.alloc size).2 }
  pure (s.heap.alloc size).1

def free (a : Nat) : C υ Unit := do
  let s ← get
  if a = 0 then pure ()
  else if (s.heap.blocks a).isSome then set { s with heap := s.heap.erase a }
  else throw .badFree

/-- `memcpy(shm->buffer, tmpref->buffer, len)` -/
def copyToShm (block src len : Nat) : C υ Unit := do
  let s ← get
  if block = 0 then throw .nullPointer
  else set (s.setBytes (Function.update s.kernel.world.bytes block fun j =>
    if j < len then s.mem (src + j) else s.kernel.world.bytes block j))

/-- `memcpy(tmpref->buffer, shm->buffer, len)` -/
def copyFromShm (dst block len : Nat) : C υ Unit := modify fun s => { s with
  mem := fun a => if (Range.mk dst len).Has a then s.kernel.world.bytes block (a - dst)
    else s.mem a }

def teecAllocateSharedMemory (ctx : Option TeecContext) (shm : TeecSharedMemory) :
    C υ (Nat × TeecSharedMemory) :=
  match ctx with
  | none => pure (teecErrorBadParameters, shm)
  | some ctx =>
    if shm.flags = 0 ∨ shm.flags &&& (2 ^ 32 - 1 - (teecMemInput ||| teecMemOutput)) ≠ 0 then
      pure (teecErrorBadParameters, shm)
    else if ctx.regMem then do
      let p ← malloc (if shm.size = 0 then 8 else shm.size)
      if p = 0 then pure (teecErrorOutOfMemory, { shm with buffer := p })
      else pure (teecSuccess, { shm with buffer := p, bufferAllocated := true })
    else pure (teecSuccess, { shm with bufferAllocated := true })

def teecReleaseSharedMemory (shm : TeecSharedMemory) : C υ TeecSharedMemory := do
  if shm.bufferAllocated then free shm.buffer
  pure { shm with buffer := 0, bufferAllocated := false }

/-! ## before the call -/

/-- the attribute and the flags of a temporary reference -/
def tmprefAttr (paramType : Nat) : Option (Nat × Nat) :=
  if paramType = teecMemrefTempInput then some (attrTypeMemrefInput, teecMemInput)
  else if paramType = teecMemrefTempOutput then some (attrTypeMemrefOutput, teecMemOutput)
  else if paramType = teecMemrefTempInout then
    some (attrTypeMemrefInout, teecMemInput ||| teecMemOutput)
  else none

/-- `params` starts at word `base` -/
def attrWord (base n : Nat) : Nat := base + 4 * n

/-- `u.value.a` and `u.memref.shm_offs` -/
def firstWord (base n : Nat) : Nat := base + 4 * n + 1

/-- `u.value.b` and `u.memref.size` -/
def secondWord (base n : Nat) : Nat := base + 4 * n + 2

def Locals.putAttr (s : Locals) (base n attr : Nat) : Locals :=
  { s with buf := Function.update s.buf (attrWord base n) attr }

def Locals.putPair (s : Locals) (base n a b : Nat) : Locals :=
  { s with
    buf := Function.update (Function.update s.buf (firstWord base n) a) (secondWord base n) b }

def Locals.putShm (s : Locals) (n : Nat) (shm : TeecSharedMemory) : Locals :=
  { s with shm := Function.update s.shm n shm }

def teecPreProcessTmpref (ctx : Option TeecContext) (paramType : Nat) (tmpref : TeecParameter)
    (base n : Nat) (s : Locals) : C υ (Nat × Locals) :=
  match tmprefAttr paramType with
  | none => pure (teecErrorBadParameters, s)
  | some (attr, flags) => do
    let s := s.putAttr base n attr
    let r ← teecAllocateSharedMemory ctx { s.shm n with flags := flags, size := tmpref.size }
    let s := s.putShm n r.2
    if r.1 ≠ teecSuccess then pure (r.1, s)
    else do
      copyToShm r.2.buffer tmpref.buffer tmpref.size
      pure (teecSuccess, s.putPair base n r.2.buffer tmpref.size)

def IsTmpref (type : Nat) : Prop :=
  type = teecMemrefTempInput ∨ type = teecMemrefTempOutput ∨ type = teecMemrefTempInout

def IsValue (type : Nat) : Prop :=
  type = teecValueInput ∨ type = teecValueOutput ∨ type = teecValueInout

/-- `TEEC_MEMREF_WHOLE` and `TEEC_MEMREF_PARTIAL_*` -/
def IsRegistered (type : Nat) : Prop :=
  type = teecMemrefWhole ∨ type = teecMemrefPartialInput ∨ type = teecMemrefPartialOutput ∨
    type = teecMemrefPartialInout

instance (type : Nat) : Decidable (IsTmpref type) := inferInstanceAs (Decidable (_ ∨ _ ∨ _))
instance (type : Nat) : Decidable (IsValue type) := inferInstanceAs (Decidable (_ ∨ _ ∨ _))
instance (type : Nat) : Decidable (IsRegistered type) :=
  inferInstanceAs (Decidable (_ ∨ _ ∨ _ ∨ _))

/-- one iteration of the loop of `teec_pre_process_operation` -/
def preProcessParam (ctx : Option TeecContext) (op : TeecOperation) (base : Nat) (s : Locals)
    (n : Nat) : C υ (Nat × Locals) :=
  if op.type n = teecNone then pure (teecSuccess, s.putAttr base n (op.type n))
  else if IsValue (op.type n) then
    pure (teecSuccess,
      (s.putAttr base n (op.type n)).putPair base n (op.params n).a (op.params n).b)
  else if IsTmpref (op.type n) then
    teecPreProcessTmpref ctx (op.type n) (op.params n) base n s
  else if IsRegistered (op.type n) then pure (teecSuccess, s)
  else pure (teecErrorBadParameters, s)

/-- an iteration that fails is the last one -/
def teecPreProcessOperation (ctx : Option TeecContext) (operation : Option TeecOperation)
    (base : Nat) (buf : Words) : C υ (Nat × Locals) :=
  match operation with
  | none => pure (teecSuccess, ⟨fun i => if base ≤ i ∧ i < base + 16 then 0 else buf i,
      fun _ => .zero⟩)
  | some op => (List.range payloadRefCount).foldlM (fun r n =>
      if r.1 = teecSuccess then preProcessParam ctx op base r.2 n else pure r)
      (teecSuccess, ⟨buf, fun _ => .zero⟩)

/-! ## after the call -/

def TeecOperation.setParam (op : TeecOperation) (n : Nat) (p : TeecParameter) : TeecOperation :=
  { op with params := Function.update op.params n p }

/-- `teec_post_process_tmpref`: the new reference -/
def teecPostProcessTmpref (paramType : Nat) (tmpref : TeecParameter) (size : Nat)
    (shm : TeecSharedMemory) : C υ TeecParameter :=
  if paramType ≠ teecMemrefTempInput then do
    if size ≤ tmpref.size ∧ tmpref.buffer ≠ 0 then copyFromShm tmpref.buffer shm.buffer size
    pure { tmpref with b := size }
  else pure tmpref

/-- one iteration of the loop of `teec_post_process_operation` -/
def postProcessParam (base : Nat) (s : Locals) (op : TeecOperation) (n : Nat) :
    C υ TeecOperation :=
  if op.type n = teecValueOutput ∨ op.type n = teecValueInout then
    pure (op.setParam n { op.params n with a := s.buf (firstWord base n)
                                           b := s.buf (secondWord base n) })
  else if IsTmpref (op.type n) then do
    let p ← teecPostProcessTmpref (op.type n) (op.params n) (s.buf (secondWord base n)) (s.shm n)
    pure (op.setParam n p)
  else pure op

def teecPostProcessOperation (operation : Option TeecOperation) (base : Nat) (s : Locals) :
    C υ (Option TeecOperation) :=
  match operation with
  | none => pure none
  | some op => do
    let op ← (List.range payloadRefCount).foldlM (postProcessParam base s) op
    pure (some op)

/-- one iteration of the loop of `teec_free_temp_refs` -/
def freeTempRef (op : TeecOperation) (shms : Nat → TeecSharedMemory) (n : Nat) :
    C υ (Nat → TeecSharedMemory) :=
  if IsTmpref (op.type n) then do
    let shm ← teecReleaseSharedMemory (shms n)
    pure (Function.update shms n shm)
  else pure shms

def teecFreeTempRefs (operation : Option TeecOperation) (shms : Nat → TeecSharedMemory) :
    C υ (Nat → TeecSharedMemory) :=
  match operation with
  | none => pure shms
  | some op => (List.range payloadRefCount).foldlM (freeTempRef op) shms

/-! ## the API -/

def send (transport : Transport υ) (cmd : Nat) (w : Words) : C υ (Nat × Words) := do
  let s ← get
  match transport cmd w s.mem s.kernel with
  | .error f => throw f
  | .ok (r, mem, kernel) => do
    set { s with mem := mem, kernel := kernel }
    pure r

/-- `*ctx` after a `TEEC_InitializeContext` that was given one -/
def teecInitializeContext : TeecContext := ⟨1, true, rfl⟩

structure InvokeReply where
  res : Nat
  origin : Nat
  operation : Option TeecOperation

/-- the request buffer before the parameters are put into it -/
def invokeArg (session : TeecSession) (cmdId : Nat) : Words :=
  Function.update (Function.update (Function.update (fun _ => 0) invokeArgCount payloadRefCount)
    invokeArgSession session.sessionId) invokeArgFunc cmdId

def teecInvokeCommand (transport : Transport υ) (session : Option TeecSession) (cmdId : Nat)
    (operation : Option TeecOperation) : C υ InvokeReply :=
  match session with
  | none => pure ⟨teecErrorBadParameters, teecOriginApi, operation⟩
  | some session => do
    let operation := operation.map fun op => { op with session := some session }
    let pre ← teecPreProcessOperation session.ctx operation invokeArgWords
      (invokeArg session cmdId)
    if pre.1 ≠ teecSuccess then do
      let _ ← teecFreeTempRefs operation pre.2.shm
      pure ⟨pre.1, teecOriginApi, operation⟩
    else do
      let r ← send transport iocInvoke pre.2.buf
      if r.1 ≠ 0 then do
        let _ ← teecFreeTempRefs operation pre.2.shm
        pure ⟨r.1, teecOriginComms, operation⟩
      else do
        let op ← teecPostProcessOperation operation invokeArgWords ⟨r.2, pre.2.shm⟩
        let _ ← teecFreeTempRefs op pre.2.shm
        pure ⟨r.2 invokeArgRet, r.2 invokeArgRetOrigin, op⟩

/-- octet `i` of `uuid_to_octets` -/
def uuidToOctets (s : Uuid) (i : Nat) : Nat :=
  if i < 4 then s.timeLow >>> (24 - 8 * i) % 256
  else if i < 6 then s.timeMid >>> (8 - 8 * (i - 4)) % 256
  else if i < 8 then s.timeHiAndVersion >>> (8 - 8 * (i - 6)) % 256
  else s.clockSeqAndNode.getD (i - 8) 0 % 256

/-- the words of `arg->uuid` -/
def uuidWords (destination : Uuid) : Words := fun i =>
  if i < 4 then
    uuidToOctets destination (4 * i) + 256 * uuidToOctets destination (4 * i + 1)
      + 65536 * uuidToOctets destination (4 * i + 2)
      + 16777216 * uuidToOctets destination (4 * i + 3)
  else 0

def openArg (destination : Uuid) (connectionMethod : Nat) : Words :=
  Function.update (Function.update (uuidWords destination) openArgCount payloadRefCount)
    openArgClntLogin connectionMethod

structure OpenReply where
  res : Nat
  origin : Nat
  session : Option TeecSession
  operation : Option TeecOperation

/-- a transport that fails leaves `res` at the result of the marshalling -/
def teecOpenSession (transport : Transport υ) (ctx : Option TeecContext)
    (session : Option TeecSession) (destination : Uuid) (connectionMethod : Nat)
    (operation : Option TeecOperation) : C υ OpenReply :=
  if ctx = none ∨ session = none then
    pure ⟨teecErrorBadParameters, teecOriginApi, session, operation⟩
  else do
    let pre ← teecPreProcessOperation ctx operation openArgWords
      (openArg destination connectionMethod)
    if pre.1 ≠ teecSuccess then pure ⟨pre.1, teecOriginApi, session, operation⟩
    else do
      let r ← send transport iocOpenSession pre.2.buf
      if r.1 ≠ 0 then pure ⟨pre.1, teecOriginComms, session, operation⟩
      else do
        let session := if r.2 openArgRet = teecSuccess then some ⟨ctx, r.2 openArgSession⟩
          else session
        let op ← teecPostProcessOperation operation openArgWords ⟨r.2, pre.2.shm⟩
        pure ⟨r.2 openArgRet, r.2 openArgRetOrigin, session, op⟩

/-! ## transports -/

/-- `ioctl` of `entry_std.c`, called directly -/
def direct (tas : Kernel.Tas (Shared υ)) : Transport υ := fun cmd w mem k =>
  match Kernel.ioctl tas cmd w k with
  | .error f => .error f
  | .ok (r, k) => .ok (r, mem, k)

/-- a transport that returns, with whatever outcome -/
def answering (f : Nat → Words → Mem → Kernel.State (Shared υ) →
    (Nat × Words) × Mem × Kernel.State (Shared υ)) : Transport υ := fun cmd w mem k =>
  .ok (f cmd w mem k)

end

end MTower.Client
