import MTower.Lib.Memory
import MTower.Lib.Loop

/-!
# The shared-memory transport of the client library

On RZT2M `tee_transport_ioctl` carries a request through a window of memory that both worlds
see.  It copies the request and every memref buffer into the window, makes the hypercall, and
copies the answers back.  Addresses and sizes are the 32-bit words of the source, as naturals;
where the source adds, subtracts or masks words the `2^32` is explicit.

* `Window`             the shared window, with the alignment the platform gives it;
* `Stage`              what the function has built when it reaches the hypercall, or when it
                       returns `-1` before it;
* `stageRequest`       the function up to the hypercall;
* `finishRequest`      the function after the hypercall;
* `teeTransportIoctl`  both, for a secure side that leaves `reply` in the window.
-/

set_option linter.unusedVariables false

namespace MTower.Client
open Lib

/-! ## constants and layouts -/

def iocOpenSession : Nat := 2
def iocInvoke : Nat := 3
def iocCloseSession : Nat := 5

def attrTypeMask : Nat := 0xff
def attrTypeMemrefInput : Nat := 5
def attrTypeMemrefOutput : Nat := 6
def attrTypeMemrefInout : Nat := 7

/-- `TEEC_CONFIG_PAYLOAD_REF_COUNT` -/
def payloadRefCount : Nat := 4

/-- `sizeof(struct tee_ioctl_open_session_arg)` and the offset of its `num_params` -/
def openArgSize : Nat := 56
def openArgNumParams : Nat := 52

/-- `sizeof(struct tee_ioctl_invoke_arg)` and the offset of its `num_params` -/
def invokeArgSize : Nat := 24
def invokeArgNumParams : Nat := 20

/-- `sizeof(struct tee_ioctl_param)` -/
def paramSize : Nat := 16

/-- addresses of the fields of `params[n]` for an array at `params` -/
def attrAt (params n : Nat) : Nat := params + paramSize * n
def shmOffsAt (params n : Nat) : Nat := params + paramSize * n + 4
def sizeAt (params n : Nat) : Nat := params + paramSize * n + 8

/-- `params[n].attr & TEE_IOCTL_PARAM_ATTR_TYPE_MASK`, and the memref fields of `params[n]` -/
def paramType (m : Mem) (params n : Nat) : Nat := m.load32 (attrAt params n) &&& attrTypeMask
def memrefShmOffs (m : Mem) (params n : Nat) : Nat := m.load32 (shmOffsAt params n)
def memrefSize (m : Mem) (params n : Nat) : Nat := m.load32 (sizeAt params n)

def IsMemref (type : Nat) : Prop :=
  type = attrTypeMemrefInput ∨ type = attrTypeMemrefOutput ∨ type = attrTypeMemrefInout

instance (type : Nat) : Decidable (IsMemref type) :=
  inferInstanceAs (Decidable (_ ∨ _ ∨ _))

/-- `struct tee_ioctl_buf_data` -/
structure BufData where
  bufPtr : Nat
  bufLen : Nat
deriving DecidableEq, Repr

def BufData.range (b : BufData) : Range := ⟨b.bufPtr, b.bufLen⟩

/-- `sizeof(struct tee_ioctl_buf_data)` -/
def bufDataSize : Nat := 8

/-- `struct rzt2m_memref_copy` -/
structure MemrefCopy where
  clientBuffer : Nat
  sharedBuffer : Nat
  capacity : Nat
  type : Nat
deriving DecidableEq, Repr

def MemrefCopy.zero : MemrefCopy := ⟨0, 0, 0, 0⟩

/-- The shared window `[base, limit)`. -/
structure Window where
  base : Nat
  limit : Nat
  base_aligned : base % 8 = 0
  limit_aligned : limit % 8 = 0
  room_le : base + bufDataSize ≤ limit
  limit_lt : limit < 2 ^ 32

namespace Window

/-- `CROSSCON_TEE_SHMEM_BASE` and `CROSSCON_TEE_SHMEM_SIZE` as the source defaults them -/
def crosscon : Window where
  base := 0x10080000
  limit := 0x10080000 + 0x1000
  base_aligned := by decide
  limit_aligned := by decide
  room_le := by decide
  limit_lt := by decide

def range (w : Window) : Range := ⟨w.base, w.limit - w.base⟩

theorem has_iff (w : Window) (a : Nat) : w.range.Has a ↔ w.base ≤ a ∧ a < w.limit := by
  have h := w.room_le
  simp only [range, Range.Has]
  omega

theorem has_of_within (w : Window) {r : Range} (h : r.Within w.base w.limit) {a : Nat}
    (ha : r.Has a) : w.range.Has a := by
  rw [has_iff]
  simp only [Range.Within, Range.stop, Range.Has] at h ha
  omega

end Window

/-! ## before the hypercall -/

/-- `align_up_uintptr` -/
def alignUpUintptr (value alignment : Nat) : Nat :=
  (value + alignment - 1) % 2 ^ 32 &&& (2 ^ 32 - 1 - (alignment - 1))

/-- `shared_end - cursor`, an unsigned subtraction -/
def roomFrom (w : Window) (cursor : Nat) : Nat := (w.limit + 2 ^ 32 - cursor) % 2 ^ 32

/-- The locals of `tee_transport_ioctl` that change, and the memory.  `rooms` records the cursor
of every evaluation of `shared_end - cursor`. -/
structure Stage where
  mem : Mem
  cursor : Nat
  copies : Nat → MemrefCopy
  rooms : List Nat

/-- what the command says about the request: `num_params` and `params_offset` -/
structure Header where
  numParams : Nat
  paramsOffset : Nat
deriving DecidableEq, Repr

def readHeader (cmd : Nat) (req : BufData) (m : Mem) : Option Header :=
  if cmd = iocOpenSession then
    if req.bufLen < openArgSize then none
    else some ⟨m.load32 (req.bufPtr + openArgNumParams), openArgSize⟩
  else if cmd = iocInvoke then
    if req.bufLen < invokeArgSize then none
    else some ⟨m.load32 (req.bufPtr + invokeArgNumParams), invokeArgSize⟩
  else some ⟨0, 0⟩

/-- the parameter array does not fit the request -/
def Header.Bad (h : Header) (req : BufData) : Prop :=
  h.numParams > payloadRefCount ∨
    (h.numParams ≠ 0 ∧ (h.paramsOffset > req.bufLen ∨
      h.numParams * paramSize > req.bufLen - h.paramsOffset))

instance (h : Header) (req : BufData) : Decidable (h.Bad req) :=
  inferInstanceAs (Decidable (_ ∨ (_ ∧ (_ ∨ _))))

/-- The body of the first loop: parameter `n` of `client_params` is copied in. -/
def stageParam (w : Window) (clientParams sharedParams : Nat) (s : Stage) (n : Nat) :
    Except Stage Stage :=
  let type := paramType s.mem clientParams n
  if ¬ IsMemref type then .ok s
  else
    let size := memrefSize s.mem clientParams n
    let shmOffs := memrefShmOffs s.mem clientParams n
    let rooms := s.cursor :: s.rooms
    if size > roomFrom w s.cursor ∨ (size ≠ 0 ∧ shmOffs = 0) then .error { s with rooms := rooms }
    else
      let mem := if size ≠ 0 ∧ type ≠ attrTypeMemrefOutput then s.mem.copy s.cursor shmOffs size
        else s.mem
      .ok { mem := mem.store32 (shmOffsAt sharedParams n) s.cursor
            cursor := alignUpUintptr ((s.cursor + size) % 2 ^ 32) 8
            copies := Function.update s.copies n ⟨shmOffs, s.cursor, size, type⟩
            rooms := rooms }

/-- where the payload goes: the first cursor -/
def payloadAt (w : Window) : Nat := alignUpUintptr ((w.base + bufDataSize) % 2 ^ 32) 8

/-- payload and descriptor are in place, no parameter is copied yet -/
def stagePayload (w : Window) (req : BufData) (m : Mem) : Stage where
  mem := ((m.copy (payloadAt w) req.bufPtr req.bufLen).store32 w.base (payloadAt w)).store32
    (w.base + 4) req.bufLen
  cursor := alignUpUintptr ((payloadAt w + req.bufLen) % 2 ^ 32) 8
  copies := fun _ => .zero
  rooms := [payloadAt w]

/-- nothing but the first room test has happened -/
def stageNothing (w : Window) (m : Mem) : Stage := ⟨m, payloadAt w, fun _ => .zero, [payloadAt w]⟩

/-- `tee_transport_ioctl` up to the hypercall; `.error` is a `return -1`. -/
def stageRequest (w : Window) (cmd : Nat) (req : BufData) (m : Mem) :
    Except Stage (Header × Stage) :=
  if req.bufPtr = 0 ∨ req.bufLen = 0 then .error ⟨m, 0, fun _ => .zero, []⟩
  else if req.bufLen > roomFrom w (payloadAt w) then .error (stageNothing w m)
  else
    let s := stagePayload w req m
    match readHeader cmd req s.mem with
    | none => .error s
    | some h =>
      if h.Bad req then .error s
      else do
        let t ← (List.range h.numParams).foldlM
          (stageParam w (req.bufPtr + h.paramsOffset) (payloadAt w + h.paramsOffset)) s
        pure (h, t)

/-! ## after the hypercall -/

/-- the size the peer left for parameter `n`, cut to the capacity -/
def returnedSize (m : Mem) (sharedParams n capacity : Nat) : Nat :=
  if memrefSize m sharedParams n > capacity then capacity else memrefSize m sharedParams n

/-- The body of the second loop: the answer to parameter `n` goes back to the client's buffer. -/
def copyBack (sharedParams : Nat) (copies : Nat → MemrefCopy) (m : Mem) (n : Nat) : Mem :=
  let c := copies n
  if c.sharedBuffer = 0 then m
  else
    let size := returnedSize m sharedParams n c.capacity
    if size ≠ 0 ∧ c.type ≠ attrTypeMemrefInput then m.copy c.clientBuffer c.sharedBuffer size
    else m

/-- The body of the third loop: the client's own pointer goes back into its parameter. -/
def restoreOffs (clientParams : Nat) (copies : Nat → MemrefCopy) (m : Mem) (n : Nat) : Mem :=
  if (copies n).sharedBuffer ≠ 0 then m.store32 (shmOffsAt clientParams n) (copies n).clientBuffer
  else m

def finishRequest (w : Window) (req : BufData) (h : Header) (copies : Nat → MemrefCopy)
    (m : Mem) : Mem :=
  let m := (List.range h.numParams).foldl (copyBack (payloadAt w + h.paramsOffset) copies) m
  let m := m.copy req.bufPtr (payloadAt w) req.bufLen
  (List.range h.numParams).foldl (restoreOffs (req.bufPtr + h.paramsOffset) copies) m

/-- `tee_transport_ioctl`.  The hypercall leaves `reply` in the window and returns `rc`. -/
def teeTransportIoctl (w : Window) (cmd : Nat) (bufData : Option BufData) (m : Mem)
    (reply : Mem) (rc : Int) : Mem × Int :=
  match bufData with
  | none => (m, -1)
  | some req =>
    match stageRequest w cmd req m with
    | .error s => (s.mem, -1)
    | .ok (h, s) => (finishRequest w req h s.copies (s.mem.overlay w.range reply), rc)

end MTower.Client
