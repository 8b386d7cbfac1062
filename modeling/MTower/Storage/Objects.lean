import MTower.Lib.Heap
import MTower.Lib.TailQueue
import MTower.Kernel.Session

/-!
# Persistent objects

`tee_pobj.c`, `tee_svc_storage.c` and the entry points of `tee_api_objects.c` above them.  A
persistent object is a `tee_pobj` in `global_pobj_list` with a block for its id and a block for its
data, a handle is a `tee_obj` that points to it.  `tee_pobjs` is the queue of `tee_pobj_get`; both
queues run through the same link fields.

* `teePobjCheckAccess`, `teePobjGet`, `teePobjRelease`  `tee_pobj.c`;
* `uteeStorageObjCreate`, `uteeStorageObjOpen`, `uteeStorageObjRead`, `uteeStorageObjDel`;
* `teeCreatePersistentObject`, `teeReadObjectData`, `teeCloseObject`  what a TA calls.
-/

set_option linter.unusedVariables false

namespace MTower.Storage
open Lib
open Kernel (Uuid)

/-! ## constants -/

def teeSuccess : Nat := 0
def teeErrorAccessConflict : Nat := 0xFFFF0003
def teeErrorBadParameters : Nat := 0xFFFF0006
def teeErrorBadState : Nat := 0xFFFF0007
def teeErrorOutOfMemory : Nat := 0xFFFF000C

def teeDataFlagAccessRead : Nat := 0x1
def teeDataFlagAccessWrite : Nat := 0x2
def teeDataFlagAccessWriteMeta : Nat := 0x4
def teeDataFlagShareRead : Nat := 0x10
def teeDataFlagShareWrite : Nat := 0x20
def teeHandleFlagPersistent : Nat := 0x10000
def teeHandleFlagInitialized : Nat := 0x20000

def teeObjectIdMaxLen : Nat := 64

/-! ## data -/

/-- `struct tee_pobj` without its link -/
structure Pobj where
  refcnt : Nat
  uuid : Uuid
  objId : Nat
  objIdLen : Nat
  flags : Nat
  temporary : Bool
  fops : Nat
  data : Nat
  dataLen : Nat
deriving DecidableEq

def Pobj.zero : Pobj := ⟨0, ⟨0, 0, 0, []⟩, 0, 0, 0, false, 0, 0, 0⟩

/-- `struct tee_obj`: a persistent handle has no attributes -/
structure Obj where
  handleFlags : Nat
  dataPosition : Nat
  pobj : Nat
deriving DecidableEq

def Obj.zero : Obj := ⟨0, 0, 0⟩

inductive Block where
  | pobj (p : Pobj)
  | obj (o : Obj)
  | bytes (l : List UInt8)
deriving DecidableEq

inductive Queue where
  | globalPobjList
  | teePobjs
deriving DecidableEq, Repr

inductive Fault where
  | nullPointer
  | dangling
  | badFree
  | overrun
  | panic (res : Nat)
deriving DecidableEq, Repr

structure State where
  heap : Heap Block
  links : Links Queue

abbrev S := StateT State (Except Fault)

def State.boot (answers : Nat → Nat) : State := ⟨.empty answers, .empty Queue⟩

/-! ## memory -/

def teeMalloc (b : Block) : S Nat := do
  let s ← get
  set { s with heap := (s.heap.alloc b).2 }
  pure (s.heap.alloc b).1

def teeFree (a : Nat) : S Unit := do
  let s ← get
  if a = 0 then pure ()
  else if (s.heap.blocks a).isSome then set { s with heap := s.heap.erase a }
  else throw .badFree

/-- the fault of an access to an address without such a block -/
def noBlock (a : Nat) : Fault := if a = 0 then .nullPointer else .dangling

def pobjAt (a : Nat) : S Pobj := do
  let s ← get
  match s.heap.blocks a with
  | some (.pobj p) => pure p
  | _ => throw (noBlock a)

def objAt (a : Nat) : S Obj := do
  let s ← get
  match s.heap.blocks a with
  | some (.obj o) => pure o
  | _ => throw (noBlock a)

def storeAt (a : Nat) (b : Block) : S Unit :=
  modify fun s => { s with heap := s.heap.store a b }

def setPobj (a : Nat) (f : Pobj → Pobj) : S Unit := do
  let p ← pobjAt a
  storeAt a (.pobj (f p))

/-- the `len` bytes at `a`; a length of `0` reads nothing -/
def bytesAt (a len : Nat) : S (List UInt8) := do
  if len = 0 then pure []
  else do
    let s ← get
    match s.heap.blocks a with
    | some (.bytes l) => if len ≤ l.length then pure (l.take len) else throw .overrun
    | _ => throw (noBlock a)

/-- `memcpy(a, l, len)` -/
def copyTo (a : Nat) (l : List UInt8) : S Unit := do
  if l.length = 0 then pure ()
  else do
    let s ← get
    match s.heap.blocks a with
    | some (.bytes b) =>
      if l.length ≤ b.length then storeAt a (.bytes (l ++ b.drop l.length)) else throw .overrun
    | _ => throw (noBlock a)

/-! ## queues -/

/-- access to the link fields of the element at `a`, if there is one -/
def touch (a : Nat) : S Unit :=
  if a = 0 then pure ()
  else do
    let _ ← pobjAt a
    pure ()

def touchPlace : Place Queue → S Unit
  | .head _ => pure ()
  | .next a => do
    let _ ← pobjAt a
    pure ()

/-- `TAILQ_INSERT_HEAD`: the element and the first one are accessed -/
def tailqInsertHead (q : Queue) (elm : Nat) : S Unit := do
  let _ ← pobjAt elm
  let s ← get
  let _ ← touch (s.links.first q)
  modify fun s => { s with links := s.links.insertHead q elm }

/-- `TAILQ_REMOVE`: the element and its neighbours are accessed -/
def tailqRemove (q : Queue) (elm : Nat) : S Unit := do
  let _ ← pobjAt elm
  let s ← get
  let _ ← touch (s.links.next elm)
  let _ ← touchPlace (s.links.prev elm)
  modify fun s => { s with links := s.links.remove q elm }

/-! ## `tee_pobj.c` -/

def hasFlag (flags flag : Nat) : Bool := decide (flags &&& flag ≠ 0)

def teePobjCheckAccess (oflags nflags : Nat) : Nat :=
  if hasFlag oflags teeDataFlagAccessWriteMeta || hasFlag nflags teeDataFlagAccessWriteMeta then
    teeErrorAccessConflict
  else if (hasFlag oflags teeDataFlagAccessRead || hasFlag nflags teeDataFlagAccessRead) &&
      !(hasFlag nflags teeDataFlagShareRead && hasFlag oflags teeDataFlagShareRead) then
    teeErrorAccessConflict
  else if nflags &&& teeDataFlagShareRead ≠ oflags &&& teeDataFlagShareRead then
    teeErrorAccessConflict
  else if (hasFlag oflags teeDataFlagAccessWrite || hasFlag nflags teeDataFlagAccessWrite) &&
      !(hasFlag nflags teeDataFlagShareWrite && hasFlag oflags teeDataFlagShareWrite) then
    teeErrorAccessConflict
  else if nflags &&& teeDataFlagShareWrite ≠ oflags &&& teeDataFlagShareWrite then
    teeErrorAccessConflict
  else teeSuccess

/-- a result and the address that is handed out with it, `0` when there is none -/
structure Reply where
  res : Nat
  obj : Nat
deriving DecidableEq, Repr

/-- the loop of `tee_pobj_get`: the last match is kept -/
def findOpen (uuid : Uuid) (objId : List UInt8) (fops : Nat) (obj : Nat) : List Nat → S Nat
  | [] => pure obj
  | o :: l => do
    let p ← pobjAt o
    if objId.length = p.objIdLen then do
      let id ← bytesAt p.objId objId.length
      if objId = id ∧ uuid = p.uuid ∧ fops = p.fops then findOpen uuid objId fops o l
      else findOpen uuid objId fops obj l
    else findOpen uuid objId fops obj l

def teePobjGet (uuid : Uuid) (objId : List UInt8) (flags : Nat) (temporary : Bool) (fops : Nat) :
    S Reply := do
  let s ← get
  let obj ← findOpen uuid objId fops 0 (s.links.elems .teePobjs)
  if obj ≠ 0 then do
    let p ← pobjAt obj
    if temporary ≠ p.temporary then pure ⟨teeErrorAccessConflict, 0⟩
    else if teePobjCheckAccess p.flags flags = teeSuccess then do
      storeAt obj (.pobj { p with refcnt := (p.refcnt + 1) % 2 ^ 32 })
      pure ⟨teeSuccess, obj⟩
    else pure ⟨teePobjCheckAccess p.flags flags, 0⟩
  else do
    let o ← teeMalloc (.pobj .zero)
    if o = 0 then pure ⟨teeErrorOutOfMemory, 0⟩
    else do
      setPobj o fun p => { p with refcnt := 1, uuid := uuid, flags := flags, fops := fops
                                  temporary := temporary }
      let id ← teeMalloc (.bytes (List.replicate objId.length 0))
      setPobj o fun p => { p with objId := id }
      if id = 0 then do
        teeFree o
        pure ⟨teeErrorOutOfMemory, 0⟩
      else do
        copyTo id objId
        setPobj o fun p => { p with objIdLen := objId.length }
        tailqInsertHead .teePobjs o
        pure ⟨teeSuccess, o⟩

def teePobjRelease (obj : Nat) : S Nat :=
  if obj = 0 then pure teeErrorBadParameters
  else do
    setPobj obj fun p => { p with refcnt := (p.refcnt + (2 ^ 32 - 1)) % 2 ^ 32 }
    let p ← pobjAt obj
    if p.refcnt = 0 then do
      tailqRemove .teePobjs obj
      teeFree p.objId
      teeFree obj
      pure teeSuccess
    else pure teeSuccess

/-! ## `tee_svc_storage.c` -/

/-- the end of `utee_storage_obj_create`: the data is saved and the object goes into the list -/
def saveData (po : Nat) (data : List UInt8) : S Nat := do
  let d ← teeMalloc (.bytes (List.replicate data.length 0))
  setPobj po fun p => { p with data := d }
  if d = 0 then do
    let p ← pobjAt po
    teeFree p.objId
    teeFree po
    pure teeErrorOutOfMemory
  else do
    copyTo d data
    setPobj po fun p => { p with dataLen := data.length }
    tailqInsertHead .globalPobjList po
    pure teeSuccess

/-- `uuid` is that of the calling session's TA.  A failing allocation of the object or of its id
sets `res`, and the function goes on. -/
def uteeStorageObjCreate (uuid : Uuid) (objectId : List UInt8) (flags : Nat) (data : List UInt8) :
    S Nat := do
  let po ← teeMalloc (.pobj .zero)
  setPobj po fun p => { p with refcnt := 1, uuid := uuid, flags := flags, fops := 0
                               temporary := true }
  let id ← teeMalloc (.bytes (List.replicate objectId.length 0))
  setPobj po fun p => { p with objId := id }
  let _ ← if id = 0 then teeFree po else pure ()
  let p ← pobjAt po
  copyTo p.objId objectId
  setPobj po fun p => { p with objIdLen := objectId.length }
  saveData po data

/-- the loop of `utee_storage_obj_open`: `none` when an object does not match, which ends it -/
def findStored (uuid : Uuid) (objectId : List UInt8) (po : Nat) : List Nat → S (Option Nat)
  | [] => pure (some po)
  | a :: l => do
    let p ← pobjAt a
    if objectId.length = p.objIdLen then do
      let id ← bytesAt p.objId objectId.length
      if objectId = id then
        if uuid = p.uuid then findStored uuid objectId a l
        else pure none
      else pure none
    else pure none

def validFlags : Nat := teeDataFlagAccessRead ||| teeDataFlagAccessWrite |||
  teeDataFlagAccessWriteMeta ||| teeDataFlagShareRead ||| teeDataFlagShareWrite

/-- `*obj` is `0` where the function does not write it: `TEE_OpenPersistentObject` then hands out
`TEE_HANDLE_NULL` -/
def uteeStorageObjOpen (uuid : Uuid) (objectId : List UInt8) (flags : Nat) : S Reply :=
  if flags &&& (2 ^ 32 - 1 - validFlags) ≠ 0 then pure ⟨teeErrorBadParameters, 0⟩
  else if objectId.length > teeObjectIdMaxLen then pure ⟨teeErrorBadParameters, 0⟩
  else do
    let s ← get
    if s.links.first .globalPobjList = 0 then pure ⟨teeSuccess, 0⟩
    else do
      let found ← findStored uuid objectId 0 (s.links.elems .globalPobjList)
      match found with
      | none => pure ⟨teeSuccess, 0⟩
      | some po => do
        let o ← teeMalloc (.obj .zero)
        if o = 0 then do
          let _ ← teePobjRelease po
          pure ⟨teeErrorOutOfMemory, 0⟩
        else do
          storeAt o (.obj ⟨teeHandleFlagPersistent ||| teeHandleFlagInitialized ||| flags, 0, po⟩)
          let _ ← pobjAt po
          pure ⟨teeSuccess, o⟩

/-- `tee_obj_free` of a handle without attributes -/
def teeObjFree (o : Nat) : S Unit :=
  if o = 0 then pure ()
  else do
    let _ ← objAt o
    teeFree o

def uteeStorageObjDel (obj : Nat) : S Nat := do
  let o ← objAt obj
  if o.handleFlags &&& teeDataFlagAccessWriteMeta = 0 then pure teeErrorAccessConflict
  else if o.pobj = 0 then pure teeErrorBadState
  else do
    let p ← pobjAt o.pobj
    if p.objId = 0 then pure teeErrorBadState
    else do
      tailqRemove .globalPobjList o.pobj
      let _ ← teePobjRelease o.pobj
      teeObjFree obj
      pure teeSuccess

/-- the bytes that are copied to the caller -/
def uteeStorageObjRead (obj len : Nat) : S (Nat × List UInt8) := do
  let o ← objAt obj
  let p ← pobjAt o.pobj
  let l ← bytesAt p.data len
  storeAt obj (.obj { o with dataPosition := (o.dataPosition + len) % 2 ^ 32 })
  pure (teeSuccess, l)

/-! ## `tee_api_objects.c` -/

/-- `*object` is a local variable that `utee_storage_obj_create` does not write: `junk` -/
def teeCreatePersistentObject (junk : Nat) (uuid : Uuid) (objectId : List UInt8) (flags : Nat)
    (initialData : List UInt8) : S Reply := do
  let res ← uteeStorageObjCreate uuid objectId flags initialData
  if res = teeSuccess then pure ⟨res, junk⟩
  else pure ⟨res, 0⟩

/-- the result of a read: the bytes in the caller's buffer and `*count` -/
structure ReadReply where
  res : Nat
  bytes : List UInt8
  count : Nat
deriving DecidableEq

/-- `count` is `*count` before the call -/
def teeReadObjectData (object size count : Nat) : S ReadReply :=
  if object = 0 then throw (.panic teeErrorBadParameters)
  else do
    let r ← uteeStorageObjRead object size
    pure ⟨r.1, r.2, count⟩

def teeCloseObject (object : Nat) : S Unit :=
  if object = 0 then pure () else teeObjFree object

end MTower.Storage
