import MTower.Lib.Heap
import MTower.Kernel.Param

/-!
# Sessions and contexts of Trusted Applications

`tee_ta_manager.c`, `user_ta.c`, `pseudo_ta.c` and the request entry of `entry_std.c`.  Sessions
and contexts are heap blocks, the two tail queues are the lists of their elements, and a session
id is the address of the session.  Trusted Applications are functions over a world `τ`: a context
block holds the head of its TA, and an entry point maps the world, the parameters and the session's
`user_ctx` to new ones.  The head tables, the contents of uninitialised locals and the sweep of
crypto states and objects at the end of a user context are fields of `Tas`.

* `State`               the globals, the heap, and a record of every entry into a TA;
* `teeTaOpenSession`, `teeTaInvokeCommand`, `teeTaCloseSession`  the session manager;
* `userTaEnter…`, `pseudoTaEnter…`, `userTaCtxDestroy`, `pseudoTaDestroy`  the two `tee_ta_ops`;
* `ioctl`               one request of the normal world.

Closing a session destroys its context, and destroying a user context closes the sessions it
opened: the recursion is on a fuel that the requests start at the number of allocations so far,
which no chain of distinct sessions can exceed.
-/

set_option linter.unusedVariables false

namespace MTower.Kernel
open Lib

/-! ## UUIDs -/

structure Uuid where
  timeLow : Nat
  timeMid : Nat
  timeHiAndVersion : Nat
  clockSeqAndNode : List Nat
deriving DecidableEq, Repr

/-- octet `i` of a buffer of little endian words -/
def octetAt (w : Words) (i : Nat) : Nat := w (i / 4) / 256 ^ (i % 4) % 256

def teeUuidFromOctets (s : Nat → Nat) : Uuid where
  timeLow := s 0 <<< 24 ||| s 1 <<< 16 ||| s 2 <<< 8 ||| s 3
  timeMid := s 4 <<< 8 ||| s 5
  timeHiAndVersion := s 6 <<< 8 ||| s 7
  clockSeqAndNode := (List.range 8).map fun i => s (8 + i)

/-! ## Trusted Applications -/

structure OpenReturn (τ : Type) where
  res : Nat
  params : TeeParams
  userCtx : Nat
  world : τ

structure InvokeReturn (τ : Type) where
  res : Nat
  params : TeeParams
  world : τ

/-- `struct user_ta_head` and `struct pseudo_ta_head`: the entry points of a TA -/
structure TaHead (τ : Type) where
  uuid : Uuid
  openSession : Option (τ → Nat → TeeParams → Nat → OpenReturn τ)
  invokeCommand : τ → Nat → Nat → Nat → TeeParams → InvokeReturn τ
  closeSession : Option (τ → Nat → τ)

structure Tas (τ : Type) where
  pseudo : List (TaHead τ)
  user : List (TaHead τ)
  ptJunk : τ → Nat → Nat
  paramJunk : τ → TeeParams
  sweep : Nat → τ → τ

/-! ## state -/

/-- `struct tee_ta_session` -/
structure Session where
  ctx : Nat
  userCtx : Nat
deriving DecidableEq, Repr

inductive Block (τ : Type) where
  | session (s : Session)
  | userCtx (userTa : TaHead τ) (openSessions : List Nat)
  | pseudoCtx (pseudoTa : TaHead τ)

inductive EntryKind where
  | openSession
  | invokeCmd
  | closeSession
deriving DecidableEq, Repr

/-- an entry function of `tee_ta_ops` has returned: `current_session` before and after it -/
structure Entered where
  kind : EntryKind
  session : Nat
  ctx : Nat
  before : Nat
  after : Nat
deriving DecidableEq, Repr

/-- an entry point of a TA was called with these arguments -/
structure Call (τ : Type) where
  kind : EntryKind
  ctx : Nat
  cmd : Nat
  types : Nat
  params : TeeParams
  world : τ

structure State (τ : Type) where
  heap : Heap (Block τ)
  openSessions : List Nat
  ctxes : List Nat
  currentSession : Nat
  world : τ
  entered : List Entered
  calls : List (Call τ)

/-- the state at boot -/
def State.boot {τ : Type} (answers : Nat → Nat) (world : τ) : State τ :=
  ⟨Heap.empty answers, [], [], 0, world, [], []⟩

inductive Fault where
  | nullPointer
  | danglingPointer
  | notLinked
  | badFree
  | outOfFuel
deriving DecidableEq, Repr

abbrev K (τ : Type) := StateT (State τ) (Except Fault)

section
variable {τ : Type}

/-! ## memory -/

def faultAt (a : Nat) : Fault := if a = 0 then .nullPointer else .danglingPointer

def State.store (k : State τ) (a : Nat) (b : Block τ) : State τ :=
  { k with heap := k.heap.store a b }

def State.erase (k : State τ) (a : Nat) : State τ := { k with heap := k.heap.erase a }

def sessionAt (a : Nat) : K τ Session := do
  let k ← get
  match k.heap.blocks a with
  | some (.session s) => pure s
  | _ => throw (faultAt a)

/-- `to_user_ta_ctx` -/
def userCtxAt (a : Nat) : K τ (TaHead τ × List Nat) := do
  let k ← get
  match k.heap.blocks a with
  | some (.userCtx h l) => pure (h, l)
  | _ => throw (faultAt a)

/-- `to_pseudo_ta_ctx` -/
def pseudoCtxAt (a : Nat) : K τ (TaHead τ) := do
  let k ← get
  match k.heap.blocks a with
  | some (.pseudoCtx h) => pure h
  | _ => throw (faultAt a)

def storeAt (a : Nat) (b : Block τ) : K τ Unit := modify fun k => k.store a b

def teeMalloc (b : Block τ) : K τ Nat := do
  let k ← get
  set { k with heap := (k.heap.alloc b).2 }
  pure (k.heap.alloc b).1

def teeFree (a : Nat) : K τ Unit := do
  let k ← get
  if a = 0 then pure ()
  else if (k.heap.blocks a).isSome then set (k.erase a)
  else throw .badFree

/-! ## tail queues -/

/-- which `tee_ta_session_head` a call works on -/
inductive SessionHead where
  | teeOpenSessions
  | ofCtx (ctx : Nat)
deriving DecidableEq, Repr

def sessionsOf : SessionHead → K τ (List Nat)
  | .teeOpenSessions => do
    let k ← get
    pure k.openSessions
  | .ofCtx c => do
    let utc ← userCtxAt c
    pure utc.2

def setSessionsOf : SessionHead → List Nat → K τ Unit
  | .teeOpenSessions, l => modify fun k => { k with openSessions := l }
  | .ofCtx c, l => do
    let utc ← userCtxAt c
    storeAt c (.userCtx utc.1 l)

/-- `TAILQ_REMOVE` on the elements -/
def unlinked (l : List Nat) (a : Nat) : K τ (List Nat) :=
  if a ∈ l then pure (l.erase a) else throw .notLinked

def insertSession (head : SessionHead) (s : Nat) : K τ Unit := do
  let l ← sessionsOf head
  setSessionsOf head (s :: l)

/-- `tee_ta_unlink_session` -/
def teeTaUnlinkSession (s : Nat) (head : SessionHead) : K τ Unit := do
  let l ← sessionsOf head
  let l ← unlinked l s
  setSessionsOf head l

def insertCtx (c : Nat) : K τ Unit := modify fun k => { k with ctxes := c :: k.ctxes }

def removeCtx (c : Nat) : K τ Unit := do
  let k ← get
  let l ← unlinked k.ctxes c
  modify fun k => { k with ctxes := l }

/-- `find_session`: going on from an element reads its link -/
def findSession (id : Nat) : List Nat → K τ Nat
  | [] => pure 0
  | s :: l =>
    if s = id then pure s
    else do
      let _ ← sessionAt s
      findSession id l

def teeTaGetSession (id : Nat) (head : SessionHead) : K τ Nat := do
  let l ← sessionsOf head
  findSession id l

/-! ## the current session -/

def teeTaPushCurrentSession (s : Nat) : K τ Unit := modify fun k => { k with currentSession := s }

def teeTaPopCurrentSession : K τ Nat := do
  let k ← get
  pure k.currentSession

/-- the body of an entry function, recorded when it returns -/
def entering {α : Type} (kind : EntryKind) (s ctx : Nat) (body : K τ α) : K τ α := do
  let k ← get
  let a ← body
  modify fun t => { t with
    entered := ⟨kind, s, ctx, k.currentSession, t.currentSession⟩ :: t.entered }
  pure a

def recordCall (kind : EntryKind) (ctx cmd types : Nat) (params : TeeParams) : K τ Unit :=
  modify fun k => { k with calls := ⟨kind, ctx, cmd, types, params, k.world⟩ :: k.calls }

/-- `open_session_entry_point(types, params, &s->user_ctx)` -/
def callOpen (f : τ → Nat → TeeParams → Nat → OpenReturn τ) (s ctx types : Nat)
    (params : TeeParams) : K τ (Nat × TeeParams) := do
  recordCall .openSession ctx 0 types params
  let sess ← sessionAt s
  let k ← get
  let r := f k.world types params sess.userCtx
  set { k.store s (.session { sess with userCtx := r.userCtx }) with world := r.world }
  pure (r.res, r.params)

/-- `invoke_command_entry_point(s->user_ctx, cmd, types, params)` -/
def callInvoke (f : τ → Nat → Nat → Nat → TeeParams → InvokeReturn τ) (s ctx cmd types : Nat)
    (params : TeeParams) : K τ (Nat × TeeParams) := do
  recordCall .invokeCmd ctx cmd types params
  let sess ← sessionAt s
  let k ← get
  let r := f k.world sess.userCtx cmd types params
  set { k with world := r.world }
  pure (r.res, r.params)

/-- `close_session_entry_point(s->user_ctx)`, when there is one -/
def callClose (f : Option (τ → Nat → τ)) (s : Nat) : K τ Unit :=
  match f with
  | none => pure ()
  | some f => do
    let sess ← sessionAt s
    modify fun k => { k with world := f k.world sess.userCtx }

/-! ## `user_ta.c` -/

/-- `user_ta_enter_open_session`; `*eo` is left as it is -/
def userTaEnterOpenSession (s : Nat) (param : TeeTaParam) (eo : Nat) :
    K τ (Nat × TeeTaParam × Nat) := do
  let sess ← sessionAt s
  let utc ← userCtxAt sess.ctx
  entering .openSession s sess.ctx do
    teeTaPushCurrentSession s
    let r ← match utc.1.openSession with
      | none => pure (teeErrorGeneric, param.params)
      | some f => callOpen f s sess.ctx param.types param.params
    let _ ← teeTaPopCurrentSession
    pure (r.1, param.write r.2, eo)

def userTaEnterInvokeCmd (s cmd : Nat) (param : TeeTaParam) : K τ (Nat × TeeTaParam × Nat) := do
  let sess ← sessionAt s
  let utc ← userCtxAt sess.ctx
  entering .invokeCmd s sess.ctx do
    teeTaPushCurrentSession s
    let r ← callInvoke utc.1.invokeCommand s sess.ctx cmd param.types param.params
    let _ ← teeTaPopCurrentSession
    pure (r.1, param.write r.2, teeOriginTrustedApp)

def userTaEnterCloseSession (s : Nat) : K τ Unit := do
  let sess ← sessionAt s
  let utc ← userCtxAt sess.ctx
  entering .closeSession s sess.ctx do
    teeTaPushCurrentSession s
    callClose utc.1.closeSession s
    let _ ← teeTaPopCurrentSession
    pure ()

/-- the loop of `user_ta_ctx_destroy`; `close` is `tee_ta_close_session` -/
def closeOpened (close : Nat → SessionHead → K τ Nat) (ctx : Nat) : Nat → K τ Unit
  | 0 => do
    let utc ← userCtxAt ctx
    if utc.2 = [] then pure () else throw .outOfFuel
  | n + 1 => do
    let utc ← userCtxAt ctx
    match utc.2 with
    | [] => pure ()
    | s :: _ => do
      let _ ← close s (.ofCtx ctx)
      closeOpened close ctx n

def userTaCtxDestroy (tas : Tas τ) (close : Nat → SessionHead → K τ Nat) (ctx : Nat) :
    K τ Unit := do
  let utc ← userCtxAt ctx
  closeOpened close ctx utc.2.length
  modify fun k => { k with world := tas.sweep ctx k.world }
  teeFree ctx

/-- a new context `c` for the session `s`: what the two `tee_ta_init_…_session` share -/
def linkNewCtx (c : Block τ) (s : Nat) : K τ Nat := do
  let ctx ← teeMalloc c
  if ctx = 0 then pure teeErrorOutOfMemory
  else do
    let sess ← sessionAt s
    storeAt s (.session { sess with ctx := ctx })
    insertCtx ctx
    pure teeSuccess

def teeTaInitUserTaSession (tas : Tas τ) (uuid : Uuid) (s : Nat) : K τ Nat :=
  match tas.user.find? fun h => h.uuid = uuid with
  | none => pure teeErrorItemNotFound
  | some ta => linkNewCtx (.userCtx ta []) s

/-! ## `pseudo_ta.c` -/

def pseudoTaEnterOpenSession (tas : Tas τ) (s : Nat) (param : TeeTaParam) :
    K τ (Nat × TeeTaParam × Nat) := do
  let sess ← sessionAt s
  let stc ← pseudoCtxAt sess.ctx
  entering .openSession s sess.ctx do
    teeTaPushCurrentSession s
    let r ← match stc.openSession with
      | none => pure (teeSuccess, param)
      | some f => do
        let k ← get
        let r ← callOpen f s sess.ctx param.types (pseudoCopyIn param (tas.paramJunk k.world))
        pure (r.1, pseudoUpdateOut r.2 param)
    let _ ← teeTaPopCurrentSession
    pure (r.1, r.2, teeOriginTrustedApp)

def pseudoTaEnterInvokeCmd (tas : Tas τ) (s cmd : Nat) (param : TeeTaParam) :
    K τ (Nat × TeeTaParam × Nat) := do
  let sess ← sessionAt s
  let stc ← pseudoCtxAt sess.ctx
  entering .invokeCmd s sess.ctx do
    teeTaPushCurrentSession s
    let k ← get
    let r ← callInvoke stc.invokeCommand s sess.ctx cmd param.types
      (pseudoCopyIn param (tas.paramJunk k.world))
    let _ ← teeTaPopCurrentSession
    pure (r.1, pseudoUpdateOut r.2 param, teeOriginTrustedApp)

def pseudoTaEnterCloseSession (s : Nat) : K τ Unit := do
  let sess ← sessionAt s
  let stc ← pseudoCtxAt sess.ctx
  entering .closeSession s sess.ctx do
    teeTaPushCurrentSession s
    callClose stc.closeSession s
    let _ ← teeTaPopCurrentSession
    pure ()

def pseudoTaDestroy (ctx : Nat) : K τ Unit := do
  let _ ← (pseudoCtxAt ctx : K τ (TaHead τ))
  teeFree ctx

def teeTaInitPseudoTaSession (tas : Tas τ) (uuid : Uuid) (s : Nat) : K τ Nat :=
  match tas.pseudo.find? fun h => h.uuid = uuid with
  | none => pure teeErrorItemNotFound
  | some ta => linkNewCtx (.pseudoCtx ta) s

/-! ## `tee_ta_manager.c` -/

/-- `ctx->ops`: the block says which of the two tables it is -/
def isUserCtx (ctx : Nat) : K τ Bool := do
  let k ← get
  match k.heap.blocks ctx with
  | some (.userCtx _ _) => pure true
  | some (.pseudoCtx _) => pure false
  | _ => throw (faultAt ctx)

def enterOpenSession (tas : Tas τ) (ctx s : Nat) (param : TeeTaParam) (eo : Nat) :
    K τ (Nat × TeeTaParam × Nat) := do
  if ← isUserCtx ctx then userTaEnterOpenSession s param eo
  else pseudoTaEnterOpenSession tas s param

def enterInvokeCmd (tas : Tas τ) (ctx s cmd : Nat) (param : TeeTaParam) :
    K τ (Nat × TeeTaParam × Nat) := do
  if ← isUserCtx ctx then userTaEnterInvokeCmd s cmd param
  else pseudoTaEnterInvokeCmd tas s cmd param

def enterCloseSession (ctx s : Nat) : K τ Unit := do
  if ← isUserCtx ctx then userTaEnterCloseSession s else pseudoTaEnterCloseSession s

def destroyCtx (tas : Tas τ) (close : Nat → SessionHead → K τ Nat) (ctx : Nat) : K τ Unit := do
  if ← isUserCtx ctx then userTaCtxDestroy tas close ctx else pseudoTaDestroy ctx

def teeTaCloseSession (tas : Tas τ) : Nat → Nat → SessionHead → K τ Nat
  | 0, _, _ => throw .outOfFuel
  | fuel + 1, csess, head =>
    if csess = 0 then pure teeErrorItemNotFound
    else do
      let sess ← teeTaGetSession csess head
      if sess = 0 then pure teeErrorItemNotFound
      else do
        let b ← sessionAt sess
        enterCloseSession b.ctx sess
        teeTaUnlinkSession sess head
        teeFree sess
        removeCtx b.ctx
        destroyCtx tas (teeTaCloseSession tas fuel) b.ctx
        pure teeSuccess

/-- `tee_ta_init_session`, the lookups: a static TA, then a user TA -/
def initCtx (tas : Tas τ) (uuid : Uuid) (s : Nat) : K τ Nat := do
  let res ← teeTaInitPseudoTaSession tas uuid s
  if res = teeSuccess ∨ res ≠ teeErrorItemNotFound then pure res
  else teeTaInitUserTaSession tas uuid s

/-- `tee_ta_init_session`, from the label `out` -/
def finishInit (head : SessionHead) (s res : Nat) : K τ (Nat × Nat) :=
  if res = teeSuccess then pure (res, s)
  else do
    teeTaUnlinkSession s head
    teeFree s
    pure (res, 0)

/-- `tee_ta_init_session`: the result code and the session -/
def teeTaInitSession (tas : Tas τ) (head : SessionHead) (uuid : Uuid) : K τ (Nat × Nat) := do
  let s ← teeMalloc (.session ⟨0, 0⟩)
  if s = 0 then pure (teeErrorOutOfMemory, 0)
  else do
    insertSession head s
    let res ← initCtx tas uuid s
    finishInit head s res

structure Opened where
  res : Nat
  sess : Nat
  err : Nat
  param : TeeTaParam

def teeTaOpenSession (tas : Tas τ) (head : SessionHead) (uuid : Uuid) (param : TeeTaParam) :
    K τ Opened := do
  let r ← teeTaInitSession tas head uuid
  if r.1 ≠ teeSuccess then pure ⟨r.1, 0, teeOriginTee, param⟩
  else do
    let b ← sessionAt r.2
    let e ← enterOpenSession tas b.ctx r.2 param teeOriginTee
    pure ⟨e.1, r.2, e.2.2, e.2.1⟩

def teeTaInvokeCommand (tas : Tas τ) (sess cmd : Nat) (param : TeeTaParam) :
    K τ (Nat × TeeTaParam × Nat) := do
  let b ← sessionAt sess
  enterInvokeCmd tas b.ctx sess cmd param

/-! ## `entry_std.c` -/

/-- words of `struct tee_ioctl_open_session_arg` -/
def openSessionWord : Nat := 10
def openRetWord : Nat := 11
def openRetOriginWord : Nat := 12
def openArgWords : Nat := 14

/-- words of `struct optee_msg_arg` -/
def msgFuncWord : Nat := 0
def msgSessionWord : Nat := 1
def msgRetWord : Nat := 3
def msgNumParamsWord : Nat := 5
def msgParamsWord : Nat := 6

/-- the `struct tee_ta_param` that `tee_ioctl_open_session` sees behind its argument -/
def rawTaParam (w : Words) : TeeTaParam where
  types := w openArgWords
  u := fun n => ⟨w (openArgWords + 1 + 3 * n), w (openArgWords + 2 + 3 * n),
    w (openArgWords + 3 + 3 * n)⟩

/-- the words of the message after that `struct tee_ta_param` was written to -/
def putRawTaParam (w : Words) (p : TeeTaParam) : Words := fun i =>
  if openArgWords < i ∧ i ≤ openArgWords + 12 then
    let s := p.u ((i - openArgWords - 1) / 3)
    if (i - openArgWords - 1) % 3 = 0 then s.a
    else if (i - openArgWords - 1) % 3 = 1 then s.b else s.c
  else w i

def teeIoctlOpenSession (tas : Tas τ) (w : Words) : K τ (Nat × Words) := do
  let r ← teeTaOpenSession tas .teeOpenSessions (teeUuidFromOctets (octetAt w)) (rawTaParam w)
  let sess := if r.res ≠ teeSuccess then 0 else r.sess
  let w := Function.update (putRawTaParam w r.param) openSessionWord sess
  let w := Function.update (Function.update w openRetWord r.res) openRetOriginWord r.err
  pure (teeSuccess, w)

def msgParams (w : Words) (n : Nat) : MsgParam := msgParamAt w (msgParamsWord + 4 * n)

def teeIoctlInvoke (tas : Tas τ) (w : Words) : K τ (Nat × Words) := do
  let sess ← teeTaGetSession (w msgSessionWord) .teeOpenSessions
  let k ← get
  match copyInParams (tas.ptJunk k.world) (msgParams w) (w msgNumParamsWord) with
  | .error res => pure (res, Function.update w msgRetWord res)
  | .ok (param, savedAttr) => do
    let r ← teeTaInvokeCommand tas sess (w msgFuncWord) param
    let w' := copyOutParam r.2.1 (w msgNumParamsWord) savedAttr msgParamsWord w
    pure (r.1, Function.update w' msgRetWord r.1)

def teeIoctlCloseSession (tas : Tas τ) (w : Words) : K τ (Nat × Words) := do
  let k ← get
  let res ← teeTaCloseSession tas (k.heap.calls + 1) (w 0) .teeOpenSessions
  pure (res, w)

def iocOpenSession : Nat := 2
def iocInvoke : Nat := 3
def iocCloseSession : Nat := 5

/-- `ioctl`: the request buffer in, the return code and the request buffer out -/
def ioctl (tas : Tas τ) (cmd : Nat) (w : Words) : K τ (Nat × Words) :=
  if cmd = iocOpenSession then teeIoctlOpenSession tas w
  else if cmd = iocInvoke then teeIoctlInvoke tas w
  else if cmd = iocCloseSession then teeIoctlCloseSession tas w
  else pure (teeErrorItemNotFound, w)

end

end MTower.Kernel
