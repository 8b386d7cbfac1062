import MTower.Client.Outcome
import MTower.Client.Invoke

/-!
# What the client learns of the result of a TA

`tee_ioctl_invoke` puts the result of the entry point into the message and returns it as well, and
`TEEC_InvokeCommand` takes a return code other than `0` for a failure of the transport.  The origin
of the message is never written.

* `invokeCommand_user`   the reply of every invoke that enters a user TA;
* `reported_never`       result, origin and outputs never all arrive, and when the outputs do.
-/

set_option linter.unusedVariables false

namespace MTower.Client
open Lib
open Kernel (Words MsgParam msgParams Slot TeeParams TeeTaParam)

def teecOriginTrustedApp : Nat := 4

/-- the operation has the outputs that `left` holds: pairs, and sizes of references -/
def HasOutputs (operation : Option TeecOperation) (left : Nat → Slot) : Prop :=
  ∀ op, operation = some op → ∀ n < 4,
    (IsValueOut (op.type n) → (op.params n).a = (left n).a ∧ (op.params n).b = (left n).b) ∧
    (IsTmprefOut (op.type n) → (op.params n).size = (left n).b)

/-- the client gets what the entry point returned, from a TA, with the outputs it left -/
structure Reported {υ : Type} (ret : Kernel.InvokeReturn (Shared υ)) (r : InvokeReply) : Prop where
  res : r.res = ret.res
  origin : r.origin = teecOriginTrustedApp
  outputs : HasOutputs r.operation (leftOf ret.params)

section
variable {υ : Type} {sys : System υ} {op op' : TeecOperation}

theorem IsValueOut.not_tmprefOut {type : Nat} (h : IsValueOut type) : ¬ IsTmprefOut type := by
  unfold IsValueOut teecValueOutput teecValueInout at h
  unfold IsTmprefOut teecMemrefTempOutput teecMemrefTempInout
  omega

/-- what comes back has the outputs of the slots it came from -/
theorem Returned.hasOutputs {block : Nat → Nat} {left : Nat → Slot} {bytes : Nat → Nat → UInt8}
    {m m' : Mem} (h : Returned op block left bytes m op' m') : HasOutputs (some op') left := by
  rintro _ ⟨⟩ n hn
  have htype : op'.type n = op.type n := by
    rw [TeecOperation.type, h.types, TeecOperation.type]
  rw [htype, h.params n hn]
  unfold backParam
  constructor
  · intro hv
    rw [if_pos hv]
    exact ⟨rfl, rfl⟩
  · intro ho
    have hv : ¬ IsValueOut (op.type n) := fun hv => hv.not_tmprefOut ho
    rw [if_neg hv, if_pos ho]
    rfl

theorem HasOutputs.congr {left left' : Nat → Slot} (h : ∀ n < 4, left' n = left n)
    {operation : Option TeecOperation} (ho : HasOutputs operation left) :
    HasOutputs operation left' := by
  intro op e n hn
  rw [h n hn]
  exact ho op e n hn

theorem hasOutputs_within (session : TeecSession) (left : Nat → Slot) :
    HasOutputs (some (op.within session)) left ↔ HasOutputs (some op) left := by
  constructor
  · rintro h _ ⟨⟩ n hn
    exact h _ rfl n hn
  · rintro h _ ⟨⟩ n hn
    exact h _ rfl n hn

theorem leftOf_write {p : TeeTaParam} {q : TeeParams} {n : Nat} (hn : n < 4) :
    leftOf q n = (p.write q).u n := by
  show leftOf q n = if h : n < 4 then q ⟨n, h⟩ else _
  rw [leftOf, dif_pos hn, dif_pos hn]

/-- an operation without parameters -/
def noParams : TeecOperation := ⟨0, fun _ => ⟨0, 0, 0⟩, none⟩

theorem noParams_type (n : Nat) : noParams.type n = teecNone := by
  show 0 >>> (n * 4) &&& 0xF = 0
  rw [Nat.zero_shiftRight, Nat.zero_and]

/-- the call without an operation sends empty slots -/
theorem invokeCommand_none (tas : Kernel.Tas (Shared υ)) (hk : Kernel.Linked sys.kernel)
    (session : TeecSession) (cmd : Nat) {b : Kernel.Session} {c : Kernel.Block (Shared υ)}
    {ta : Kernel.TaHead (Shared υ)} (hid : session.sessionId ∈ sys.kernel.openSessions)
    (hb : sys.kernel.heap.blocks session.sessionId = some (.session b))
    (hc : sys.kernel.heap.blocks b.ctx = some c) (hta : c.head = some ta) :
    wp (teecInvokeCommand (direct tas) (some session) cmd none) (fun r t =>
      let p := wireParam noParams fun _ => 0
      let q := c.given tas sys.kernel.world p
      let ret := ta.invokeCommand sys.kernel.world b.userCtx cmd p.types q
      t.kernel.calls = ⟨.invokeCmd, b.ctx, cmd, p.types, q, sys.kernel.world⟩ ::
        sys.kernel.calls ∧
      r.res = ret.res ∧ r.operation = none ∧
      r.origin = if ret.res = Kernel.teeSuccess then 0 else teecOriginComms) sys := by
  obtain ⟨w, hw⟩ : ∃ w : Words, w = fun i => if invokeArgWords ≤ i ∧ i < invokeArgWords + 16 then 0
    else invokeArg session cmd i := ⟨_, rfl⟩
  have hzero : ∀ i, invokeArgWords ≤ i → i < invokeArgWords + 16 → w i = 0 := by
    intro i h1 h2
    rw [hw]
    exact if_pos ⟨h1, h2⟩
  have hhead : ∀ i, i < invokeArgWords → w i = invokeArg session cmd i := by
    intro i hi
    rw [hw]
    exact if_neg fun h => absurd h.1 (by omega)
  have hmsg : ∀ n < 4, msgParams w n = wire noParams 0 n := by
    intro n hn
    have hv : ¬ IsValue (noParams.type n) := fun h => h.not_none (noParams_type n)
    have ht : ¬ IsTmpref (noParams.type n) := fun h => h.not_none (noParams_type n)
    have hp : Kernel.msgParamsWord = invokeArgWords := rfl
    rw [wire, if_neg hv, if_neg ht, msgParams, Kernel.msgParamAt, hp, hzero _ (by omega) (by omega),
      hzero _ (by omega) (by omega), hzero _ (by omega) (by omega), hzero _ (by omega) (by omega)]
    rfl
  have hty : ∀ n < 4, Supported (noParams.type n) := fun n _ => Or.inl (noParams_type n)
  obtain ⟨htyped, hparam⟩ : Kernel.Typed (msgParams w) 4 ∧
      Kernel.msgTaParam w = wireParam noParams fun _ => 0 := msgTaParam_wire hty hmsg
  have hw0 : w Kernel.msgFuncWord = cmd := hhead _ (by decide)
  have hw1 : w Kernel.msgSessionWord = session.sessionId := hhead _ (by decide)
  have hw4 : w invokeArgRetOrigin = 0 := hhead _ (by decide)
  have hw5 : w Kernel.msgNumParamsWord = 4 := hhead _ (by decide)
  have htypes : Kernel.msgTypes w = (wireParam noParams fun _ => 0).types :=
    congrArg TeeTaParam.types hparam
  rw [teecInvokeCommand, Option.map_none, wp_bind, teecPreProcessOperation, wp_pure,
    if_neg (fun h => h rfl), wp_bind, wp_send_direct, ← hw]
  show wp (Kernel.teeIoctlInvoke tas w) _ sys.kernel
  rw [← hw1] at hid hb
  rw [Kernel.wp_teeIoctlInvoke tas hk hw5 htyped hid hb hc hta]
  simp only [hparam, htypes, hw0]
  generalize c.given tas sys.kernel.world (wireParam noParams fun _ => 0) = q
  generalize ta.invokeCommand sys.kernel.world b.userCtx cmd
    (wireParam noParams fun _ => 0).types q = ret
  have hretword : ∀ x : Words, Function.update x Kernel.msgRetWord ret.res invokeArgRet
      = ret.res := fun x => Function.update_self Kernel.msgRetWord ret.res x
  have horigin : ∀ p s, Function.update (Kernel.copyOutParam p 4 s Kernel.msgParamsWord w)
      Kernel.msgRetWord ret.res invokeArgRetOrigin = 0 := by
    intro p s
    rw [Function.update_of_ne (by decide), Kernel.copyOutParam_out _ _ _ _ _ (by decide), hw4]
  by_cases hres : ret.res = 0
  · rw [if_neg (fun h => h hres), wp_bind, teecPostProcessOperation, wp_pure, wp_bind,
      teecFreeTempRefs, wp_pure, wp_pure]
    refine ⟨rfl, ?_, rfl, ?_⟩
    · simp only [hretword]
    · simp only [horigin]
      exact (if_pos hres).symm
  · rw [if_pos hres, wp_bind, teecFreeTempRefs, wp_pure, wp_pure]
    exact ⟨rfl, rfl, rfl, (if_neg hres).symm⟩

/-- **The reply of an invoke of a user TA**, with any operation that can be marshalled or none. -/
theorem invokeCommand_user (tas : Kernel.Tas (Shared υ)) (hk : Kernel.Linked sys.kernel)
    (session : TeecSession) {operation : Option TeecOperation}
    (hs : Sends session.ctx operation sys.heap) (cmd : Nat) {b : Kernel.Session}
    {ta : Kernel.TaHead (Shared υ)} {l : List Nat}
    (hid : session.sessionId ∈ sys.kernel.openSessions)
    (hb : sys.kernel.heap.blocks session.sessionId = some (.session b))
    (hc : sys.kernel.heap.blocks b.ctx = some (.userCtx ta l)) :
    wp (teecInvokeCommand (direct tas) (some session) cmd operation) (fun r t => ∃ call,
      t.kernel.calls = call :: sys.kernel.calls ∧ call.kind = .invokeCmd ∧ call.ctx = b.ctx ∧
      call.cmd = cmd ∧
      (let ret := ta.invokeCommand call.world b.userCtx cmd call.types call.params
       r.res = ret.res ∧
       (ret.res = Kernel.teeSuccess → r.origin = 0 ∧
        HasOutputs r.operation (leftOf ret.params)) ∧
       (ret.res ≠ Kernel.teeSuccess → r.origin = teecOriginComms ∧
        ∀ left, HasOutputs r.operation left ↔ HasOutputs operation left))) sys := by
  cases operation with
  | none =>
    refine wp_mono (invokeCommand_none tas hk session cmd hid hb hc rfl) ?_
    rintro r t ⟨hcalls, hres, hop, horigin⟩
    refine ⟨_, hcalls, rfl, rfl, rfl, hres, fun h => ?_, fun h => ?_⟩
    · rw [if_pos h] at horigin
      rw [hop]
      exact ⟨horigin, fun op e => (Option.some_ne_none op e.symm).elim⟩
    · rw [if_neg h] at horigin
      rw [hop]
      exact ⟨horigin, fun _ => Iff.rfl⟩
  | some op =>
    refine wp_mono (invokeCommand_entered tas hk session (hs op rfl) cmd hid hb hc rfl) ?_
    rintro r t ⟨hcalls, -, hres, hok, herr⟩
    refine ⟨_, hcalls, rfl, rfl, rfl, hres, fun h => ?_, fun h => ?_⟩
    · obtain ⟨horigin, op', hop, hret⟩ := hok h
      rw [hop]
      exact ⟨horigin, hret.hasOutputs.congr fun n hn => leftOf_write hn⟩
    · obtain ⟨horigin, hop, -⟩ := herr h
      rw [hop]
      exact ⟨horigin, fun left => hasOutputs_within session left⟩

/-- **The result of a TA is never reported in full.**  The return value is that of the entry point,
the origin never the TA; the outputs arrive when the entry point returned success, or when they are
what the operation held before the call. -/
theorem reported_never (tas : Kernel.Tas (Shared υ)) (sys : System υ)
    (hk : Reached tas sys.kernel) (session : TeecSession) (operation : Option TeecOperation)
    (hs : Sends session.ctx operation sys.heap) (cmd : Nat) (b : Kernel.Session)
    (ta : Kernel.TaHead (Shared υ)) (l : List Nat)
    (hid : session.sessionId ∈ sys.kernel.openSessions)
    (hb : sys.kernel.heap.blocks session.sessionId = some (.session b))
    (hc : sys.kernel.heap.blocks b.ctx = some (.userCtx ta l)) :
    wp (teecInvokeCommand (direct tas) (some session) cmd operation) (fun r t => ∃ call,
      t.kernel.calls = call :: sys.kernel.calls ∧ call.kind = .invokeCmd ∧ call.ctx = b.ctx ∧
      call.cmd = cmd ∧
      (let ret := ta.invokeCommand call.world b.userCtx cmd call.types call.params
       ¬ Reported ret r ∧ r.res = ret.res ∧ r.origin ≠ teecOriginTrustedApp ∧
       (HasOutputs r.operation (leftOf ret.params) ↔
        ret.res = Kernel.teeSuccess ∨ HasOutputs operation (leftOf ret.params)))) sys := by
  refine wp_mono (invokeCommand_user tas hk.table.linked session hs cmd hid hb hc) ?_
  rintro r t ⟨call, hcalls, hkind, hctx, hcmd, hres, hok, herr⟩
  refine ⟨call, hcalls, hkind, hctx, hcmd, ?_⟩
  intro ret
  have horigin : r.origin ≠ teecOriginTrustedApp := by
    by_cases h : ret.res = Kernel.teeSuccess
    · rw [(hok h).1]
      decide
    · rw [(herr h).1]
      decide
  refine ⟨fun hr => horigin hr.origin, hres, horigin, ?_⟩
  by_cases h : ret.res = Kernel.teeSuccess
  · exact ⟨fun _ => Or.inl h, fun _ => (hok h).2⟩
  · rw [(herr h).2]
    exact ⟨Or.inr, fun ho => ho.resolve_left h⟩

end

/-- a TA that asks for a larger buffer -/
def shortTa : Kernel.TaHead (Shared Unit) :=
  { aliasTa with invokeCommand := fun w _ _ _ p =>
      ⟨0xFFFF0010, Function.update p 0 { p 0 with b := 100 }, w⟩ }

def shortTas : Kernel.Tas (Shared Unit) := { aliasTas with user := [shortTa] }

/-- a session with that TA is open -/
def shortSystem : System Unit :=
  { aliasSystem with kernel :=
      match Kernel.ioctl shortTas Kernel.iocOpenSession (fun _ => 0) aliasBoot with
      | .ok (_, k) => k
      | .error _ => aliasBoot }

/-- one output reference of one byte -/
def outputOp : TeecOperation where
  paramTypes := 0x6
  params := fun _ => ⟨0x100, 1, 0⟩
  session := none

theorem shortSystem_ready : Reached shortTas shortSystem.kernel ∧
    Sends (some teecInitializeContext) (some outputOp) shortSystem.heap ∧
    0x20000000 ∈ shortSystem.kernel.openSessions ∧
    shortSystem.kernel.heap.blocks 0x20000000 = some (.session ⟨0x20000100, 0⟩) ∧
    shortSystem.kernel.heap.blocks 0x20000100 = some (.userCtx shortTa []) := by
  refine ⟨.request Kernel.iocOpenSession (fun _ => 0)
    (.boot Kernel.sampleAnswers ⟨fun _ _ => 0, ()⟩) rfl, ?_, by decide +kernel, rfl, rfl⟩
  rintro _ ⟨⟩
  decide +kernel

theorem reported_never_short : ∃ r t call,
    teecInvokeCommand (direct shortTas) (some ⟨some teecInitializeContext, 0x20000000⟩) 0
      (some outputOp) shortSystem = .ok (r, t) ∧
    t.kernel.calls = call :: shortSystem.kernel.calls ∧ r.res = 0xFFFF0010 ∧
    r.origin ≠ teecOriginTrustedApp ∧
    ¬ HasOutputs r.operation
      (leftOf (shortTa.invokeCommand call.world 0 0 call.types call.params).params) := by
  obtain ⟨hk, hs, hid, hb, hc⟩ := shortSystem_ready
  generalize shortSystem = sys at *
  obtain ⟨r, t, e, call, hcalls, -, -, -, -, hres, horigin, hout⟩ := wp_iff.mp
    (reported_never shortTas sys hk ⟨some teecInitializeContext, 0x20000000⟩ (some outputOp) hs 0
      _ shortTa [] hid hb hc)
  refine ⟨r, t, call, e, hcalls, hres, horigin, ?_⟩
  rw [hout, not_or]
  refine ⟨fun h => absurd h (show (0xFFFF0010 : Nat) ≠ 0 by decide), fun h => ?_⟩
  have hsize : (1 : Nat) = 100 := (h outputOp rfl 0 (by decide)).2 (by decide)
  exact absurd hsize (by decide)

/-- the required size does not reach the client, and the error looks like one of the transport -/
theorem reported_fails :
    ¬ wp (teecInvokeCommand (direct shortTas) (some ⟨some teecInitializeContext, 0x20000000⟩) 0
      (some outputOp)) (fun r t => ∃ call, t.kernel.calls = call :: shortSystem.kernel.calls ∧
        Reported (shortTa.invokeCommand call.world 0 0 call.types call.params) r) shortSystem := by
  obtain ⟨hk, hs, hid, hb, hc⟩ := shortSystem_ready
  generalize shortSystem = sys at *
  intro h
  obtain ⟨r, t, e, call, hcalls, hr⟩ := wp_iff.mp h
  obtain ⟨call', -, -, -, -, -, -, herr⟩ := (wp_of_eq e).mp (invokeCommand_user shortTas
    hk.table.linked ⟨some teecInitializeContext, 0x20000000⟩ hs 0 hid hb hc)
  have horigin := (herr (show (0xFFFF0010 : Nat) ≠ 0 by decide)).1
  rw [hr.origin] at horigin
  exact absurd horigin (by decide)

end MTower.Client
