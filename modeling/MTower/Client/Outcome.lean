import MTower.Client.Marshal

/-!
# The client library under any outcome of its transport

A transport that returns gives a return code and a request buffer, and may have changed the client's
memory and the TEE.  Nothing is assumed about any of them.

* `openHonest_iff`   `TEEC_OpenSession` reports a session that is there, unless its transport failed;
* `balanced_invoke`  `TEEC_InvokeCommand` releases what it allocated, on every exit;
* `balanced_iff`     `TEEC_OpenSession` does so only when it allocated nothing.
-/

set_option linter.unusedVariables false

namespace MTower.Client
open Lib
open Kernel (Words Uuid)

section
variable {υ : Type}

/-! ## the marshalling, with or without an operation -/

/-- the request is sent: there is no operation, or it can be marshalled -/
def Sends (ctx : Option TeecContext) (operation : Option TeecOperation) (h : Heap Nat) : Prop :=
  ∀ op, operation = some op → Marshals ctx op h

/-- some slot gets a block: the first reference is reached and its allocation succeeds -/
def Obtains (op : TeecOperation) (h : Heap Nat) : Prop :=
  ¬ h.Full ∧ ∃ m < 4, IsTmpref (op.type m) ∧ ∀ i < m, Supported (op.type i)

/-- the blocks a call holds between the marshalling and the release -/
def HeldBy (h : Heap Nat) (operation : Option TeecOperation) (shms : Nat → TeecSharedMemory)
    (t : Heap Nat) : Prop :=
  match operation with
  | none => t.blocks = h.blocks
  | some op => Held h op shms t

theorem not_full_of_serves {h : Heap Nat} {l : List Nat} (hs : h.Serves l) {i : Nat}
    (hi : i < l.length) : ¬ h.Full := by
  cases l with
  | nil => exact absurd hi (Nat.not_lt_zero i)
  | cons b l => exact hs.1

theorem tempSizes_none {op : TeecOperation} {n : Nat} (h : ∀ m < n, ¬ IsTmpref (op.type m)) :
    tempSizes op n = [] := by
  induction n with
  | zero => rfl
  | succ n ih =>
    rw [tempSizes, if_neg (h n (by omega))]
    exact ih fun m hm => h m (by omega)

variable {base : Nat} {buf : Words} {op : TeecOperation} {sys t : System υ} {s : Locals}

theorem Packed.obtains (hl : Packed op base buf sys 4 s t) :
    (∃ m, (s.shm m).bufferAllocated = true) ↔ Obtains op sys.heap := by
  constructor
  · rintro ⟨m, ha⟩
    obtain ⟨hm, ht⟩ := (hl.allocated m).mp ha
    refine ⟨not_full_of_serves hl.serves (tempSizes_lt op hm ht), m, hm, ht, ?_⟩
    exact fun i hi => hl.supported i (by omega)
  · rintro ⟨-, m, hm, ht, -⟩
    exact ⟨m, (hl.allocated m).mpr ⟨hm, ht⟩⟩

theorem Stopped.obtains {ctx : TeecContext} {k : Nat} (hk : Stopped (some ctx) op sys k s t) :
    (∃ m, (s.shm m).bufferAllocated = true) ↔ Obtains op sys.heap := by
  obtain ⟨hsup, hserve, hstop⟩ := hk.stops
  constructor
  · rintro ⟨m, ha⟩
    obtain ⟨hm, ht⟩ := (hk.allocated m).mp ha
    have hk4 := hk.lt
    refine ⟨not_full_of_serves hserve (tempSizes_lt op hm ht), m, by omega, ht, ?_⟩
    exact fun i hi => hsup i (by omega)
  · rintro ⟨hf, m, hm, ht, hbefore⟩
    by_contra hno
    have hnone : ∀ i < k, ¬ IsTmpref (op.type i) := by
      intro i hi hti
      exact hno ⟨i, (hk.allocated i).mpr ⟨hi, hti⟩⟩
    have hkm : k ≤ m := by
      by_contra hlt
      exact hnone m (by omega) ht
    have hksup : Supported (op.type k) := by
      by_cases hkm' : k = m
      · rw [hkm']
        exact Or.inr (Or.inr (Or.inl ht))
      · exact hbefore k (by omega)
    -- nothing was allocated before slot `k`, so its own allocation is the first one
    rcases hstop with hn | ⟨-, hc | hfull⟩
    · exact hn hksup
    · exact Option.some_ne_none ctx hc
    · rw [tempSizes_none hnone] at hfull
      exact hf hfull

/-- **The marshalling of a call.** -/
theorem preProcess_outcome (ctx : Option TeecContext) (operation : Option TeecOperation)
    (hz : ∀ i, base ≤ i → buf i = 0) (sys : System υ) :
    wp (teecPreProcessOperation ctx operation base buf) (fun r u =>
      (r.1 = teecSuccess ↔ Sends ctx operation sys.heap) ∧
      HeldBy sys.heap operation r.2.shm u.heap ∧
      (ctx ≠ none → ((∃ m, (r.2.shm m).bufferAllocated = true) ↔
        ∃ op, operation = some op ∧ Obtains op sys.heap))) sys := by
  cases operation with
  | none =>
    rw [teecPreProcessOperation, wp_pure]
    refine ⟨⟨fun _ op h => (Option.some_ne_none op h.symm).elim, fun _ => rfl⟩, rfl, ?_⟩
    intro _
    constructor
    · rintro ⟨m, h⟩
      cases h
    · rintro ⟨op, h, -⟩
      cases h
  | some op =>
    refine wp_mono (preProcess_cases ctx op hz sys) ?_
    have hob : (∃ op', some op = some op' ∧ Obtains op' sys.heap) ↔ Obtains op sys.heap := by
      constructor
      · rintro ⟨op', he, ho⟩
        cases he
        exact ho
      · exact fun ho => ⟨op, rfl, ho⟩
    rintro r u (⟨hr, hm, hl⟩ | ⟨hr, hm, k, hk⟩)
    · refine ⟨⟨fun _ op' he => ?_, fun _ => hr⟩, hl.held (le_refl 4), fun _ => ?_⟩
      · cases he
        exact hm
      · rw [hob]
        exact hl.obtains
    · refine ⟨⟨fun h => absurd h hr, fun h => absurd (h op rfl) hm⟩, hk.held, fun hc => ?_⟩
      obtain ⟨c, rfl⟩ := Option.ne_none_iff_exists'.mp hc
      rw [hob]
      exact hk.obtains

/-- copying back leaves the heap and the types -/
theorem postProcess_outcome (operation : Option TeecOperation) (base : Nat) (s : Locals)
    (t : System υ) {h : Heap Nat} (hh : HeldBy h operation s.shm t.heap) :
    wp (teecPostProcessOperation operation base s) (fun r u =>
      u.heap = t.heap ∧ HeldBy h r s.shm u.heap) t := by
  cases operation with
  | none => exact ⟨rfl, hh⟩
  | some op =>
    refine wp_mono (postProcess_back op base s t) ?_
    rintro r u ⟨op', rfl, hback⟩
    have hheap : u.heap = t.heap := by rw [hback.state]
    refine ⟨hheap, ?_⟩
    rw [hheap]
    refine ⟨?_, hh.fresh, hh.distinct, hh.other⟩
    intro m ha
    rw [hback.type_eq]
    exact hh.typed m ha

theorem freeTempRefs_outcome {operation : Option TeecOperation} {h : Heap Nat}
    {shms : Nat → TeecSharedMemory} (hh : HeldBy h operation shms t.heap) :
    wp (teecFreeTempRefs operation shms) (fun _ u => u.heap.blocks = h.blocks) t := by
  cases operation with
  | none => exact hh
  | some op => exact wp_mono (freeTempRefs_held hh) fun _ _ hu => hu.1

/-- a call that releases nothing is balanced when it holds nothing -/
theorem HeldBy.blocks_eq_iff {operation : Option TeecOperation} {h t : Heap Nat}
    {shms : Nat → TeecSharedMemory} (hh : HeldBy h operation shms t)
    (hz : operation = none → ∀ m, (shms m).bufferAllocated = false) :
    t.blocks = h.blocks ↔ ¬ ∃ m, (shms m).bufferAllocated = true := by
  cases operation with
  | none =>
    refine ⟨fun _ => ?_, fun _ => hh⟩
    rintro ⟨m, ha⟩
    rw [hz rfl m] at ha
    cases ha
  | some op =>
    constructor
    · rintro e ⟨m, ha⟩
      obtain ⟨-, hfree, hlive⟩ := hh.fresh m ha
      rw [e, hfree] at hlive
      exact hlive rfl
    · intro hno
      funext a
      exact hh.other a fun m ha => absurd ⟨m, ha⟩ hno

/-! ## what an open reports -/

/-- a transport with this outcome, whatever it is asked -/
def outcome (rc : Nat) (reply : Words) (mem : Mem) (kernel : Kernel.State (Shared υ)) :
    Transport υ := answering fun _ _ _ _ => ((rc, reply), mem, kernel)

/-- Success is the success of the transport and of the TEE, and the session is the one of the reply;
anything else is an error and the session is as it was. -/
def Honest (rc : Nat) (reply : Words) (ctx : Option TeecContext) (session : Option TeecSession)
    (r : OpenReply) : Prop :=
  (r.res = teecSuccess → rc = 0 ∧ reply openArgRet = teecSuccess ∧
    r.session = some ⟨ctx, reply openArgSession⟩) ∧
  (r.res ≠ teecSuccess → r.session = session)

section
variable (rc : Nat) (reply : Words) (mem : Mem) (kernel : Kernel.State (Shared υ))
  (ctx : Option TeecContext) (session : Option TeecSession) (destination : Uuid)
  (connectionMethod : Nat) (operation : Option TeecOperation) (sys : System υ)

/-- the call returns before the transport, with an error -/
theorem openSession_unsent
    (h : ¬ (ctx ≠ none ∧ session ≠ none ∧ Sends ctx operation sys.heap)) :
    wp (teecOpenSession (outcome rc reply mem kernel) ctx session destination connectionMethod
      operation) (fun r _ => r.res ≠ teecSuccess ∧ r.session = session) sys := by
  have hbad : teecErrorBadParameters ≠ teecSuccess := by decide
  unfold teecOpenSession
  by_cases hnull : ctx = none ∨ session = none
  · rw [if_pos hnull, wp_pure]
    exact ⟨hbad, rfl⟩
  · rw [if_neg hnull, wp_bind]
    refine wp_mono (preProcess_outcome ctx operation
      (openArg_zero destination connectionMethod) sys) ?_
    rintro pre u ⟨hres, -, -⟩
    rw [not_or] at hnull
    have hne : pre.1 ≠ teecSuccess := fun e => h ⟨hnull.1, hnull.2, hres.mp e⟩
    rw [if_pos hne, wp_pure]
    exact ⟨hne, rfl⟩

/-- the call after a transport that returned `rc` -/
theorem openSession_sent (hc : ctx ≠ none) (hs : session ≠ none)
    (h : Sends ctx operation sys.heap) :
    wp (teecOpenSession (outcome rc reply mem kernel) ctx session destination connectionMethod
      operation) (fun r _ =>
        (rc ≠ 0 → r.res = teecSuccess ∧ r.session = session) ∧
        (rc = 0 → r.res = reply openArgRet ∧ r.session =
          if reply openArgRet = teecSuccess then some ⟨ctx, reply openArgSession⟩
          else session)) sys := by
  have hnull : ¬ (ctx = none ∨ session = none) := not_or.mpr ⟨hc, hs⟩
  rw [teecOpenSession, if_neg hnull, wp_bind]
  refine wp_mono (preProcess_outcome ctx operation
    (openArg_zero destination connectionMethod) sys) ?_
  rintro pre u ⟨hres, hheld, -⟩
  have hok : pre.1 = teecSuccess := hres.mpr h
  rw [if_neg (fun hne => hne hok), wp_bind, outcome, wp_send_answering]
  show wp (if rc ≠ 0 then _ else _) _ _
  by_cases hrc : rc = 0
  · rw [if_neg (fun hne => hne hrc), wp_bind]
    refine wp_mono (postProcess_outcome operation _ ⟨reply, pre.2.shm⟩ _ hheld) ?_
    rintro op v -
    rw [wp_pure]
    exact ⟨fun hne => absurd hrc hne, fun _ => ⟨rfl, rfl⟩⟩
  · rw [if_pos hrc, wp_pure]
    exact ⟨fun _ => ⟨hok, rfl⟩, fun e => absurd e hrc⟩

/-- **When an open is honest**: it fails before the transport is asked, or the transport returns
`0`. -/
theorem openHonest_iff :
    wp (teecOpenSession (outcome rc reply mem kernel) ctx session destination connectionMethod
      operation) (fun r _ => Honest rc reply ctx session r) sys ↔
    ¬ (ctx ≠ none ∧ session ≠ none ∧ Sends ctx operation sys.heap) ∨ rc = 0 := by
  by_cases h : ctx ≠ none ∧ session ≠ none ∧ Sends ctx operation sys.heap
  · obtain ⟨r, t, e, hfail, hzero⟩ := wp_iff.mp
      (openSession_sent rc reply mem kernel ctx session destination connectionMethod operation sys
        h.1 h.2.1 h.2.2)
    rw [wp_of_eq e]
    constructor
    · intro hh
      by_contra hno
      rw [not_or] at hno
      exact hno.2 (hh.1 (hfail hno.2).1).1
    · intro hor
      have hrc : rc = 0 := hor.resolve_left fun hn => hn h
      obtain ⟨hres, hsess⟩ := hzero hrc
      refine ⟨fun hr => ?_, fun hr => ?_⟩
      · rw [hres] at hr
        rw [if_pos hr] at hsess
        exact ⟨hrc, hr, hsess⟩
      · rw [hres] at hr
        rw [if_neg hr] at hsess
        exact hsess
  · refine ⟨fun _ => Or.inl h, fun _ => ?_⟩
    refine wp_mono (openSession_unsent rc reply mem kernel ctx session destination
      connectionMethod operation sys h) ?_
    rintro r t ⟨hr, hs⟩
    exact ⟨fun e => absurd e hr, fun _ => hs⟩

end

/-- a TEE after boot and a client with an empty heap -/
def bootSystem : System Unit where
  mem := fun _ => 0
  heap := .empty fun n => 0x30000000 + 0x100 * n
  kernel := .boot Kernel.sampleAnswers ⟨fun _ _ => 0, ()⟩

/-- the RZT2M transport refuses the request with `-1`: the open succeeds, without a session -/
theorem openHonest_refused : ¬ wp (teecOpenSession
    (outcome 0xFFFFFFFF (fun _ => 0) bootSystem.mem bootSystem.kernel)
    (some teecInitializeContext) (some ⟨none, 0⟩) (Kernel.teeUuidFromOctets fun _ => 0) 0 none)
    (fun r _ => Honest 0xFFFFFFFF (fun _ => 0) (some teecInitializeContext) (some ⟨none, 0⟩) r)
    bootSystem := by
  intro h
  obtain ⟨r, t, e, hfail, -⟩ := wp_iff.mp (openSession_sent 0xFFFFFFFF (fun _ => 0)
    bootSystem.mem bootSystem.kernel (some teecInitializeContext) (some ⟨none, 0⟩)
    (Kernel.teeUuidFromOctets fun _ => 0) 0 none bootSystem (Option.some_ne_none _)
    (Option.some_ne_none _) fun op he => (Option.some_ne_none op he.symm).elim)
  have hrc : (0xFFFFFFFF : Nat) ≠ 0 := by decide
  have hh := (wp_of_eq e).mp h
  exact hrc (hh.1 (hfail hrc).1).1

/-! ## what a call releases -/

/-- The call ends with the blocks it began with.  Releasing a block that is not there is a fault, so
each block the call obtained was released once and no other was. -/
def Balanced {α : Type} (call : C υ α) (sys : System υ) : Prop :=
  wp call (fun _ t => t.heap.blocks = sys.heap.blocks) sys

section
variable (f : Nat → Words → Mem → Kernel.State (Shared υ) →
    (Nat × Words) × Mem × Kernel.State (Shared υ))
  (ctx : Option TeecContext) (session : Option TeecSession) (destination : Uuid)
  (connectionMethod cmd : Nat) (operation : Option TeecOperation) (sys : System υ)

/-- **`TEEC_InvokeCommand` is balanced.** -/
theorem balanced_invoke :
    Balanced (teecInvokeCommand (answering f) session cmd operation) sys := by
  unfold Balanced
  cases session with
  | none => rfl
  | some session =>
    rw [teecInvokeCommand, wp_bind]
    generalize operation.map (fun op => { op with session := some session }) = operation
    refine wp_mono (preProcess_outcome session.ctx operation (invokeArg_zero session cmd) sys) ?_
    rintro pre u ⟨-, hheld, -⟩
    by_cases hres : pre.1 = teecSuccess
    · rw [if_neg (fun h => h hres), wp_bind, wp_send_answering]
      split
      · rw [wp_bind]
        exact wp_mono (freeTempRefs_outcome hheld) fun _ _ hu => hu
      · rw [wp_bind]
        refine wp_mono (postProcess_outcome operation _ ⟨_, pre.2.shm⟩ _ hheld) ?_
        rintro op v ⟨-, hheld'⟩
        rw [wp_bind]
        exact wp_mono (freeTempRefs_outcome hheld') fun _ _ hu => hu
    · rw [if_pos hres, wp_bind]
      exact wp_mono (freeTempRefs_outcome hheld) fun _ _ hu => hu

/-- an open keeps the blocks of its marshalling -/
theorem openSession_keeps (hc : ctx ≠ none) (hs : session ≠ none) :
    Balanced (teecOpenSession (answering f) ctx session destination connectionMethod operation)
      sys ↔ ¬ ∃ op, operation = some op ∧ Obtains op sys.heap := by
  have hnull : ¬ (ctx = none ∨ session = none) := not_or.mpr ⟨hc, hs⟩
  rw [Balanced, teecOpenSession, if_neg hnull, wp_bind]
  obtain ⟨pre, u, e, -, hheld, hob⟩ := wp_iff.mp (preProcess_outcome ctx operation
    (openArg_zero destination connectionMethod) sys)
  have hob := hob hc
  have hblocks : u.heap.blocks = sys.heap.blocks ↔ ¬ ∃ op, operation = some op ∧
      Obtains op sys.heap := by
    rw [← hob]
    refine hheld.blocks_eq_iff ?_
    rintro rfl m
    by_contra ha
    obtain ⟨op, h, -⟩ := hob.mp ⟨m, by simpa using ha⟩
    cases h
  rw [wp_of_eq e, ← hblocks]
  by_cases hres : pre.1 = teecSuccess
  · rw [if_neg (fun h => h hres), wp_bind, wp_send_answering]
    generalize f iocOpenSession pre.2.buf u.mem u.kernel = o
    split
    · exact Iff.rfl
    · obtain ⟨op, v, e', hv, -⟩ := wp_iff.mp (postProcess_outcome operation openArgWords
        ⟨o.1.2, pre.2.shm⟩ { u with mem := o.2.1, kernel := o.2.2 } hheld)
      rw [wp_bind, wp_of_eq e', wp_pure, hv]
  · rw [if_pos hres]
    exact Iff.rfl

/-- **When both calls are balanced**: the open returns at once, or none of its slots gets a block. -/
theorem balanced_iff (invoked : Option TeecSession) :
    (Balanced (teecInvokeCommand (answering f) invoked cmd operation) sys ∧
      Balanced (teecOpenSession (answering f) ctx session destination connectionMethod operation)
        sys) ↔
    ctx = none ∨ session = none ∨ ∀ op, operation = some op → ¬ Obtains op sys.heap := by
  have hinv := balanced_invoke f invoked cmd operation sys
  by_cases hnull : ctx = none ∨ session = none
  · have hopen : Balanced (teecOpenSession (answering f) ctx session destination connectionMethod
        operation) sys := by
      rw [Balanced, teecOpenSession, if_pos hnull]
      rfl
    refine ⟨fun _ => ?_, fun _ => ⟨hinv, hopen⟩⟩
    rcases hnull with h | h
    · exact Or.inl h
    · exact Or.inr (Or.inl h)
  · rw [not_or] at hnull
    rw [openSession_keeps f ctx session destination connectionMethod operation sys hnull.1 hnull.2]
    constructor
    · rintro ⟨-, h⟩
      exact Or.inr (Or.inr fun op he ho => h ⟨op, he, ho⟩)
    · intro h
      refine ⟨hinv, ?_⟩
      rintro ⟨op, rfl, ho⟩
      rcases h with h | h | h
      · exact hnull.1 h
      · exact hnull.2 h
      · exact h op rfl ho

end

/-- one input reference of one byte -/
def inputOp : TeecOperation where
  paramTypes := 0x5
  params := fun _ => ⟨0x100, 1, 0⟩
  session := none

/-- whatever the transport answers, the block of that reference is never released -/
theorem inputOp_kept (f : Nat → Words → Mem → Kernel.State (Shared Unit) →
    (Nat × Words) × Mem × Kernel.State (Shared Unit)) (destination : Uuid) :
    ¬ Balanced (teecOpenSession (answering f) (some teecInitializeContext) (some ⟨none, 0⟩)
      destination 0 (some inputOp)) bootSystem := by
  rw [openSession_keeps f _ _ destination 0 _ bootSystem (Option.some_ne_none _)
    (Option.some_ne_none _), not_not]
  refine ⟨inputOp, rfl, by decide, 0, by decide, by decide, ?_⟩
  intro i hi
  exact absurd hi (Nat.not_lt_zero i)

/-- the block leaks on an open that succeeds -/
theorem inputOp_leaks : ¬ Balanced (teecOpenSession
    (outcome 0 (fun _ => 0) bootSystem.mem bootSystem.kernel) (some teecInitializeContext)
    (some ⟨none, 0⟩) (Kernel.teeUuidFromOctets fun _ => 0) 0 (some inputOp)) bootSystem :=
  inputOp_kept _ _

end

end MTower.Client
