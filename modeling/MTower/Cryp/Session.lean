import MTower.Cryp.Balance
import MTower.Cryp.Ownership
import MTower.Kernel.Requests

/-!
# A session from its opening to its close

A user TA makes system calls when its session is opened, at its commands and when its session is
closed, and `tee_ta_close_session` sweeps what it leaves.  The kernel's blocks and those of the
calls are on two heaps.

* `Script`               what a TA calls;
* `session`              the session is opened, gets commands and is closed;
* `closed_opened`        closing undoes opening;
* `Balanced`             what was obtained for the session was given back;
* `session_balanced`     a session without an attribute block is balanced.
-/

set_option linter.unusedVariables false

namespace MTower.Cryp
open Lib Kernel

/-! ## sessions -/

/-- the states and objects of the TA, or the fault in which a call ended -/
abbrev World := Except Fault Utc

def perform (p : Provider) (l : List Call) (w : World) : World := do
  let u ← w
  let r ← run (call p) l u
  pure r.2

/-- the calls at the opening, at each command and at the close -/
structure Script where
  opens : List Call
  commands : Nat → List Call
  closes : List Call

def Script.head (p : Provider) (sc : Script) (uuid : Uuid) : TaHead World where
  uuid := uuid
  openSession := some fun w _ params userCtx => ⟨teeSuccess, params, userCtx, perform p sc.opens w⟩
  invokeCommand w _ cmd _ params := ⟨teeSuccess, params, perform p (sc.commands cmd) w⟩
  closeSession := some fun w _ => perform p sc.closes w

/-- the sweep of `user_ta_ctx_destroy` -/
def sweepWorld (p : Provider) (w : World) : World := do
  let u ← w
  let r ← userTaCtxDestroy p u
  pure r.2

def Script.tas (p : Provider) (sc : Script) (uuid : Uuid) : Tas World where
  pseudo := []
  user := [sc.head p uuid]
  ptJunk _ _ := 0
  paramJunk _ _ := .zero
  sweep _ := sweepWorld p

/-- a session that was opened gets the commands and is closed -/
def session (tas : Tas World) (uuid : Uuid) (param : TeeTaParam) (cmds : List (Nat × TeeTaParam)) :
    K World Unit := do
  let o ← teeTaOpenSession tas .teeOpenSessions uuid param
  if o.res ≠ teeSuccess then pure ()
  else do
    let _ ← run (fun c => teeTaInvokeCommand tas o.sess c.1 c.2) cmds
    let k ← get
    let _ ← teeTaCloseSession tas (k.heap.calls + 1) o.sess .teeOpenSessions
    pure ()

/-- the calls of a session, one after the other -/
def Script.calls (sc : Script) (cmds : List (Nat × TeeTaParam)) : List Call :=
  sc.opens ++ (cmds.flatMap fun c => sc.commands c.1) ++ sc.closes

/-- the blocks that were obtained since `k` were given back -/
def Balanced (k t : State World) : Prop :=
  (∀ a, t.heap.Live a ↔ k.heap.Live a) ∧ ∃ u, t.world = .ok u ∧ ∀ a, ¬ u.heap.Live a

section
variable {p : Provider} {sc : Script} {uuid : Uuid} {k t : State World} {w : World} {v : View}
  {s c : Nat} {l m : List Call} {cmds : List (Nat × TeeTaParam)}

theorem perform_append : perform p (l ++ m) w = perform p m (perform p l w) := by
  cases w with
  | error f => rfl
  | ok u =>
    induction l generalizing u with
    | nil => rfl
    | cons a l ih =>
      show (run (call p) (a :: (l ++ m)) u >>= fun r => pure r.2) =
        perform p m (run (call p) (a :: l) u >>= fun r => pure r.2)
      rw [run, run]
      cases h : call p a u with
      | error f =>
        rw [bind_of_error h, bind_of_error h]
        rfl
      | ok r =>
        rw [bind_of_ok h, bind_of_ok h]
        exact ih r.2

theorem perform_of_run {u x : Utc} (h : run (call p) l u = .ok (⟨⟩, x)) :
    perform p l (.ok u) = .ok x := by
  show (run (call p) l u >>= fun r => pure r.2) = _
  rw [h]
  rfl

theorem sweep_of_run {u x : Utc} (h : userTaCtxDestroy p u = .ok ((), x)) :
    sweepWorld p (.ok u) = .ok x := by
  show (userTaCtxDestroy p u >>= fun r => pure r.2) = _
  rw [h]
  rfl

/-! ## the table of sessions -/

theorem closed_opened (hs : v.shape s = none) (hc : v.shape c = none) (sh : Shape) :
    (v.opened s c sh).closed s c = v := by
  have hshape : Function.update (Function.update (Function.update (Function.update v.shape s
      (some (.session c))) c (some sh)) s none) c none = v.shape := by
    funext a
    by_cases hac : a = c
    · rw [hac, Function.update_self, hc]
    by_cases has : a = s
    · rw [has] at hac ⊢
      rw [Function.update_of_ne hac, Function.update_self, hs]
    · rw [Function.update_of_ne hac, Function.update_of_ne has, Function.update_of_ne hac,
        Function.update_of_ne has]
  simp only [View.closed, View.opened, List.erase_cons_head, hshape]

theorem live_of_view (h : t.view = k.view) (a : Nat) : t.heap.Live a ↔ k.heap.Live a := by
  have hshape : (t.heap.blocks a).map Kernel.Block.shape =
      (k.heap.blocks a).map Kernel.Block.shape := congrFun (congrArg View.shape h) a
  apply not_congr
  rw [← Option.map_eq_none_iff, hshape, Option.map_eq_none_iff]

/-- the session `s` of the script is open, and its calls have led to `w` -/
structure Serving (p : Provider) (sc : Script) (uuid : Uuid) (s : Nat) (v : View) (w : World)
    (t : State World) : Prop where
  view : t.view = v
  world : t.world = w
  block : ∃ b, t.heap.blocks s = some (.session b) ∧
    t.heap.blocks b.ctx = some (.userCtx (sc.head p uuid) [])

theorem invoke_serving {cmd : Nat} {param : TeeTaParam} (h : Serving p sc uuid s v w t) :
    wp (teeTaInvokeCommand (sc.tas p uuid) s cmd param)
      (fun _ r => Serving p sc uuid s v (perform p (sc.commands cmd) w) r) t := by
  obtain ⟨hview, hworld, b, hb, hc⟩ := h
  rw [teeTaInvokeCommand, wp_bind, wp_sessionAt hb, wp_enterInvokeCmd_user _ _ _ hb hc]
  refine ⟨hview, ?_, b, hb, hc⟩
  rw [← hworld]
  rfl

/-- the commands of a session -/
theorem commands_serving (h : Serving p sc uuid s v w t) :
    wp (run (fun c => teeTaInvokeCommand (sc.tas p uuid) s c.1 c.2) cmds)
      (fun _ r => Serving p sc uuid s v
        (perform p (cmds.flatMap fun c => sc.commands c.1) w) r) t := by
  induction cmds generalizing w t with
  | nil =>
    have hnil : perform p [] w = w := by
      cases w <;> rfl
    show Serving p sc uuid s v (perform p [] w) t
    rw [hnil]
    exact h
  | cons c cmds ih =>
    rw [run, wp_bind]
    refine wp_mono (invoke_serving h) fun _ r hr => ?_
    refine wp_mono (ih hr) fun _ r' hr' => ?_
    rw [List.flatMap_cons, perform_append]
    exact hr'

theorem open_serving (hk : Table k.view) (h : Openable (sc.tas p uuid) k uuid)
    (param : TeeTaParam) :
    wp (teeTaOpenSession (sc.tas p uuid) .teeOpenSessions uuid param) (fun o r =>
      o.res = teeSuccess ∧ Serving p sc uuid o.sess (k.view.opened o.sess k.ctxAddr (.user []))
        (perform p sc.opens k.world) r ∧ o.sess = k.sessAddr) k := by
  have hfind : findTa (sc.tas p uuid) uuid = some (.userCtx (sc.head p uuid) []) := by
    simp [findTa, Script.tas, Script.head]
  obtain ⟨-, -, -, -, hne⟩ := h.fresh
  have hs : (k.withNew (.userCtx (sc.head p uuid) [])).heap.blocks k.sessAddr =
      some (.session ⟨k.ctxAddr, 0⟩) := by
    show Function.update (Function.update k.heap.blocks _ _) _ _ _ = _
    rw [Function.update_of_ne hne.symm, Function.update_self]
  have hc : (k.withNew (.userCtx (sc.head p uuid) [])).heap.blocks k.ctxAddr =
      some (.userCtx (sc.head p uuid) []) := Function.update_self _ _ _
  rw [teeTaOpenSession, wp_bind]
  refine wp_mono (initSession_opened h hfind) ?_
  rintro r t ⟨rfl, rfl⟩
  rw [if_neg (by simp), wp_bind, wp_sessionAt hs, wp_bind, wp_enterOpenSession_user _ _ _ hs hc]
  refine ⟨rfl, ⟨?_, rfl, ⟨k.ctxAddr, 0⟩, ?_, ?_⟩, rfl⟩
  · have heffect : ∀ u calls world, EnterEffect .openSession k.sessAddr ⟨k.ctxAddr, 0⟩
        (k.withNew (.userCtx (sc.head p uuid) []))
        ({ (k.withNew (.userCtx (sc.head p uuid) [])).entry .openSession k.sessAddr k.ctxAddr
          world with calls := calls }.store k.sessAddr (.session ⟨k.ctxAddr, u⟩)) :=
      fun u calls world => ⟨⟨u, rfl⟩, rfl, rfl, rfl, rfl⟩
    exact ((heffect _ _ _).view_eq hs).trans (State.withNew_view k _)
  · exact Function.update_self _ _ _
  · show Function.update _ k.sessAddr _ k.ctxAddr = _
    rw [Function.update_of_ne hne]
    exact hc

theorem close_serving (hk : Table t.view) (h : Serving p sc uuid s v w t) (hs : s ∈ v.openSessions)
    (hctx : v.shape s = some (.session c)) (fuel : Nat) :
    wp (teeTaCloseSession (sc.tas p uuid) (fuel + 1) s .teeOpenSessions)
      (fun _ r => r.view = v.closed s c ∧ r.world = sweepWorld p (perform p sc.closes w)) t := by
  obtain ⟨rfl, hworld, b, hb, hc⟩ := h
  have hbc : b.ctx = c := by
    rw [shape_of_blocks hb] at hctx
    exact Shape.session.inj (Option.some.inj hctx)
  refine wp_mono (wp_and (closeSession_known _ hk hs hb fuel)
    (wlp_of_wp (closeSession_user _ hk hs hb hc fuel))) ?_
  rintro _ r ⟨⟨-, hview⟩, hsweep⟩
  rw [hview, hbc, hsweep, ← hworld]
  exact ⟨rfl, rfl⟩

/-- **A session is balanced** if none of its calls gets an attribute block, whatever allocations
fail. -/
theorem session_balanced (p : Provider) (sc : Script) (uuid : Uuid) (param : TeeTaParam)
    (cmds : List (Nat × TeeTaParam)) (answers : Nat → Nat) (k : State World) (hk : Table k.view)
    (hw : k.world = .ok (Utc.empty answers))
    (hg : Guarded (call p) Spares (sc.calls cmds) (Utc.empty answers)) :
    wp (session (sc.tas p uuid) uuid param cmds) (fun _ t => Balanced k t) k := by
  rw [session, wp_bind]
  by_cases hopen : Openable (sc.tas p uuid) k uuid
  · refine wp_mono (open_serving hk hopen param) ?_
    rintro o t ⟨hres, hserve, hsess⟩
    obtain ⟨hs0, hsfresh, hc0, hcfresh, hne⟩ := hopen.fresh
    rw [← hsess] at hs0 hsfresh hne
    have hshape : ∀ a, k.heap.blocks a = none → k.view.shape a = none := by
      intro a ha
      show (k.heap.blocks a).map _ = none
      rw [ha]
      rfl
    have htable : Table (k.view.opened o.sess k.ctxAddr (.user [])) :=
      hk.opened hs0 hc0 (hshape _ hsfresh) (hshape _ hcfresh) hne (.inl rfl)
    rw [if_neg (not_not.mpr hres), wp_bind]
    refine wp_mono (commands_serving hserve) fun _ r hr => ?_
    have hctx : (k.view.opened o.sess k.ctxAddr (.user [])).shape o.sess =
        some (.session k.ctxAddr) := by
      show Function.update (Function.update _ _ _) _ _ _ = _
      rw [Function.update_of_ne hne.symm, Function.update_self]
    rw [wp_bind, wp_get, wp_bind]
    refine wp_mono (close_serving (hr.view ▸ htable) hr List.mem_cons_self hctx _) ?_
    rintro _ x ⟨hview, hworld⟩
    rw [closed_opened (hshape _ hsfresh) (hshape _ hcfresh)] at hview
    refine ⟨live_of_view hview, ?_⟩
    -- the calls of the session are one run
    have hcalls : perform p sc.closes (perform p (cmds.flatMap fun c => sc.commands c.1)
        (perform p sc.opens k.world)) = perform p (sc.calls cmds) (.ok (Utc.empty answers)) := by
      rw [Script.calls, perform_append, perform_append, hw]
    obtain ⟨_, u, hrun, hu⟩ := wp_iff.mp (bare_run (Bare.empty answers) hg)
    obtain ⟨_, z, hsweep, hz⟩ := wp_iff.mp (userTaCtxDestroy_bare hu)
    refine ⟨z, ?_, fun a ha => ha (hz a)⟩
    rw [hworld, hcalls, perform_of_run hrun]
    exact sweep_of_run hsweep
  · refine wp_mono (openSession_refused (l := k.openSessions) .teeOpenSessions rfl hopen param) ?_
    rintro o t ⟨hres, ht⟩
    rw [if_pos hres, wp_pure]
    rw [SameButCalls] at ht
    rw [ht]
    refine ⟨fun a => Iff.rfl, Utc.empty answers, hw, fun a ha => ha rfl⟩

/-- an object of no known type, and a digest that is not freed -/
def thriftyScript : Script :=
  ⟨[.objAlloc 0 0], fun _ => [.stateAlloc 0x50000004 5 0 0], [.objReset 0x1000]⟩

def sampleParam : TeeTaParam := ⟨0, fun _ => .zero⟩

def sampleUuid : Uuid := teeUuidFromOctets fun _ => 0

def sampleKernel : State World := State.boot sampleAnswers (.ok (Utc.empty sampleAnswers))

theorem thrifty_balanced : Guarded (call sampleProvider) Spares
    (thriftyScript.calls [(0, sampleParam)]) (Utc.empty sampleAnswers) ∧
    wp (session (thriftyScript.tas sampleProvider sampleUuid) sampleUuid sampleParam
      [(0, sampleParam)]) (fun _ t => Balanced sampleKernel t) sampleKernel := by
  have hunknown : ∀ u, Spares (.objAlloc 0 0) u := by
    refine fun u => ⟨nofun, ?_⟩
    rintro ⟨ty, n, tp, hcall, hfind, -⟩
    cases hcall
    have hnone : teeSvcFindTypeProps 0 = none := by decide
    rw [hnone] at hfind
    cases hfind
  have hstate : ∀ u, Spares (.stateAlloc 0x50000004 5 0 0) u := fun u => ⟨nofun, nofun⟩
  have hreset : ∀ u, Spares (.objReset 0x1000) u := fun u => ⟨nofun, nofun⟩
  have hguard : Guarded (call sampleProvider) Spares (thriftyScript.calls [(0, sampleParam)])
      (Utc.empty sampleAnswers) :=
    ⟨hunknown _, fun _ _ _ => ⟨hstate _, fun _ _ _ => ⟨hreset _, fun _ _ _ => trivial⟩⟩⟩
  exact ⟨hguard, session_balanced sampleProvider thriftyScript sampleUuid sampleParam
    [(0, sampleParam)] sampleAnswers sampleKernel Table.empty rfl hguard⟩

/-- one key object -/
def leakyScript : Script := ⟨[.objAlloc teeTypeAes 128], fun _ => [], []⟩

/-- the second block of the session's calls -/
def leftBehind (t : State World) : Option Block :=
  match t.world with
  | .ok u => u.heap.blocks 0x1001
  | .error _ => none

/-- the attribute block of an object is not released -/
theorem session_leaks : ¬ wp (session (leakyScript.tas sampleProvider sampleUuid) sampleUuid
    sampleParam []) (fun _ t => Balanced sampleKernel t) sampleKernel := by
  intro h
  have hleft : wp (session (leakyScript.tas sampleProvider sampleUuid) sampleUuid sampleParam [])
      (fun _ t => leftBehind t ≠ none) sampleKernel := by decide +kernel
  obtain ⟨_, t, ⟨-, u, hu, hnone⟩, hblock⟩ := wp_wlp h (wlp_of_wp hleft)
  rw [leftBehind, hu] at hblock
  exact hnone 0x1001 hblock

end

end MTower.Cryp
