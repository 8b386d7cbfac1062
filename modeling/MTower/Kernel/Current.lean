import MTower.Kernel.Requests

/-!
# The current session

`tee_ta_push_current_session` overwrites one global and `tee_ta_pop_current_session` does not put
the old value back, so an entry function leaves the session it entered behind as current, and a
close leaves a freed one.  A run keeps the discipline only while no TA is entered, except for
invokes of the session that is current already.

* `Disciplined`      every entry has put `current_session` back, and it is no freed session;
* `Settled`          the condition on an action and the state it is taken from;
* `settled_step`     a settled action keeps the discipline;
* `unsettled_step`   any other action breaks it;
* `disciplined_iff`  a run keeps the discipline at every point exactly when its actions are settled.

Besides the requests of the normal world an action may be `tee_ta_open_session` on the list of a
user context, which is how a TA comes to own sessions that its destruction closes.
-/

set_option linter.unusedVariables false

namespace MTower.Kernel
open Lib

section
variable {τ : Type} {k t : State τ}

structure Disciplined (k : State τ) : Prop where
  restored : ∀ e ∈ k.entered, e.after = e.before
  live : k.currentSession ≠ 0 → ∃ b, k.heap.blocks k.currentSession = some (.session b)

inductive Action where
  | request (r : Request)
  | taOpen (ctx : Nat) (uuid : Uuid) (param : TeeTaParam)

def act (tas : Tas τ) : Action → K τ Unit
  | .request r => do
    let _ ← serve tas r
    pure ()
  | .taOpen ctx uuid param => do
    let _ ← sessionsOf (.ofCtx ctx)
    let _ ← teeTaOpenSession tas (.ofCtx ctx) uuid param
    pure ()

/-- No TA is entered, or the session entered is current already. -/
def Settled (tas : Tas τ) (a : Action) (k : State τ) : Prop :=
  match a with
  | .request r =>
    (r.cmd = iocOpenSession → ¬ Openable tas k (teeUuidFromOctets (octetAt r.words))) ∧
    (r.cmd = iocInvoke → MsgDecodes r.words →
      r.words msgSessionWord ∈ k.openSessions ∧ r.words msgSessionWord = k.currentSession) ∧
    (r.cmd = iocCloseSession → r.words 0 ∉ k.openSessions)
  | .taOpen ctx uuid _ => (k.sessions (.ofCtx ctx)).isSome = true ∧ ¬ Openable tas k uuid

/-! ## settled actions -/

theorem SameButCalls.linked (h : SameButCalls k t) (hk : Linked k) : Linked t := by
  rw [h]
  exact ⟨hk.sessions, hk.zero⟩

theorem SameButCalls.disciplined (h : SameButCalls k t) (hk : Disciplined k) : Disciplined t := by
  rw [h]
  exact ⟨hk.restored, hk.live⟩

section
variable {kind : EntryKind} {s : Nat} {b : Session}

/-- an entry changes no block but the `user_ctx` of its session -/
theorem EnterEffect.blocks (h : EnterEffect kind s b k t) {a : Nat} (ha : a ≠ s) :
    t.heap.blocks a = k.heap.blocks a := by
  obtain ⟨u, hu⟩ := h.heap
  rw [hu]
  exact Function.update_of_ne ha _ _

theorem EnterEffect.block_self (h : EnterEffect kind s b k t) :
    ∃ u, t.heap.blocks s = some (.session { b with userCtx := u }) := by
  obtain ⟨u, hu⟩ := h.heap
  refine ⟨u, ?_⟩
  rw [hu]
  exact Function.update_self _ _ _

theorem EnterEffect.linked (h : EnterEffect kind s b k t) (hk : Linked k)
    (hs : k.heap.blocks s = some (.session b)) : Linked t := by
  obtain ⟨u, hu⟩ := h.block_self
  have hs0 : (0 : Nat) ≠ s := by
    intro e
    rw [← e, hk.zero] at hs
    cases hs
  refine ⟨?_, by rw [h.blocks hs0]; exact hk.zero⟩
  intro x hx
  rw [h.openSessions] at hx
  obtain ⟨b', c, hb', hc, hi⟩ := hk.sessions x hx
  have hcs : b'.ctx ≠ s := by
    intro e
    rw [e, hs] at hc
    cases hc
    exact hi
  by_cases hxs : x = s
  · subst hxs
    rw [hs] at hb'
    cases hb'
    exact ⟨_, c, hu, by rw [h.blocks hcs]; exact hc, hi⟩
  · exact ⟨b', c, by rw [h.blocks hxs]; exact hb', by rw [h.blocks hcs]; exact hc, hi⟩

theorem EnterEffect.disciplined (h : EnterEffect kind s b k t) (hk : Disciplined k)
    (hcur : s = k.currentSession) : Disciplined t := by
  obtain ⟨u, hu⟩ := h.block_self
  refine ⟨?_, ?_⟩
  · intro e he
    rw [h.entered] at he
    rcases List.mem_cons.mp he with rfl | he
    · exact hcur
    · exact hk.restored e he
  · intro _
    rw [h.currentSession]
    exact ⟨_, hu⟩

/-- entering a session that is not current breaks the discipline -/
theorem EnterEffect.broken (h : EnterEffect kind s b k t) (hcur : s ≠ k.currentSession) :
    ¬ Disciplined t := by
  intro hd
  refine hcur (hd.restored ⟨kind, s, b.ctx, k.currentSession, s⟩ ?_)
  rw [h.entered]
  exact List.mem_cons_self

end

theorem settled_request {tas : Tas τ} (hk : Linked k) (hd : Disciplined k) (r : Request)
    (hs : Settled tas (.request r) k) :
    wp (serve tas r) (fun _ t => Linked t ∧ Disciplined t) k := by
  obtain ⟨hopen, hinv, hclose⟩ := hs
  unfold serve ioctl
  by_cases ho : r.cmd = iocOpenSession
  · rw [if_pos ho, teeIoctlOpenSession, wp_bind]
    refine wp_mono (openSession_refused .teeOpenSessions rfl (hopen ho) _) ?_
    rintro o t ⟨-, hsame⟩
    exact ⟨hsame.linked hk, hsame.disciplined hd⟩
  rw [if_neg ho]
  by_cases hi : r.cmd = iocInvoke
  · rw [if_pos hi]
    by_cases hdec : MsgDecodes r.words
    · obtain ⟨hid, hcur⟩ := hinv hi hdec
      obtain ⟨b, c, hb, -⟩ := hk.sessions _ hid
      refine wp_mono (invoke_live tas hk hdec hid hb) ?_
      intro _ t he
      exact ⟨he.linked hk hb, he.disciplined hd hcur⟩
    · rw [invoke_rejected tas hk hdec]
      exact ⟨hk, hd⟩
  rw [if_neg hi]
  by_cases hc : r.cmd = iocCloseSession
  · rw [if_pos hc, teeIoctlCloseSession, wp_bind, wp_get, wp_bind,
      closeSession_unknown tas hk (hclose hc), wp_pure]
    exact ⟨hk, hd⟩
  · rw [if_neg hc, wp_pure]
    exact ⟨hk, hd⟩

/-- **A settled action keeps the discipline.** -/
theorem settled_step (tas : Tas τ) (a : Action) (k : State τ) (h : Linked k ∧ Disciplined k)
    (hs : Settled tas a k) : wp (act tas a) (fun _ t => Linked t ∧ Disciplined t) k := by
  obtain ⟨hk, hd⟩ := h
  cases a with
  | request r =>
    rw [act, wp_bind]
    exact wp_mono (settled_request hk hd r hs) fun _ t ht => ht
  | taOpen ctx uuid param =>
    obtain ⟨hl, hno⟩ := hs
    obtain ⟨l, hl⟩ := Option.isSome_iff_exists.mp hl
    rw [act, wp_bind, wp_sessionsOf hl, wp_bind]
    refine wp_mono (openSession_refused (.ofCtx ctx) hl hno param) ?_
    rintro o t ⟨-, hsame⟩
    exact ⟨hsame.linked hk, hsame.disciplined hd⟩

/-! ## an open that enters a TA -/

theorem Disciplined.ne_fresh (hd : Disciplined k) {a : Nat} (h0 : a ≠ 0)
    (ha : k.heap.blocks a = none) : a ≠ k.currentSession := by
  intro e
  rw [e] at h0 ha
  obtain ⟨b, hb⟩ := hd.live h0
  rw [ha] at hb
  cases hb

/-- what the new session and its context look like when the TA is entered -/
theorem initSession_entered {tas : Tas τ} {head : SessionHead} {uuid : Uuid} {l : List Nat}
    {c : Block τ} (hl : k.sessions head = some l) (h : Openable tas k uuid)
    (hc : findTa tas uuid = some c) :
    wp (teeTaInitSession tas head uuid) (fun r t => r = (teeSuccess, k.sessAddr) ∧
      t.heap.blocks k.sessAddr = some (.session ⟨k.ctxAddr, 0⟩) ∧
      t.heap.blocks k.ctxAddr = some c ∧ t.currentSession = k.currentSession) k := by
  obtain ⟨hf, -, hf'⟩ := id h
  obtain ⟨hs0, hsn, -, -, hne⟩ := h.fresh
  have hl' := State.sessions_withSession hf hl
  rw [wp_teeTaInitSession hf hl']
  obtain ⟨hans, hcalls, hcur, hblk⟩ := State.setSessions_frame (k.sessAddr :: l) hl'
  have hs := hblk k.sessAddr ⟨0, 0⟩ (by
    rw [State.withSession, alloc_session hf]
    exact Function.update_self _ _ _)
  have hnf : ¬ (k.withSession.setSessions (k.sessAddr :: l) head).heap.Full := by
    rw [State.setSessions_full hl']
    exact hf'
  have haddr : (k.withSession.setSessions (k.sessAddr :: l) head).heap.answers
      (k.withSession.setSessions (k.sessAddr :: l) head).heap.calls = k.ctxAddr := by
    rw [hans, hcalls, State.withSession, alloc_session hf]
    rfl
  rw [wp_initCtx hc hnf hs]
  simp only [finishInit, if_true, wp_pure, true_and]
  unfold State.linkCtx
  rw [Heap.alloc_not_full _ hnf, haddr]
  refine ⟨Function.update_self _ _ _, ?_, hcur⟩
  show Function.update (Function.update _ k.ctxAddr _) k.sessAddr _ k.ctxAddr = _
  rw [Function.update_of_ne hne, Function.update_self]

theorem openSession_broken {tas : Tas τ} (head : SessionHead) {uuid : Uuid} {l : List Nat}
    (hl : k.sessions head = some l) (hd : Disciplined k) (h : Openable tas k uuid)
    (param : TeeTaParam) :
    wp (teeTaOpenSession tas head uuid param) (fun _ t => ¬ Disciplined t) k := by
  obtain ⟨c, hc⟩ := Option.isSome_iff_exists.mp h.2.1
  obtain ⟨hs0, hsn, -, -, -⟩ := h.fresh
  rw [teeTaOpenSession, wp_bind]
  refine wp_mono (initSession_entered hl h hc) ?_
  rintro r t ⟨rfl, hs, hb, hcur⟩
  simp only [ne_eq, not_true_eq_false, if_false, wp_bind, wp_sessionAt hs]
  refine wp_mono (enterOpenSession_effect tas param teeOriginTee hs hb (findTa_isCtx hc)) ?_
  rintro r u ⟨-, he⟩
  rw [wp_pure]
  exact he.broken (by rw [hcur]; exact hd.ne_fresh hs0 hsn)

/-! ## a close that enters a TA -/

theorem broken_iff : ¬ Disciplined k ↔ (∃ e ∈ k.entered, e.after ≠ e.before) ∨
    (k.currentSession ≠ 0 ∧ ∀ b, k.heap.blocks k.currentSession ≠ some (.session b)) := by
  constructor
  · intro h
    by_contra hn
    push Not at hn
    refine h ⟨hn.1, fun h0 => ?_⟩
    obtain ⟨b, hb⟩ := hn.2 h0
    exact ⟨b, hb⟩
  · rintro (⟨e, he, hne⟩ | ⟨h0, hb⟩) hd
    · exact hne (hd.restored e he)
    · obtain ⟨b, e⟩ := hd.live h0
      exact hb b e

theorem broken_erase (h : ¬ Disciplined k) (a : Nat) : ¬ Disciplined (k.erase a) := by
  rw [broken_iff] at h ⊢
  refine h.imp id fun hb => ⟨hb.1, fun b e => ?_⟩
  have e' : Function.update k.heap.blocks a none k.currentSession = some (.session b) := e
  by_cases ha : k.currentSession = a
  · rw [ha, Function.update_self] at e'
    cases e'
  · rw [Function.update_of_ne ha] at e'
    exact hb.2 b e'

theorem wlp_sessionAt (a : Nat) :
    wlp (sessionAt a) (fun b t => t = k ∧ k.heap.blocks a = some (.session b)) k := by
  rw [sessionAt, wlp_bind, wlp_get]
  split
  · rename_i b hb
    exact ⟨rfl, hb⟩
  · exact wlp_throw

theorem wlp_userCtxAt (a : Nat) : wlp (userCtxAt a) (fun _ t => t = k) k := by
  rw [userCtxAt, wlp_bind, wlp_get]
  split
  · rfl
  · exact wlp_throw

theorem wlp_pseudoCtxAt (a : Nat) : wlp (pseudoCtxAt a) (fun _ t => t = k) k := by
  rw [pseudoCtxAt, wlp_bind, wlp_get]
  split
  · rfl
  · exact wlp_throw

theorem wlp_isUserCtx (a : Nat) :
    wlp (isUserCtx a) (fun _ t => t = k ∧ ∃ c, k.heap.blocks a = some c ∧ IsCtx c) k := by
  rw [isUserCtx, wlp_bind, wlp_get]
  split
  · rename_i hb
    exact ⟨rfl, _, hb, trivial⟩
  · rename_i hb
    exact ⟨rfl, _, hb, trivial⟩
  · exact wlp_throw

theorem wlp_sessionsOf (head : SessionHead) :
    wlp (sessionsOf head) (fun l t => t = k ∧ k.sessions head = some l) k := by
  cases hl : k.sessions head with
  | some l => exact wlp_of_wp ((wp_sessionsOf hl).mpr ⟨rfl, rfl⟩)
  | none =>
    cases head with
    | teeOpenSessions => cases hl
    | ofCtx c =>
      simp only [State.sessions] at hl
      rw [sessionsOf, wlp_bind, userCtxAt, wlp_bind, wlp_get]
      split
      · rename_i ta l hb
        rw [hb] at hl
        cases hl
      · exact wlp_throw

theorem wlp_findSession (id : Nat) (l : List Nat) :
    wlp (findSession id l) (fun _ t => t = k) k := by
  induction l with
  | nil => rfl
  | cons s l ih =>
    rw [findSession]
    split
    · rfl
    · rw [wlp_bind]
      refine wlp_mono (wlp_sessionAt s) ?_
      rintro b t ⟨rfl, -⟩
      exact ih

theorem wlp_teeTaGetSession (id : Nat) (head : SessionHead) :
    wlp (teeTaGetSession id head) (fun _ t => t = k) k := by
  rw [teeTaGetSession, wlp_bind]
  refine wlp_mono (wlp_sessionsOf head) ?_
  rintro l t ⟨rfl, -⟩
  exact wlp_findSession id l

theorem wlp_unlinked (l : List Nat) (a : Nat) : wlp (unlinked l a) (fun _ t => t = k) k := by
  unfold unlinked
  split
  · rfl
  · exact wlp_throw

theorem wlp_unlinkSession (s : Nat) (head : SessionHead) :
    wlp (teeTaUnlinkSession s head) (fun _ t => t.currentSession = k.currentSession) k := by
  rw [teeTaUnlinkSession, wlp_bind]
  refine wlp_mono (wlp_sessionsOf head) ?_
  rintro l t ⟨rfl, hl⟩
  rw [wlp_bind]
  refine wlp_mono (wlp_unlinked l s) ?_
  rintro l' u rfl
  refine wlp_of_wp ((wp_setSessionsOf hl).mpr ?_)
  exact (State.setSessions_frame l' hl).2.2.1

theorem wlp_teeFree (a : Nat) :
    wlp (teeFree a) (fun _ t => t = k.erase a ∨ a = 0 ∧ t = k) k := by
  rw [teeFree, wlp_bind, wlp_get]
  split
  · rename_i h0
    exact Or.inr ⟨h0, rfl⟩
  · split
    · exact Or.inl rfl
    · exact wlp_throw

/-- entering a close leaves its session current -/
theorem wlp_enterCloseSession {s : Nat} {b : Session} (hs : k.heap.blocks s = some (.session b)) :
    wlp (enterCloseSession b.ctx s) (fun _ t => t.currentSession = s) k := by
  by_cases hc : ∃ c, k.heap.blocks b.ctx = some c ∧ IsCtx c
  · obtain ⟨c, hc, hi⟩ := hc
    exact wlp_mono (wlp_of_wp (enterCloseSession_effect hs hc hi)) fun _ t he => he.currentSession
  · rw [enterCloseSession, wlp_bind]
    refine wlp_mono (wlp_isUserCtx b.ctx) ?_
    rintro x t ⟨rfl, h⟩
    exact absurd h hc

section
variable {close : Nat → SessionHead → K τ Nat}

theorem closeOpened_broken (hclose : ∀ s head (u : State τ), ¬ Disciplined u →
      wlp (close s head) (fun _ v => ¬ Disciplined v) u) (ctx n : Nat) (h : ¬ Disciplined k) :
    wlp (closeOpened close ctx n) (fun _ t => ¬ Disciplined t) k := by
  induction n generalizing k with
  | zero =>
    rw [closeOpened, wlp_bind]
    refine wlp_mono (wlp_userCtxAt ctx) ?_
    rintro x t rfl
    split
    · exact h
    · exact wlp_throw
  | succ n ih =>
    rw [closeOpened, wlp_bind]
    refine wlp_mono (wlp_userCtxAt ctx) ?_
    rintro x t rfl
    split
    · exact h
    · rw [wlp_bind]
      exact wlp_mono (hclose _ _ _ h) fun _ u hu => ih hu

theorem teeFree_broken (a : Nat) (h : ¬ Disciplined k) :
    wlp (teeFree a) (fun _ t => ¬ Disciplined t) k := by
  refine wlp_mono (wlp_teeFree a) ?_
  rintro _ t (rfl | ⟨-, rfl⟩)
  · exact broken_erase h a
  · exact h

theorem destroyCtx_broken (tas : Tas τ) (hclose : ∀ s head (u : State τ), ¬ Disciplined u →
      wlp (close s head) (fun _ v => ¬ Disciplined v) u) (ctx : Nat) (h : ¬ Disciplined k) :
    wlp (destroyCtx tas close ctx) (fun _ t => ¬ Disciplined t) k := by
  rw [destroyCtx, wlp_bind]
  refine wlp_mono (wlp_isUserCtx ctx) ?_
  rintro x t ⟨rfl, -⟩
  split
  · rw [userTaCtxDestroy, wlp_bind]
    refine wlp_mono (wlp_userCtxAt ctx) ?_
    rintro utc t rfl
    rw [wlp_bind]
    refine wlp_mono (closeOpened_broken hclose ctx _ h) ?_
    intro _ u hu
    rw [wlp_bind, wlp_modify]
    refine teeFree_broken ctx ?_
    intro hd
    exact hu ⟨hd.restored, hd.live⟩
  · rw [pseudoTaDestroy, wlp_bind]
    refine wlp_mono (wlp_pseudoCtxAt ctx) ?_
    rintro _ t rfl
    exact teeFree_broken ctx h

end

/-- `tee_ta_close_session` from the lookup on -/
def closeFound (tas : Tas τ) (fuel sess : Nat) (head : SessionHead) : K τ Nat := do
  let b ← sessionAt sess
  enterCloseSession b.ctx sess
  teeTaUnlinkSession sess head
  teeFree sess
  removeCtx b.ctx
  destroyCtx tas (teeTaCloseSession tas fuel) b.ctx
  pure teeSuccess

theorem closeFound_broken (tas : Tas τ) (fuel : Nat) {sess : Nat} (h0 : sess ≠ 0)
    (head : SessionHead) (ih : ∀ s head (u : State τ), ¬ Disciplined u →
      wlp (teeTaCloseSession tas fuel s head) (fun _ v => ¬ Disciplined v) u) :
    wlp (closeFound tas fuel sess head) (fun _ t => ¬ Disciplined t) k := by
  rw [closeFound, wlp_bind]
  refine wlp_mono (wlp_sessionAt sess) ?_
  rintro b t ⟨rfl, hb⟩
  rw [wlp_bind]
  refine wlp_mono (wlp_enterCloseSession hb) ?_
  intro _ t1 h1
  rw [wlp_bind]
  refine wlp_mono (wlp_unlinkSession sess head) ?_
  intro _ t2 h2
  rw [wlp_bind]
  refine wlp_mono (wlp_teeFree sess) ?_
  intro _ t3 h3
  have hbroken : ¬ Disciplined t3 := by
    rcases h3 with rfl | ⟨hz, -⟩
    · rw [broken_iff]
      refine Or.inr ⟨?_, fun b' e => ?_⟩
      · show t2.currentSession ≠ 0
        rw [h2, h1]
        exact h0
      · have e' : Function.update t2.heap.blocks sess none t2.currentSession
            = some (.session b') := e
        rw [h2, h1, Function.update_self] at e'
        cases e'
    · exact absurd hz h0
  rw [wlp_bind, removeCtx, wlp_bind, wlp_get, wlp_bind]
  refine wlp_mono (wlp_unlinked _ _) ?_
  rintro l t4 rfl
  rw [wlp_modify, wlp_bind]
  refine wlp_mono (destroyCtx_broken tas ih b.ctx ?_) fun _ t ht => ht
  intro hd
  exact hbroken ⟨hd.restored, hd.live⟩

/-- a broken discipline is not repaired by a close -/
theorem close_broken (tas : Tas τ) (fuel : Nat) : ∀ csess head (k : State τ), ¬ Disciplined k →
    wlp (teeTaCloseSession tas fuel csess head) (fun _ t => ¬ Disciplined t) k := by
  induction fuel with
  | zero =>
    intro csess head k h
    exact wlp_throw
  | succ fuel ih =>
    intro csess head k h
    unfold teeTaCloseSession
    split
    · exact h
    · rw [wlp_bind]
      refine wlp_mono (wlp_teeTaGetSession csess head) ?_
      rintro sess t rfl
      split
      · exact h
      · rename_i h0
        exact closeFound_broken tas fuel h0 head ih

/-! ## unsettled actions -/

/-- **Any other action breaks the discipline.** -/
theorem unsettled_step (tas : Tas τ) (a : Action) (k : State τ) (h : Linked k ∧ Disciplined k)
    (hw : wp (act tas a) (fun _ t => Disciplined t) k) : Settled tas a k := by
  obtain ⟨hk, hd⟩ := h
  cases a with
  | request r =>
    rw [act, wp_bind] at hw
    have hw : wp (serve tas r) (fun _ t => Disciplined t) k := hw
    unfold serve ioctl at hw
    refine ⟨fun ho => ?_, fun hi hdec => ?_, fun hc hid => ?_⟩
    · intro hop
      rw [if_pos ho, teeIoctlOpenSession, wp_bind] at hw
      obtain ⟨o, t, h1, h2⟩ := wp_wlp hw
        (wlp_of_wp (openSession_broken .teeOpenSessions rfl hd hop _))
      exact h2 h1
    · rw [if_neg (by rw [hi]; decide), if_pos hi] at hw
      by_cases hid : r.words msgSessionWord ∈ k.openSessions
      · obtain ⟨b, c, hb, -⟩ := hk.sessions _ hid
        obtain ⟨o, t, h1, h2⟩ := wp_wlp hw (wlp_of_wp (invoke_live tas hk hdec hid hb))
        refine ⟨hid, ?_⟩
        by_contra hcur
        exact h2.broken hcur h1
      · obtain ⟨-, -, -, hf⟩ := wp_wlp hw
          (invoke_dead tas hk (Q := fun _ _ => False) hdec hid)
        exact absurd hf id
    · rw [if_neg (by rw [hc]; decide), if_neg (by rw [hc]; decide), if_pos hc,
        teeIoctlCloseSession, wp_bind, wp_get, wp_bind] at hw
      have h0 : r.words 0 ≠ 0 := by
        intro e
        obtain ⟨b, c, hb, -⟩ := hk.sessions _ hid
        rw [e, hk.zero] at hb
        cases hb
      unfold teeTaCloseSession at hw
      rw [if_neg h0, wp_bind, wp_teeTaGetSession hk, if_pos hid, if_neg h0] at hw
      obtain ⟨o, t, h1, h2⟩ := wp_wlp hw
        (closeFound_broken tas k.heap.calls h0 .teeOpenSessions (close_broken tas k.heap.calls))
      exact h2 h1
  | taOpen ctx uuid param =>
    rw [act, wp_bind] at hw
    obtain ⟨l, t, hopen, rfl, hl⟩ := wp_wlp hw (wlp_sessionsOf (.ofCtx ctx))
    refine ⟨by rw [hl]; rfl, fun hop => ?_⟩
    rw [wp_bind] at hopen
    obtain ⟨o, u, h1, h2⟩ := wp_wlp hopen
      (wlp_of_wp (openSession_broken (.ofCtx ctx) hl hd hop param))
    exact h2 h1

/-- **The current-session discipline.**  From a state whose listed sessions are live and that keeps
the discipline, boot among them: a run keeps it after every action exactly when each action is
settled in the state it is taken from. -/
theorem disciplined_iff (tas : Tas τ) (acts : List Action) (k : State τ) (hk : Linked k)
    (hd : Disciplined k) :
    (∀ pre, pre <+: acts → wp (run (act tas) pre) (fun _ t => Disciplined t) k) ↔
      Guarded (act tas) (Settled tas) acts k :=
  guarded_iff (I := fun s : State τ => Linked s ∧ Disciplined s) (fun s hs => hs.2)
    (settled_step tas) (unsettled_step tas) ⟨hk, hd⟩

/-- a live session that is current, and an entry record that is still empty -/
def sampleCurrent : State Unit := { sampleOpened with entered := [] }

theorem sampleCurrent_linked : Linked sampleCurrent where
  sessions := by
    intro s hs
    have e : s = 0x20000000 := List.mem_singleton.mp hs
    subst e
    exact ⟨_, _, rfl, rfl, trivial⟩
  zero := rfl

theorem disciplined_iff_invoke :
    wp (run (act (sampleTas teeSuccess)) [.request ⟨iocInvoke,
      Function.update (fun _ => 0) msgSessionWord 0x20000000⟩])
      (fun _ t => Disciplined t) sampleCurrent := by
  refine (disciplined_iff (sampleTas teeSuccess) _ sampleCurrent sampleCurrent_linked
    ⟨fun e he => absurd he List.not_mem_nil, fun _ => ⟨_, rfl⟩⟩).mpr ?_ _ (List.prefix_refl _)
  refine ⟨⟨fun h => absurd h (by decide), fun _ _ => ⟨?_, rfl⟩, fun h => absurd h (by decide)⟩,
    fun _ _ _ => trivial⟩
  exact List.mem_singleton.mpr rfl

/-- one accepted open leaves its session current, and its close leaves a freed one -/
theorem disciplined_fails :
    ¬ wp (run (act (sampleTas teeSuccess)) [.request ⟨iocOpenSession, fun _ => 0⟩])
      (fun _ t => Disciplined t) sampleBoot ∧
    wp (run (act (sampleTas teeSuccess)) [.request ⟨iocOpenSession, fun _ => 0⟩,
      .request ⟨iocCloseSession, fun _ => 0x20000000⟩])
      (fun _ t => t.currentSession = 0x20000000 ∧ t.heap.blocks 0x20000000 = none) sampleBoot := by
  refine ⟨?_, rfl, rfl⟩
  intro h
  have hd : Disciplined sampleOpened := h
  have he := hd.restored ⟨.openSession, 0x20000000, 0x20000100, 0, 0x20000000⟩
    (List.mem_singleton.mpr rfl)
  exact absurd he (by decide)

end

end MTower.Kernel
