import MTower.Kernel.Rules
import MTower.Kernel.Table

/-!
# Requests on the session table

Each request is matched with a change of the view: an open adds a session or changes nothing, an
invoke of a live session changes nothing, a close removes a session or changes nothing.

* `openSession_refused`, `openSession_opened`  the two ways an open can go;
* `closeSession_unknown`, `closeSession_known` the two ways a close can go;
* `ioctl_table`        one request keeps the table;
* `sessionTable_run`   every run of requests keeps it;
* `openNoTrace_iff`    when a failed open leaves no trace;
* `invokeSafe_iff`     when an invoke is safe.
-/

set_option linter.unusedVariables false

namespace MTower.Kernel
open Lib

section
variable {τ : Type}

/-! ## the view of a state -/

def Block.shape : Block τ → Shape
  | .session s => .session s.ctx
  | .userCtx _ l => .user l
  | .pseudoCtx _ => .pseudo

def State.view (k : State τ) : View where
  openSessions := k.openSessions
  ctxes := k.ctxes
  shape := fun a => (k.heap.blocks a).map Block.shape

variable {k t : State τ}

theorem blocks_of_shape_session {a c : Nat} (h : k.view.shape a = some (.session c)) :
    ∃ b, k.heap.blocks a = some (.session b) ∧ b.ctx = c := by
  obtain ⟨blk, hb, e⟩ := Option.map_eq_some_iff.mp h
  cases blk with
  | session s =>
    cases e
    exact ⟨s, hb, rfl⟩
  | userCtx ta l => cases e
  | pseudoCtx ta => cases e

theorem shape_of_blocks {a : Nat} {b : Block τ} (h : k.heap.blocks a = some b) :
    k.view.shape a = some b.shape := by
  show (k.heap.blocks a).map _ = _
  rw [h]
  rfl

theorem blocks_of_shape_ctx {a : Nat}
    (h : k.view.shape a = some (.user []) ∨ k.view.shape a = some .pseudo) :
    (∃ ta, k.heap.blocks a = some (.userCtx ta [])) ∨
      ∃ ta, k.heap.blocks a = some (.pseudoCtx ta) := by
  rcases h with h | h
  · obtain ⟨blk, hb, e⟩ := Option.map_eq_some_iff.mp h
    cases blk with
    | session s => cases e
    | userCtx ta l =>
      cases e
      exact Or.inl ⟨ta, hb⟩
    | pseudoCtx ta => cases e
  · obtain ⟨blk, hb, e⟩ := Option.map_eq_some_iff.mp h
    cases blk with
    | session s => cases e
    | userCtx ta l => cases e
    | pseudoCtx ta => exact Or.inr ⟨ta, hb⟩

theorem map_update {α β : Type} (f : α → β) (g : Nat → Option α) (a : Nat) (x : Option α) :
    (fun n => (Function.update g a x n).map f)
      = Function.update (fun n => (g n).map f) a (x.map f) := by
  funext n
  by_cases hn : n = a
  · subst hn
    rw [Function.update_self, Function.update_self]
  · rw [Function.update_of_ne hn, Function.update_of_ne hn]

theorem SameButCalls.view_eq (h : SameButCalls k t) : t.view = k.view := by
  rw [h]
  rfl

theorem EnterEffect.view_eq {kind : EntryKind} {s : Nat} {b : Session}
    (h : EnterEffect kind s b k t) (hs : k.heap.blocks s = some (.session b)) :
    t.view = k.view := by
  obtain ⟨u, hu⟩ := h.heap
  unfold State.view
  rw [h.openSessions, h.ctxes, hu]
  congr 1
  show (fun a => (Function.update k.heap.blocks s _ a).map Block.shape) = _
  rw [map_update]
  exact Function.update_eq_self_iff.mpr (shape_of_blocks hs).symm

theorem State.withNew_view (k : State τ) (c : Block τ) :
    (k.withNew c).view = k.view.opened k.sessAddr k.ctxAddr c.shape := by
  unfold State.view State.withNew View.opened
  congr 1
  rw [map_update, map_update]
  rfl

theorem erase_view (k : State τ) (a : Nat) :
    (k.erase a).view = { k.view with shape := Function.update k.view.shape a none } := by
  unfold State.view State.erase Heap.erase
  congr 1
  rw [map_update]
  rfl

/-! ## open -/

theorem openSession_refused {tas : Tas τ} (head : SessionHead) {uuid : Uuid} {l : List Nat}
    (hl : k.sessions head = some l) (h : ¬ Openable tas k uuid) (param : TeeTaParam) :
    wp (teeTaOpenSession tas head uuid param)
      (fun o t => o.res ≠ teeSuccess ∧ SameButCalls k t) k := by
  rw [teeTaOpenSession, wp_bind]
  refine wp_mono (initSession_refused hl h) ?_
  rintro r t ⟨hr, ht⟩
  rw [if_pos hr, wp_pure]
  exact ⟨hr, ht⟩

theorem openSession_opened {tas : Tas τ} {uuid : Uuid} {c : Block τ} (h : Openable tas k uuid)
    (hc : findTa tas uuid = some c) (param : TeeTaParam) :
    wp (teeTaOpenSession tas .teeOpenSessions uuid param)
      (fun o t => o.sess = k.sessAddr ∧ o.res = taOpenRes tas c k.world param 0 ∧
        EnterEffect .openSession k.sessAddr ⟨k.ctxAddr, 0⟩ (k.withNew c) t) k := by
  obtain ⟨-, -, -, -, hne⟩ := h.fresh
  have hs : (k.withNew c).heap.blocks k.sessAddr = some (.session ⟨k.ctxAddr, 0⟩) := by
    show Function.update (Function.update k.heap.blocks _ _) _ _ _ = _
    rw [Function.update_of_ne hne.symm, Function.update_self]
  have hb : (k.withNew c).heap.blocks k.ctxAddr = some c := Function.update_self _ _ _
  rw [teeTaOpenSession, wp_bind]
  refine wp_mono (initSession_opened h hc) ?_
  rintro r t ⟨rfl, rfl⟩
  simp only [ne_eq, not_true_eq_false, if_false, wp_bind, wp_sessionAt hs]
  refine wp_mono (enterOpenSession_effect tas param teeOriginTee hs hb (findTa_isCtx hc)) ?_
  rintro r t ⟨hr, ht⟩
  rw [wp_pure]
  exact ⟨rfl, hr, ht⟩

theorem findTa_shape {tas : Tas τ} {uuid : Uuid} {c : Block τ} (h : findTa tas uuid = some c) :
    c.shape = .user [] ∨ c.shape = .pseudo := by
  unfold findTa at h
  split at h
  · cases h
    exact Or.inr rfl
  · obtain ⟨ta, -, rfl⟩ := Option.map_eq_some_iff.mp h
    exact Or.inl rfl

theorem openSession_table (tas : Tas τ) (ht : Table k.view) (w : Words) :
    wp (teeIoctlOpenSession tas w) (fun _ t => Table t.view) k := by
  rw [teeIoctlOpenSession, wp_bind]
  by_cases h : Openable tas k (teeUuidFromOctets (octetAt w))
  · obtain ⟨c, hc⟩ := Option.isSome_iff_exists.mp h.2.1
    obtain ⟨hs0, hsn, hc0, hcn, hne⟩ := h.fresh
    refine wp_mono (openSession_opened h hc _) ?_
    rintro o t ⟨-, -, he⟩
    rw [wp_pure, he.view_eq, State.withNew_view]
    · refine ht.opened hs0 hc0 ?_ ?_ hne (findTa_shape hc)
      · show (k.heap.blocks _).map _ = _
        rw [hsn]
        rfl
      · show (k.heap.blocks _).map _ = _
        rw [hcn]
        rfl
    · show Function.update (Function.update k.heap.blocks _ _) _ _ _ = _
      rw [Function.update_of_ne hne.symm, Function.update_self]
  · refine wp_mono (openSession_refused .teeOpenSessions rfl h _) ?_
    rintro o t ⟨-, hsame⟩
    rw [wp_pure, hsame.view_eq]
    exact ht

/-! ## invoke -/

theorem Table.block_session (ht : Table k.view) {s : Nat} (hs : s ∈ k.openSessions) :
    ∃ b, k.heap.blocks s = some (.session b) := by
  obtain ⟨c, hc⟩ := ht.shape_session hs
  obtain ⟨b, hb, -⟩ := blocks_of_shape_session hc
  exact ⟨b, hb⟩

/-- the context of a listed session is a listed context block with no sessions of its own -/
theorem Table.block_ctx (ht : Table k.view) {s : Nat} (hs : s ∈ k.openSessions) {b : Session}
    (hb : k.heap.blocks s = some (.session b)) : b.ctx ∈ k.ctxes ∧
      ((∃ ta, k.heap.blocks b.ctx = some (.userCtx ta [])) ∨
        ∃ ta, k.heap.blocks b.ctx = some (.pseudoCtx ta)) := by
  obtain ⟨c, hc, e⟩ := ht.ctx_mem s hs
  rw [shape_of_blocks hb] at e
  cases e
  exact ⟨hc, blocks_of_shape_ctx (ht.isCtx _ hc)⟩

/-- the listed sessions are sessions with contexts, and no block is at address 0 -/
structure Linked (k : State τ) : Prop where
  sessions : ∀ s ∈ k.openSessions, ∃ b c, k.heap.blocks s = some (.session b) ∧
    k.heap.blocks b.ctx = some c ∧ IsCtx c
  zero : k.heap.blocks 0 = none

theorem Table.linked (ht : Table k.view) : Linked k where
  sessions := by
    intro s hs
    obtain ⟨b, hb⟩ := ht.block_session hs
    rcases (ht.block_ctx hs hb).2 with ⟨ta, h⟩ | ⟨ta, h⟩
    · exact ⟨b, _, hb, h, trivial⟩
    · exact ⟨b, _, hb, h, trivial⟩
  zero := by
    by_contra hb
    have hs : k.view.shape 0 ≠ none := fun e => hb (Option.map_eq_none_iff.mp e)
    exact (ht.only 0 hs).elim ht.zero_notMem.1 ht.zero_notMem.2

theorem Linked.ctx (hk : Linked k) {s : Nat} (hs : s ∈ k.openSessions) {b : Session}
    (hb : k.heap.blocks s = some (.session b)) :
    ∃ c, k.heap.blocks b.ctx = some c ∧ IsCtx c := by
  obtain ⟨b', c, hb', hc, hi⟩ := hk.sessions s hs
  rw [hb] at hb'
  cases hb'
  exact ⟨c, hc, hi⟩

theorem wp_teeTaGetSession (hk : Linked k) {id : Nat} {Q : Nat → State τ → Prop} :
    wp (teeTaGetSession id .teeOpenSessions) Q k ↔
      Q (if id ∈ k.openSessions then id else 0) k := by
  rw [teeTaGetSession, wp_bind, wp_sessionsOf (l := k.openSessions) rfl]
  refine wp_findSession fun s hs => ?_
  obtain ⟨b, c, hb, -⟩ := hk.sessions s hs
  exact ⟨b, hb⟩

/-- the message of a `TEE_IOC_INVOKE` has parameters that `copy_in_params` accepts -/
def MsgDecodes (w : Words) : Prop := Decodes (msgParams w) (w msgNumParamsWord)

instance (w : Words) : Decidable (MsgDecodes w) := inferInstanceAs (Decidable (Decodes _ _))

theorem invoke_rejected (tas : Tas τ) (hk : Linked k) {w : Words} (hd : ¬ MsgDecodes w)
    {Q : Nat × Words → State τ → Prop} : wp (teeIoctlInvoke tas w) Q k ↔
      Q (teeErrorBadParameters, Function.update w msgRetWord teeErrorBadParameters) k := by
  unfold MsgDecodes at hd
  simp only [teeIoctlInvoke, wp_bind, wp_teeTaGetSession hk, wp_get, copyInParams_eq, if_neg hd,
    wp_pure]

/-- A live session is entered, and no other. -/
theorem invoke_live (tas : Tas τ) (hk : Linked k) {w : Words} (hd : MsgDecodes w)
    (hid : w msgSessionWord ∈ k.openSessions) {b : Session}
    (hb : k.heap.blocks (w msgSessionWord) = some (.session b)) :
    wp (teeIoctlInvoke tas w)
      (fun _ t => EnterEffect .invokeCmd (w msgSessionWord) b k t) k := by
  obtain ⟨c, hc, hisc⟩ := hk.ctx hid hb
  unfold MsgDecodes at hd
  simp only [teeIoctlInvoke, wp_bind, wp_teeTaGetSession hk, wp_get, copyInParams_eq, if_pos hd,
    if_pos hid, teeTaInvokeCommand, wp_sessionAt hb]
  refine wp_mono (enterInvokeCmd_effect tas _ _ hb hc hisc) ?_
  intro r t he
  exact he

/-- A dead session id with acceptable parameters is dereferenced. -/
theorem invoke_dead (tas : Tas τ) (hk : Linked k) {w : Words} (hd : MsgDecodes w)
    (hid : w msgSessionWord ∉ k.openSessions) {Q : Nat × Words → State τ → Prop} :
    wlp (teeIoctlInvoke tas w) Q k := by
  have hget : wp (teeTaGetSession (w msgSessionWord) .teeOpenSessions) (fun s t => s = 0 ∧ t = k) k := by
    rw [wp_teeTaGetSession hk, if_neg hid]
    exact ⟨rfl, rfl⟩
  unfold MsgDecodes at hd
  rw [teeIoctlInvoke, wlp_bind]
  refine wlp_mono (wlp_of_wp hget) ?_
  rintro s t ⟨rfl, rfl⟩
  simp only [wlp_bind, wlp_get, copyInParams_eq, if_pos hd, teeTaInvokeCommand, sessionAt, hk.zero]
  exact wlp_throw

/-! ## close -/

theorem closeSession_unknown (tas : Tas τ) (hk : Linked k) {id : Nat}
    (hid : id ∉ k.openSessions) (fuel : Nat) {Q : Nat → State τ → Prop} :
    wp (teeTaCloseSession tas (fuel + 1) id .teeOpenSessions) Q k ↔
      Q teeErrorItemNotFound k := by
  unfold teeTaCloseSession
  by_cases h0 : id = 0
  · rw [if_pos h0, wp_pure]
  · simp only [if_neg h0, wp_bind, wp_teeTaGetSession hk, if_neg hid, if_true, wp_pure]

/-- destroying a context that opened no session of its own frees its block -/
theorem wp_destroyCtx (tas : Tas τ) (close : Nat → SessionHead → K τ Nat) {c : Nat} (hc0 : c ≠ 0)
    (hc : (∃ ta, k.heap.blocks c = some (.userCtx ta [])) ∨
      ∃ ta, k.heap.blocks c = some (.pseudoCtx ta)) :
    wp (destroyCtx tas close c)
      (fun _ t => ∃ w, t = { k.erase c with world := w }) k := by
  rcases hc with ⟨ta, hc⟩ | ⟨ta, hc⟩
  · have hc' : ({ k with world := tas.sweep c k.world } : State τ).heap.blocks c
        = some (.userCtx ta []) := hc
    simp only [destroyCtx, wp_bind, wp_isUserCtx_user hc, if_true, userTaCtxDestroy,
      wp_userCtxAt hc, List.length_nil, closeOpened, wp_pure, wp_modify, wp_teeFree hc0 hc']
    exact ⟨_, rfl⟩
  · simp only [destroyCtx, wp_bind, wp_isUserCtx_pseudo hc, Bool.false_eq_true, if_false,
      pseudoTaDestroy, wp_pseudoCtxAt hc, wp_teeFree hc0 hc]
    exact ⟨k.world, rfl⟩

theorem closeSession_known (tas : Tas τ) (ht : Table k.view) {id : Nat}
    (hid : id ∈ k.openSessions) {b : Session} (hb : k.heap.blocks id = some (.session b))
    (fuel : Nat) :
    wp (teeTaCloseSession tas (fuel + 1) id .teeOpenSessions)
      (fun r t => r = teeSuccess ∧ t.view = k.view.closed id b.ctx) k := by
  have h0 : id ≠ 0 := fun e => ht.zero_notMem.1 (e ▸ hid)
  obtain ⟨hcm, hctx⟩ := ht.block_ctx hid hb
  have hc0 : b.ctx ≠ 0 := fun e => ht.zero_notMem.2 (e ▸ hcm)
  have hne : b.ctx ≠ id := fun e => ht.notMem_ctxes hid (e ▸ hcm)
  obtain ⟨c, hc, hisc⟩ := ht.linked.ctx hid hb
  unfold teeTaCloseSession
  simp only [if_neg h0, wp_bind, wp_teeTaGetSession ht.linked, if_pos hid, wp_sessionAt hb]
  refine wp_mono (enterCloseSession_effect hb hc hisc) ?_
  intro _ t he
  obtain ⟨u, hu⟩ := he.heap
  have hl : t.sessions .teeOpenSessions = some k.openSessions := by
    rw [← he.openSessions]
    rfl
  have hbt : (t.setSessions (k.openSessions.erase id) .teeOpenSessions).heap.blocks id
      = some (.session { b with userCtx := u }) := by
    show t.heap.blocks id = _
    rw [hu]
    exact Function.update_self _ _ _
  have hcm' : b.ctx ∈ ((t.setSessions (k.openSessions.erase id)
      .teeOpenSessions).erase id).ctxes := by
    show b.ctx ∈ t.ctxes
    rw [he.ctxes]
    exact hcm
  rw [wp_bind, wp_teeTaUnlinkSession hl hid, wp_bind, wp_teeFree h0 hbt, wp_bind,
    wp_removeCtx hcm', wp_bind]
  have hblk : ∀ a, a ≠ id → (Function.update (t.heap.blocks) id none) a = k.heap.blocks a := by
    intro a ha
    rw [Function.update_of_ne ha, hu]
    exact Function.update_of_ne ha _ _
  refine wp_mono (wp_destroyCtx tas _ hc0 ?_) ?_
  · show (∃ ta, Function.update t.heap.blocks id none b.ctx = _) ∨
      ∃ ta, Function.update t.heap.blocks id none b.ctx = _
    rw [hblk _ hne]
    exact hctx
  · rintro _ v ⟨w, rfl⟩
    refine ⟨rfl, ?_⟩
    show View.mk _ _ _ = _
    unfold View.closed
    congr 1
    · show t.ctxes.erase b.ctx = _
      rw [he.ctxes]
      rfl
    · show (fun a => (Function.update (Function.update t.heap.blocks id none) b.ctx none a).map
        Block.shape) = _
      rw [map_update, map_update, hu]
      show Function.update (Function.update (fun a => (Function.update k.heap.blocks id _ a).map
        Block.shape) id _) _ _ = _
      rw [map_update, Function.update_idem]
      rfl

/-- the session of a user TA: its close entry and the sweep see the world -/
theorem closeSession_user (tas : Tas τ) (ht : Table k.view) {id : Nat}
    (hid : id ∈ k.openSessions) {b : Session} (hb : k.heap.blocks id = some (.session b))
    {ta : TaHead τ} (hc : k.heap.blocks b.ctx = some (.userCtx ta [])) (fuel : Nat) :
    wp (teeTaCloseSession tas (fuel + 1) id .teeOpenSessions)
      (fun _ t => t.world = tas.sweep b.ctx (closeWorld ta.closeSession k.world b.userCtx)) k := by
  have h0 : id ≠ 0 := fun e => ht.zero_notMem.1 (e ▸ hid)
  obtain ⟨hcm, -⟩ := ht.block_ctx hid hb
  have hc0 : b.ctx ≠ 0 := fun e => ht.zero_notMem.2 (e ▸ hcm)
  have hne : b.ctx ≠ id := fun e => ht.notMem_ctxes hid (e ▸ hcm)
  unfold teeTaCloseSession
  simp only [if_neg h0, wp_bind, wp_teeTaGetSession ht.linked, if_pos hid, wp_sessionAt hb]
  rw [wp_enterCloseSession_user hb hc]
  generalize hv : closeWorld ta.closeSession k.world b.userCtx = v
  have hl : (k.entry .closeSession id b.ctx v).sessions .teeOpenSessions = some k.openSessions := rfl
  have hbt : ((k.entry .closeSession id b.ctx v).setSessions (k.openSessions.erase id)
      .teeOpenSessions).heap.blocks id = some (.session b) := hb
  have hcmt : b.ctx ∈ (((k.entry .closeSession id b.ctx v).setSessions (k.openSessions.erase id)
      .teeOpenSessions).erase id).ctxes := hcm
  rw [wp_bind, wp_teeTaUnlinkSession hl hid, wp_bind, wp_teeFree h0 hbt, wp_bind,
    wp_removeCtx hcmt, wp_bind]
  have hctx : Function.update k.heap.blocks id none b.ctx = some (.userCtx ta []) := by
    rw [Function.update_of_ne hne, hc]
  generalize hu : ({ ((k.entry .closeSession id b.ctx v).setSessions (k.openSessions.erase id)
    .teeOpenSessions).erase id with ctxes := _ } : State τ) = u
  have hub : u.heap.blocks b.ctx = some (.userCtx ta []) := by
    rw [← hu]
    exact hctx
  have huw : u.world = v := by
    rw [← hu]
    rfl
  have hsb : ({ u with world := tas.sweep b.ctx u.world } : State τ).heap.blocks b.ctx
      = some (.userCtx ta []) := hub
  simp only [destroyCtx, wp_bind, wp_isUserCtx_user hub, if_true, userTaCtxDestroy,
    wp_userCtxAt hub, List.length_nil, closeOpened, wp_pure, wp_modify, wp_teeFree hc0 hsb]
  show tas.sweep b.ctx u.world = _
  rw [huw]

theorem closeSession_table (tas : Tas τ) (ht : Table k.view) (w : Words) :
    wp (teeIoctlCloseSession tas w) (fun _ t => Table t.view) k := by
  rw [teeIoctlCloseSession, wp_bind, wp_get, wp_bind]
  by_cases hid : w 0 ∈ k.openSessions
  · obtain ⟨b, hb⟩ := ht.block_session hid
    refine wp_mono (closeSession_known tas ht hid hb _) ?_
    rintro r t ⟨-, hv⟩
    rw [wp_pure, hv]
    exact ht.closed hid (shape_of_blocks hb)
  · rw [closeSession_unknown tas ht.linked hid, wp_pure]
    exact ht

/-! ## runs -/

/-- a request of the normal world: the command and the words of its buffer -/
structure Request where
  cmd : Nat
  words : Words

def serve (tas : Tas τ) (r : Request) : K τ (Nat × Words) := ioctl tas r.cmd r.words

/-- an invoke names a live session -/
def LiveInvoke (r : Request) (k : State τ) : Prop :=
  r.cmd = iocInvoke → r.words msgSessionWord ∈ k.openSessions

/-- **One request keeps the table**, unless it is an invoke that dereferences a dead id. -/
theorem serve_table (tas : Tas τ) (ht : Table k.view) (r : Request)
    (hr : r.cmd = iocInvoke → r.words msgSessionWord ∈ k.openSessions ∨ ¬ MsgDecodes r.words) :
    wp (serve tas r) (fun _ t => Table t.view) k := by
  unfold serve ioctl
  by_cases ho : r.cmd = iocOpenSession
  · rw [if_pos ho]
    exact openSession_table tas ht r.words
  rw [if_neg ho]
  by_cases hi : r.cmd = iocInvoke
  · rw [if_pos hi]
    by_cases hd : MsgDecodes r.words
    · have hid := (hr hi).resolve_right fun h => h hd
      obtain ⟨b, hb⟩ := ht.block_session hid
      refine wp_mono (invoke_live tas ht.linked hd hid hb) ?_
      intro _ t he
      rw [he.view_eq hb]
      exact ht
    · rw [invoke_rejected tas ht.linked hd]
      exact ht
  rw [if_neg hi]
  by_cases hc : r.cmd = iocCloseSession
  · rw [if_pos hc]
    exact closeSession_table tas ht r.words
  · rw [if_neg hc, wp_pure]
    exact ht

/-- **The session table over every run.**  From boot, after any requests whose invokes name live
sessions, for any TAs and any answers of the allocator: no request faults, sessions and contexts
are in bijection, and closing an unknown id is refused and changes nothing. -/
theorem sessionTable_run (tas : Tas τ) (answers : Nat → Nat) (world : τ) (reqs : List Request)
    (hlive : Guarded (serve tas) LiveInvoke reqs (State.boot answers world)) :
    wp (run (serve tas) reqs) (fun _ t =>
      t.openSessions.Nodup ∧
      (∀ s ∈ t.openSessions, ∃ b, t.heap.blocks s = some (.session b) ∧ b.ctx ∈ t.ctxes) ∧
      (∀ s₁ ∈ t.openSessions, ∀ s₂ ∈ t.openSessions, ∀ b₁ b₂,
        t.heap.blocks s₁ = some (.session b₁) → t.heap.blocks s₂ = some (.session b₂) →
        s₁ ≠ s₂ → b₁.ctx ≠ b₂.ctx) ∧
      (∀ c ∈ t.ctxes, ∃! s, s ∈ t.openSessions ∧
        ∃ b, t.heap.blocks s = some (.session b) ∧ b.ctx = c) ∧
      (∀ w : Words, w 0 ∉ t.openSessions →
        wp (teeIoctlCloseSession tas w) (fun r u => r.1 = teeErrorItemNotFound ∧ u = t) t))
      (State.boot answers world) := by
  have hrun := wp_run (I := fun t : State τ => Table t.view)
    (fun r s hs hg => serve_table tas hs r fun hi => Or.inl (hg hi)) hlive Table.empty
  refine wp_mono hrun ?_
  intro _ t ht
  refine ⟨ht.sessions_nodup, ?_, ?_, ?_, ?_⟩
  · intro s hs
    obtain ⟨b, hb⟩ := ht.block_session hs
    exact ⟨b, hb, (ht.block_ctx hs hb).1⟩
  · intro s₁ h₁ s₂ h₂ b₁ b₂ e₁ e₂ hne hc
    refine hne (ht.distinct s₁ h₁ s₂ h₂ b₁.ctx (shape_of_blocks e₁) ?_)
    rw [hc]
    exact shape_of_blocks e₂
  · intro c hc
    obtain ⟨s, hs, e⟩ := ht.owned c hc
    refine ⟨s, ⟨hs, blocks_of_shape_session e⟩, ?_⟩
    rintro s' ⟨hs', b, hb, rfl⟩
    exact ht.distinct s' hs' s hs b.ctx (shape_of_blocks hb) e
  · intro w hw
    rw [teeIoctlCloseSession, wp_bind, wp_get, wp_bind, closeSession_unknown tas ht.linked hw, wp_pure]
    exact ⟨rfl, rfl⟩

/-- a user TA with UUID zero whose open entry point answers `openRes` -/
def sampleTas (openRes : Nat) : Tas Unit where
  pseudo := []
  user := [{ uuid := teeUuidFromOctets fun _ => 0
             openSession := some fun _ _ p u => ⟨openRes, p, u, ()⟩
             invokeCommand := fun _ _ _ _ p => ⟨teeSuccess, p, ()⟩
             closeSession := none }]
  ptJunk := fun _ _ => 0
  paramJunk := fun _ _ => .zero
  sweep := fun _ w => w

def sampleAnswers (n : Nat) : Nat := 0x20000000 + 0x100 * n

def sampleBoot : State Unit := State.boot sampleAnswers ()

/-- open, invoke the session, close it -/
def sampleReqs : List Request :=
  [⟨iocOpenSession, fun _ => 0⟩, ⟨iocInvoke, Function.update (fun _ => 0) 1 0x20000000⟩,
    ⟨iocCloseSession, fun _ => 0x20000000⟩]

theorem sampleReqs_live :
    Guarded (serve (sampleTas teeSuccess)) LiveInvoke sampleReqs sampleBoot := by
  refine ⟨fun h => absurd h (by decide), ?_⟩
  intro b t e
  have ht : t.openSessions = [0x20000000] := by
    cases e
    rfl
  refine ⟨fun _ => by rw [ht]; decide, ?_⟩
  intro b t e
  exact ⟨fun h => absurd h (by decide), fun _ _ _ => trivial⟩

theorem sessionTable_run_sample :
    wp (run (serve (sampleTas teeSuccess)) sampleReqs)
      (fun _ t => t.openSessions.Nodup) sampleBoot :=
  wp_mono (sessionTable_run (sampleTas teeSuccess) sampleAnswers () sampleReqs sampleReqs_live)
    fun _ _ h => h.1

/-! ## a failed open -/

/-- an open that reports an error leaves the queues and the blocks as they were -/
def OpenNoTrace (tas : Tas τ) (k : State τ) (w : Words) : Prop :=
  wp (teeIoctlOpenSession tas w) (fun r t => r.2 openRetWord ≠ teeSuccess →
    t.openSessions = k.openSessions ∧ t.ctxes = k.ctxes ∧
      ∀ a, t.heap.Live a ↔ k.heap.Live a) k

theorem openRet_eq (w : Words) (s res err : Nat) :
    Function.update (Function.update (Function.update w openSessionWord s) openRetWord res)
      openRetOriginWord err openRetWord = res := by
  rw [Function.update_of_ne (by decide), Function.update_self]

theorem openNoTrace_of_refused {tas : Tas τ} {w : Words}
    (h : ¬ Openable tas k (teeUuidFromOctets (octetAt w))) : OpenNoTrace tas k w := by
  rw [OpenNoTrace, teeIoctlOpenSession, wp_bind]
  refine wp_mono (openSession_refused .teeOpenSessions rfl h _) ?_
  rintro o t ⟨-, hsame⟩
  rw [wp_pure]
  intro _
  rw [hsame]
  exact ⟨rfl, rfl, fun a => Iff.rfl⟩

theorem openNoTrace_opened {tas : Tas τ} {w : Words} {c : Block τ}
    (h : Openable tas k (teeUuidFromOctets (octetAt w)))
    (hc : findTa tas (teeUuidFromOctets (octetAt w)) = some c) :
    OpenNoTrace tas k w ↔ taOpenRes tas c k.world (rawTaParam w) 0 = teeSuccess := by
  rw [OpenNoTrace, teeIoctlOpenSession, wp_bind]
  obtain ⟨o, t, e, -, hres, he⟩ := wp_iff.mp (openSession_opened h hc (rawTaParam w))
  rw [wp_of_eq e, wp_pure]
  simp only [openRet_eq, hres]
  constructor
  · intro hp
    by_contra hne
    have hlist := (hp hne).1
    rw [he.openSessions] at hlist
    exact absurd hlist (List.cons_ne_self _ _)
  · intro hok hne
    exact absurd hok hne

/-- **When a failed open leaves no trace.**  For every state and every request: exactly when the
open is refused before the TA is entered, or the TA accepts it. -/
theorem openNoTrace_iff (tas : Tas τ) (k : State τ) (w : Words) :
    OpenNoTrace tas k w ↔ ∀ c, findTa tas (teeUuidFromOctets (octetAt w)) = some c →
      Openable tas k (teeUuidFromOctets (octetAt w)) →
        taOpenRes tas c k.world (rawTaParam w) 0 = teeSuccess := by
  by_cases h : Openable tas k (teeUuidFromOctets (octetAt w))
  · obtain ⟨c, hc⟩ := Option.isSome_iff_exists.mp h.2.1
    rw [openNoTrace_opened h hc]
    constructor
    · intro hok c' hc' _
      rw [hc] at hc'
      cases hc'
      exact hok
    · intro hall
      exact hall c hc h
  · exact ⟨fun _ c _ ho => absurd ho h, fun _ => openNoTrace_of_refused h⟩

/-- a TA that refuses the session: the session stays in the table, the client gets no id -/
theorem openNoTrace_fails :
    ¬ OpenNoTrace (sampleTas teeErrorBadParameters) sampleBoot fun _ => 0 := by
  have ho : Openable (sampleTas teeErrorBadParameters) sampleBoot
      (teeUuidFromOctets (octetAt fun _ => 0)) := by decide +kernel
  rw [openNoTrace_opened ho rfl]
  decide +kernel

/-! ## invoke with any id -/

/-- the state is reached from boot by some requests -/
def Reached (tas : Tas τ) (k : State τ) : Prop :=
  ∃ answers world reqs, run (serve tas) reqs (State.boot answers world) = .ok (⟨⟩, k)

/-- a request that comes back leaves a table, whatever id it named -/
theorem serve_table_back (tas : Tas τ) (ht : Table k.view) (r : Request) :
    wlp (serve tas r) (fun _ t => Table t.view) k := by
  by_cases hr : r.cmd = iocInvoke → r.words msgSessionWord ∈ k.openSessions ∨ ¬ MsgDecodes r.words
  · exact wlp_of_wp (serve_table tas ht r hr)
  · push Not at hr
    obtain ⟨hi, hid, hd⟩ := hr
    rw [serve, ioctl, if_neg (by rw [hi]; decide), if_pos hi]
    exact invoke_dead tas ht.linked hd hid

theorem Reached.table {tas : Tas τ} (h : Reached tas k) : Table k.view := by
  obtain ⟨answers, world, reqs, e⟩ := h
  have h0 : Table (State.boot answers world).view := Table.empty
  refine (wlp_of_eq e).mp (wlp_run (I := fun t : State τ => Table t.view) ?_ h0)
  exact fun r s hs => serve_table_back tas hs r

/-- An invoke of a dead id is an error that enters no TA; an invoke of a live id enters the
context of that session and no other, when its parameters are acceptable. -/
def InvokeSafe (tas : Tas τ) (k : State τ) (w : Words) : Prop :=
  wp (teeIoctlInvoke tas w) (fun r t =>
    (w msgSessionWord ∉ k.openSessions →
      r.1 ≠ teeSuccess ∧ t.entered = k.entered ∧ t.calls = k.calls) ∧
    (w msgSessionWord ∈ k.openSessions → MsgDecodes w →
      ∃ b, k.heap.blocks (w msgSessionWord) = some (.session b) ∧
        t.entered = ⟨.invokeCmd, w msgSessionWord, b.ctx, k.currentSession,
          w msgSessionWord⟩ :: k.entered) ∧
    (w msgSessionWord ∈ k.openSessions → ¬ MsgDecodes w →
      r.1 = teeErrorBadParameters ∧ t.entered = k.entered ∧ t.calls = k.calls)) k

/-- **When an invoke is safe.**  In every reachable state, for every request: exactly when the id
names a listed session, or `copy_in_params` rejects the parameters. -/
theorem invokeSafe_iff (tas : Tas τ) (k : State τ) (hk : Reached tas k) (w : Words) :
    InvokeSafe tas k w ↔ w msgSessionWord ∈ k.openSessions ∨ ¬ MsgDecodes w := by
  have ht := hk.table
  constructor
  · intro h
    by_contra hn
    push Not at hn
    obtain ⟨-, -, -, hf⟩ := wp_wlp h
      (invoke_dead tas ht.linked (Q := fun _ _ => False) hn.2 hn.1)
    exact hf
  · intro h
    by_cases hd : MsgDecodes w
    · have hid := h.resolve_right fun hnd => hnd hd
      obtain ⟨b, hb⟩ := ht.block_session hid
      refine wp_mono (invoke_live tas ht.linked hd hid hb) ?_
      intro r t he
      exact ⟨fun hn => absurd hid hn, fun _ _ => ⟨b, hb, he.entered⟩, fun _ hnd => absurd hd hnd⟩
    · rw [InvokeSafe, invoke_rejected tas ht.linked hd]
      have hne : teeErrorBadParameters ≠ teeSuccess := by decide
      exact ⟨fun _ => ⟨hne, rfl, rfl⟩, fun _ hd' => absurd hd' hd,
        fun _ _ => ⟨rfl, rfl, rfl⟩⟩

/-- the state after the open of `sampleReqs` -/
def sampleOpened : State Unit :=
  match serve (sampleTas teeSuccess) ⟨iocOpenSession, fun _ => 0⟩ sampleBoot with
  | .ok (_, k) => k
  | .error _ => sampleBoot

theorem invokeSafe_opened : InvokeSafe (sampleTas teeSuccess) sampleOpened
    (Function.update (fun _ => 0) msgSessionWord 0x20000000) :=
  (invokeSafe_iff (sampleTas teeSuccess) sampleOpened
    ⟨sampleAnswers, (), [⟨iocOpenSession, fun _ => 0⟩], rfl⟩ _).mpr (Or.inl (by decide +kernel))

/-- session id 0 and no parameters, at boot: the null session is dereferenced -/
theorem invokeSafe_fails :
    ¬ InvokeSafe (sampleTas teeSuccess) sampleBoot (fun _ => 0) ∧
      teeIoctlInvoke (sampleTas teeSuccess) (fun _ => 0) sampleBoot = .error .nullPointer :=
  ⟨id, rfl⟩

end

end MTower.Kernel
