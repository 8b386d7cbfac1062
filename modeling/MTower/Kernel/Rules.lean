import MTower.Kernel.Session

/-!
# What the session manager does to the state

One lemma for each operation of `Session.lean`: the state it ends in as an explicit function of
the state it starts from, or the cases.  Later modules use these and do not unfold the operations.

* `wp_findSession`          the lookup by address;
* `wp_enterInvokeCmd_user`, `wp_enterInvokeCmd_pseudo`, `wp_enterOpenSession_user`,
  `wp_enterOpenSession_pseudo`, `wp_enterCloseSession`  the entry functions;
* `initSession_cases`       `tee_ta_init_session` fails and leaves no trace, or adds a session
                            and its context.
-/

set_option linter.unusedVariables false

namespace MTower.Kernel
open Lib

section
variable {τ α : Type} {k : State τ}

/-! ## memory and queues -/

theorem wp_sessionAt {a : Nat} {b : Session} {Q : Session → State τ → Prop}
    (h : k.heap.blocks a = some (.session b)) : wp (sessionAt a) Q k ↔ Q b k := by
  simp only [sessionAt, wp_bind, wp_get, h, wp_pure]

theorem wp_userCtxAt {a : Nat} {ta : TaHead τ} {l : List Nat}
    {Q : TaHead τ × List Nat → State τ → Prop}
    (h : k.heap.blocks a = some (.userCtx ta l)) : wp (userCtxAt a) Q k ↔ Q (ta, l) k := by
  simp only [userCtxAt, wp_bind, wp_get, h, wp_pure]

theorem wp_pseudoCtxAt {a : Nat} {ta : TaHead τ} {Q : TaHead τ → State τ → Prop}
    (h : k.heap.blocks a = some (.pseudoCtx ta)) : wp (pseudoCtxAt a) Q k ↔ Q ta k := by
  simp only [pseudoCtxAt, wp_bind, wp_get, h, wp_pure]

theorem wp_isUserCtx_user {a : Nat} {ta : TaHead τ} {l : List Nat} {Q : Bool → State τ → Prop}
    (h : k.heap.blocks a = some (.userCtx ta l)) : wp (isUserCtx a) Q k ↔ Q true k := by
  simp only [isUserCtx, wp_bind, wp_get, h, wp_pure]

theorem wp_isUserCtx_pseudo {a : Nat} {ta : TaHead τ} {Q : Bool → State τ → Prop}
    (h : k.heap.blocks a = some (.pseudoCtx ta)) : wp (isUserCtx a) Q k ↔ Q false k := by
  simp only [isUserCtx, wp_bind, wp_get, h, wp_pure]

@[simp] theorem wp_teeMalloc {b : Block τ} {Q : Nat → State τ → Prop} :
    wp (teeMalloc b) Q k ↔ Q (k.heap.alloc b).1 { k with heap := (k.heap.alloc b).2 } := Iff.rfl

@[simp] theorem wp_storeAt {a : Nat} {b : Block τ} {Q : Unit → State τ → Prop} :
    wp (storeAt a b) Q k ↔ Q () (k.store a b) := Iff.rfl

@[simp] theorem wp_insertCtx {c : Nat} {Q : Unit → State τ → Prop} :
    wp (insertCtx c) Q k ↔ Q () { k with ctxes := c :: k.ctxes } := Iff.rfl

theorem wp_teeFree {a : Nat} {b : Block τ} {Q : Unit → State τ → Prop} (h0 : a ≠ 0)
    (h : k.heap.blocks a = some b) : wp (teeFree a) Q k ↔ Q () (k.erase a) := by
  simp only [teeFree, wp_bind, wp_get, if_neg h0, h, Option.isSome_some, if_true, wp_set]

theorem wp_unlinked {l : List Nat} {a : Nat} {Q : List Nat → State τ → Prop} (h : a ∈ l) :
    wp (unlinked l a) Q k ↔ Q (l.erase a) k := by
  simp only [unlinked, if_pos h, wp_pure]

theorem wp_removeCtx {c : Nat} {Q : Unit → State τ → Prop} (h : c ∈ k.ctxes) :
    wp (removeCtx c) Q k ↔ Q () { k with ctxes := k.ctxes.erase c } := by
  simp only [removeCtx, wp_bind, wp_get, wp_unlinked h, wp_modify]

/-- The lookup by address, over a queue of live sessions. -/
theorem wp_findSession {id : Nat} {l : List Nat} {Q : Nat → State τ → Prop}
    (hl : ∀ s ∈ l, ∃ b, k.heap.blocks s = some (.session b)) :
    wp (findSession id l) Q k ↔ Q (if id ∈ l then id else 0) k := by
  induction l with
  | nil => exact Iff.rfl
  | cons s l ih =>
    obtain ⟨b, hb⟩ := hl s List.mem_cons_self
    have ih := ih fun t ht => hl t (List.mem_cons_of_mem s ht)
    by_cases hs : s = id
    · subst hs
      rw [findSession, if_pos rfl, if_pos List.mem_cons_self]
      exact Iff.rfl
    · have hm : id ∈ s :: l ↔ id ∈ l := by
        rw [List.mem_cons]
        exact ⟨fun h => h.resolve_left fun e => hs e.symm, Or.inr⟩
      rw [findSession, if_neg hs, wp_bind, wp_sessionAt hb, ih]
      simp only [hm]

/-! ## entry functions -/

theorem wp_entering {kind : EntryKind} {s ctx : Nat} {body : K τ α} {Q : α → State τ → Prop} :
    wp (entering kind s ctx body) Q k ↔ wp body (fun a t => Q a { t with
      entered := ⟨kind, s, ctx, k.currentSession, t.currentSession⟩ :: t.entered }) k := by
  rw [entering, wp_bind, wp_get, wp_bind]
  exact Iff.rfl

/-- the state after an entry function of kind `kind` that left `world` behind -/
def State.entry (k : State τ) (kind : EntryKind) (s ctx : Nat) (world : τ) : State τ :=
  { k with currentSession := s
           world := world
           entered := ⟨kind, s, ctx, k.currentSession, s⟩ :: k.entered }

/-- `entry`, when the entry point of the TA was called as well -/
def State.entryCall (k : State τ) (kind : EntryKind) (s ctx cmd types : Nat) (params : TeeParams)
    (world : τ) : State τ :=
  { k.entry kind s ctx world with calls := ⟨kind, ctx, cmd, types, params, k.world⟩ :: k.calls }

section
variable {s ctx : Nat} {b : Session} {ta : TaHead τ} {l : List Nat}

theorem wp_enterInvokeCmd_user (tas : Tas τ) (cmd : Nat) (param : TeeTaParam)
    {Q : Nat × TeeTaParam × Nat → State τ → Prop} (hs : k.heap.blocks s = some (.session b))
    (hc : k.heap.blocks b.ctx = some (.userCtx ta l)) :
    wp (enterInvokeCmd tas b.ctx s cmd param) Q k ↔
      let r := ta.invokeCommand k.world b.userCtx cmd param.types param.params
      Q (r.res, param.write r.params, teeOriginTrustedApp)
        (k.entryCall .invokeCmd s b.ctx cmd param.types param.params r.world) := by
  simp only [enterInvokeCmd, userTaEnterInvokeCmd, wp_bind, wp_isUserCtx_user hc, if_true,
    wp_userCtxAt hc, wp_entering, teeTaPushCurrentSession, wp_modify, callInvoke, recordCall, sessionAt, wp_get, hs, wp_pure, wp_set, teeTaPopCurrentSession, State.entryCall,
    State.entry]

theorem wp_enterInvokeCmd_pseudo (tas : Tas τ) (cmd : Nat) (param : TeeTaParam)
    {Q : Nat × TeeTaParam × Nat → State τ → Prop} (hs : k.heap.blocks s = some (.session b))
    (hc : k.heap.blocks b.ctx = some (.pseudoCtx ta)) :
    wp (enterInvokeCmd tas b.ctx s cmd param) Q k ↔
      let q := pseudoCopyIn param (tas.paramJunk k.world)
      let r := ta.invokeCommand k.world b.userCtx cmd param.types q
      Q (r.res, pseudoUpdateOut r.params param, teeOriginTrustedApp)
        (k.entryCall .invokeCmd s b.ctx cmd param.types q r.world) := by
  simp only [enterInvokeCmd, pseudoTaEnterInvokeCmd, wp_bind, wp_isUserCtx_pseudo hc,
    Bool.false_eq_true, if_false, wp_pseudoCtxAt hc, wp_entering,
    teeTaPushCurrentSession, wp_modify, callInvoke, recordCall, sessionAt, wp_get, hs, wp_pure,
    wp_set, teeTaPopCurrentSession, State.entryCall, State.entry]

/-- the world after the close entry point -/
def closeWorld (f : Option (τ → Nat → τ)) (w : τ) (userCtx : Nat) : τ :=
  match f with
  | none => w
  | some f => f w userCtx

theorem wp_callClose {f : Option (τ → Nat → τ)} {Q : Unit → State τ → Prop}
    (hs : k.heap.blocks s = some (.session b)) :
    wp (callClose f s) Q k ↔ Q () { k with world := closeWorld f k.world b.userCtx } := by
  cases f with
  | none => exact Iff.rfl
  | some f => simp only [callClose, wp_bind, wp_sessionAt hs, wp_modify, closeWorld]

theorem wp_enterCloseSession_user {Q : Unit → State τ → Prop}
    (hs : k.heap.blocks s = some (.session b))
    (hc : k.heap.blocks b.ctx = some (.userCtx ta l)) :
    wp (enterCloseSession b.ctx s) Q k ↔
      Q () (k.entry .closeSession s b.ctx (closeWorld ta.closeSession k.world b.userCtx)) := by
  have hs' : ({ k with currentSession := s } : State τ).heap.blocks s = some (.session b) := hs
  simp only [enterCloseSession, userTaEnterCloseSession, wp_bind, wp_isUserCtx_user hc, if_true,
    wp_sessionAt hs, wp_userCtxAt hc, wp_entering, teeTaPushCurrentSession, wp_modify, wp_get,
    wp_callClose hs', wp_pure, teeTaPopCurrentSession, State.entry]

theorem wp_enterCloseSession_pseudo {Q : Unit → State τ → Prop}
    (hs : k.heap.blocks s = some (.session b))
    (hc : k.heap.blocks b.ctx = some (.pseudoCtx ta)) :
    wp (enterCloseSession b.ctx s) Q k ↔
      Q () (k.entry .closeSession s b.ctx (closeWorld ta.closeSession k.world b.userCtx)) := by
  have hs' : ({ k with currentSession := s } : State τ).heap.blocks s = some (.session b) := hs
  simp only [enterCloseSession, pseudoTaEnterCloseSession, wp_bind, wp_isUserCtx_pseudo hc,
    Bool.false_eq_true, if_false, wp_sessionAt hs, wp_pseudoCtxAt hc, wp_entering,
    teeTaPushCurrentSession, wp_modify, wp_get, wp_callClose hs', wp_pure,
    teeTaPopCurrentSession, State.entry]

theorem TeeTaParam.write_params (p : TeeTaParam) : p.write p.params = p := by
  unfold TeeTaParam.write TeeTaParam.params
  congr 1
  funext n
  split <;> rfl

theorem wp_enterOpenSession_user (tas : Tas τ) (param : TeeTaParam) (eo : Nat)
    {Q : Nat × TeeTaParam × Nat → State τ → Prop} (hs : k.heap.blocks s = some (.session b))
    (hc : k.heap.blocks b.ctx = some (.userCtx ta l)) :
    wp (enterOpenSession tas b.ctx s param eo) Q k ↔
      match ta.openSession with
      | none => Q (teeErrorGeneric, param, eo) (k.entry .openSession s b.ctx k.world)
      | some f =>
        let r := f k.world param.types param.params b.userCtx
        Q (r.res, param.write r.params, eo)
          ((k.entryCall .openSession s b.ctx 0 param.types param.params r.world).store s
            (.session { b with userCtx := r.userCtx })) := by
  cases hf : ta.openSession with
  | none =>
    simp only [enterOpenSession, userTaEnterOpenSession, wp_bind, wp_isUserCtx_user hc, if_true,
      wp_sessionAt hs, wp_userCtxAt hc, wp_entering, teeTaPushCurrentSession, wp_modify, hf,
      wp_get, wp_pure, teeTaPopCurrentSession, State.entry, TeeTaParam.write_params]
  | some f =>
    simp only [enterOpenSession, userTaEnterOpenSession, wp_bind, wp_isUserCtx_user hc, if_true,
      wp_userCtxAt hc, wp_entering, teeTaPushCurrentSession, wp_modify, hf, callOpen, recordCall,
      sessionAt, wp_get, hs, wp_pure, wp_set, teeTaPopCurrentSession, State.entryCall,
      State.entry, State.store]

theorem wp_enterOpenSession_pseudo (tas : Tas τ) (param : TeeTaParam) (eo : Nat)
    {Q : Nat × TeeTaParam × Nat → State τ → Prop} (hs : k.heap.blocks s = some (.session b))
    (hc : k.heap.blocks b.ctx = some (.pseudoCtx ta)) :
    wp (enterOpenSession tas b.ctx s param eo) Q k ↔
      match ta.openSession with
      | none => Q (teeSuccess, param, teeOriginTrustedApp)
          (k.entry .openSession s b.ctx k.world)
      | some f =>
        let q := pseudoCopyIn param (tas.paramJunk k.world)
        let r := f k.world param.types q b.userCtx
        Q (r.res, pseudoUpdateOut r.params param, teeOriginTrustedApp)
          ((k.entryCall .openSession s b.ctx 0 param.types q r.world).store s
            (.session { b with userCtx := r.userCtx })) := by
  cases hf : ta.openSession with
  | none =>
    simp only [enterOpenSession, pseudoTaEnterOpenSession, wp_bind, wp_isUserCtx_pseudo hc,
      Bool.false_eq_true, if_false, wp_sessionAt hs, wp_pseudoCtxAt hc, wp_entering,
      teeTaPushCurrentSession, wp_modify, hf, wp_get, wp_pure, teeTaPopCurrentSession,
      State.entry]
  | some f =>
    simp only [enterOpenSession, pseudoTaEnterOpenSession, wp_bind, wp_isUserCtx_pseudo hc,
      Bool.false_eq_true, if_false, wp_pseudoCtxAt hc, wp_entering, teeTaPushCurrentSession,
      wp_modify, hf, callOpen, recordCall, sessionAt, wp_get, hs, wp_pure, wp_set,
      teeTaPopCurrentSession, State.entryCall, State.entry, State.store]

end

/-! ## what every entry has in common -/

/-- An entry function for session `s`: it leaves `s` current, may change the session's
`user_ctx` and the world, and touches no queue and no other block. -/
structure EnterEffect (kind : EntryKind) (s : Nat) (b : Session) (k t : State τ) : Prop where
  heap : ∃ u, t.heap = k.heap.store s (.session { b with userCtx := u })
  openSessions : t.openSessions = k.openSessions
  ctxes : t.ctxes = k.ctxes
  currentSession : t.currentSession = s
  entered : t.entered = ⟨kind, s, b.ctx, k.currentSession, s⟩ :: k.entered

/-- the block is the context of a TA -/
def IsCtx : Block τ → Prop
  | .session _ => False
  | .userCtx _ _ => True
  | .pseudoCtx _ => True

/-- the result of the open entry of the TA with context block `c` -/
def taOpenRes (tas : Tas τ) (c : Block τ) (w : τ) (param : TeeTaParam) (userCtx : Nat) : Nat :=
  match c with
  | .session _ => teeErrorGeneric
  | .userCtx ta _ =>
    match ta.openSession with
    | none => teeErrorGeneric
    | some f => (f w param.types param.params userCtx).res
  | .pseudoCtx ta =>
    match ta.openSession with
    | none => teeSuccess
    | some f => (f w param.types (pseudoCopyIn param (tas.paramJunk w)) userCtx).res

section
variable {s : Nat} {b : Session} {c : Block τ}

theorem entry_effect (kind : EntryKind) (w : τ) (hs : k.heap.blocks s = some (.session b)) :
    EnterEffect kind s b k (k.entry kind s b.ctx w) :=
  ⟨⟨b.userCtx, (Heap.store_self hs).symm⟩, rfl, rfl, rfl, rfl⟩

theorem enterInvokeCmd_effect (tas : Tas τ) (cmd : Nat) (param : TeeTaParam)
    (hs : k.heap.blocks s = some (.session b)) (hc : k.heap.blocks b.ctx = some c)
    (hctx : IsCtx c) : wp (enterInvokeCmd tas b.ctx s cmd param)
      (fun _ t => EnterEffect .invokeCmd s b k t) k := by
  cases c with
  | session _ => exact absurd hctx id
  | userCtx ta l =>
    rw [wp_enterInvokeCmd_user tas cmd param hs hc]
    exact ⟨⟨b.userCtx, (Heap.store_self hs).symm⟩, rfl, rfl, rfl, rfl⟩
  | pseudoCtx ta =>
    rw [wp_enterInvokeCmd_pseudo tas cmd param hs hc]
    exact ⟨⟨b.userCtx, (Heap.store_self hs).symm⟩, rfl, rfl, rfl, rfl⟩

theorem enterCloseSession_effect (hs : k.heap.blocks s = some (.session b))
    (hc : k.heap.blocks b.ctx = some c) (hctx : IsCtx c) :
    wp (enterCloseSession b.ctx s) (fun _ t => EnterEffect .closeSession s b k t) k := by
  cases c with
  | session _ => exact absurd hctx id
  | userCtx ta l =>
    rw [wp_enterCloseSession_user hs hc]
    exact entry_effect _ _ hs
  | pseudoCtx ta =>
    rw [wp_enterCloseSession_pseudo hs hc]
    exact entry_effect _ _ hs

theorem enterOpenSession_effect (tas : Tas τ) (param : TeeTaParam) (eo : Nat)
    (hs : k.heap.blocks s = some (.session b)) (hc : k.heap.blocks b.ctx = some c)
    (hctx : IsCtx c) : wp (enterOpenSession tas b.ctx s param eo)
      (fun r t => r.1 = taOpenRes tas c k.world param b.userCtx ∧
        EnterEffect .openSession s b k t) k := by
  cases c with
  | session _ => exact absurd hctx id
  | userCtx ta l =>
    rw [wp_enterOpenSession_user tas param eo hs hc, taOpenRes]
    cases ta.openSession with
    | none => exact ⟨rfl, entry_effect _ _ hs⟩
    | some f => exact ⟨rfl, ⟨_, rfl⟩, rfl, rfl, rfl, rfl⟩
  | pseudoCtx ta =>
    rw [wp_enterOpenSession_pseudo tas param eo hs hc, taOpenRes]
    cases ta.openSession with
    | none => exact ⟨rfl, entry_effect _ _ hs⟩
    | some f => exact ⟨rfl, ⟨_, rfl⟩, rfl, rfl, rfl, rfl⟩

end

/-! ## `tee_ta_init_session` -/

/-- the context block a UUID leads to -/
def findTa (tas : Tas τ) (uuid : Uuid) : Option (Block τ) :=
  match tas.pseudo.find? fun h => h.uuid = uuid with
  | some ta => some (.pseudoCtx ta)
  | none => (tas.user.find? fun h => h.uuid = uuid).map fun ta => .userCtx ta []

/-- `tee_ta_init_session` gets a session block, a TA and a context block -/
def Openable (tas : Tas τ) (k : State τ) (uuid : Uuid) : Prop :=
  ¬ k.heap.Full ∧ (findTa tas uuid).isSome = true ∧
    ¬ (k.heap.alloc (.session ⟨0, 0⟩)).2.Full

instance (tas : Tas τ) (k : State τ) (uuid : Uuid) : Decidable (Openable tas k uuid) :=
  inferInstanceAs (Decidable (_ ∧ _ ∧ _))

theorem findTa_isCtx {tas : Tas τ} {uuid : Uuid} {c : Block τ} (h : findTa tas uuid = some c) :
    IsCtx c := by
  unfold findTa at h
  split at h
  · cases h
    trivial
  · obtain ⟨ta, -, rfl⟩ := Option.map_eq_some_iff.mp h
    trivial

/-- the queue a `SessionHead` stands for -/
def State.sessions (k : State τ) : SessionHead → Option (List Nat)
  | .teeOpenSessions => some k.openSessions
  | .ofCtx c =>
    match k.heap.blocks c with
    | some (.userCtx _ l) => some l
    | _ => none

def State.setSessions (k : State τ) (l : List Nat) : SessionHead → State τ
  | .teeOpenSessions => { k with openSessions := l }
  | .ofCtx c =>
    match k.heap.blocks c with
    | some (.userCtx ta _) => k.store c (.userCtx ta l)
    | _ => k

theorem wp_sessionsOf {head : SessionHead} {l : List Nat} {Q : List Nat → State τ → Prop}
    (h : k.sessions head = some l) : wp (sessionsOf head) Q k ↔ Q l k := by
  cases head with
  | teeOpenSessions =>
    cases h
    exact Iff.rfl
  | ofCtx c =>
    simp only [State.sessions] at h
    split at h
    · rename_i ta l' hb
      cases h
      simp only [sessionsOf, wp_bind, wp_userCtxAt hb, wp_pure]
    · cases h

theorem wp_setSessionsOf {head : SessionHead} {l l' : List Nat} {Q : Unit → State τ → Prop}
    (h : k.sessions head = some l) :
    wp (setSessionsOf head l') Q k ↔ Q () (k.setSessions l' head) := by
  cases head with
  | teeOpenSessions => exact Iff.rfl
  | ofCtx c =>
    simp only [State.sessions] at h
    split at h
    · rename_i ta l' hb
      simp only [setSessionsOf, wp_bind, wp_userCtxAt hb, wp_storeAt, State.setSessions, hb]
    · cases h

theorem wp_teeTaUnlinkSession {head : SessionHead} {l : List Nat} {s : Nat}
    {Q : Unit → State τ → Prop} (h : k.sessions head = some l) (hs : s ∈ l) :
    wp (teeTaUnlinkSession s head) Q k ↔ Q () (k.setSessions (l.erase s) head) := by
  simp only [teeTaUnlinkSession, wp_bind, wp_sessionsOf h, wp_unlinked hs, wp_setSessionsOf h]

theorem wp_insertSession {head : SessionHead} {l : List Nat} {s : Nat}
    {Q : Unit → State τ → Prop} (h : k.sessions head = some l) :
    wp (insertSession head s) Q k ↔ Q () (k.setSessions (s :: l) head) := by
  simp only [insertSession, wp_bind, wp_sessionsOf h, wp_setSessionsOf h]

theorem wp_linkNewCtx_full {c : Block τ} {s : Nat} {Q : Nat → State τ → Prop}
    (hf : k.heap.Full) : wp (linkNewCtx c s) Q k ↔
      Q teeErrorOutOfMemory { k with heap := { k.heap with calls := k.heap.calls + 1 } } := by
  simp only [linkNewCtx, wp_bind, wp_teeMalloc, Heap.alloc_full c hf, if_true, wp_pure]

/-- the state after a new context `c` for session `s` with block `b` -/
def State.linkCtx (k : State τ) (c : Block τ) (s : Nat) (b : Session) : State τ :=
  { k with
    heap := (k.heap.alloc c).2.store s (.session { b with ctx := (k.heap.alloc c).1 })
    ctxes := (k.heap.alloc c).1 :: k.ctxes }

theorem wp_linkNewCtx {c : Block τ} {s : Nat} {b : Session} {Q : Nat → State τ → Prop}
    (hf : ¬ k.heap.Full) (hs : k.heap.blocks s = some (.session b)) :
    wp (linkNewCtx c s) Q k ↔ Q teeSuccess (k.linkCtx c s b) := by
  obtain ⟨h, -, -⟩ | ⟨-, h0, hn, hb⟩ := k.heap.alloc_cases c
  · exact absurd h hf
  have hs' : ({ k with heap := (k.heap.alloc c).2 } : State τ).heap.blocks s
      = some (.session b) := by
    show (k.heap.alloc c).2.blocks s = _
    rw [hb, Function.update_of_ne, hs]
    intro e
    rw [← e, hs] at hn
    cases hn
  simp only [linkNewCtx, wp_bind, wp_teeMalloc, if_neg h0, wp_sessionAt hs', wp_storeAt,
    wp_insertCtx, wp_pure]
  exact Iff.rfl

theorem wp_initCtx_none {tas : Tas τ} {uuid : Uuid} {s : Nat} {Q : Nat → State τ → Prop}
    (h : findTa tas uuid = none) : wp (initCtx tas uuid s) Q k ↔ Q teeErrorItemNotFound k := by
  unfold findTa at h
  cases hp : tas.pseudo.find? fun h => h.uuid = uuid with
  | some ta =>
    rw [hp] at h
    cases h
  | none =>
    rw [hp] at h
    have hu : (tas.user.find? fun h => h.uuid = uuid) = none := Option.map_eq_none_iff.mp h
    simp only [initCtx, teeTaInitPseudoTaSession, hp, teeTaInitUserTaSession, hu, wp_bind, wp_pure,
      teeErrorItemNotFound, teeSuccess]
    exact Iff.rfl

theorem wp_initCtx_full {tas : Tas τ} {uuid : Uuid} {s : Nat} {c : Block τ}
    {Q : Nat → State τ → Prop} (h : findTa tas uuid = some c) (hf : k.heap.Full) :
    wp (initCtx tas uuid s) Q k ↔
      Q teeErrorOutOfMemory { k with heap := { k.heap with calls := k.heap.calls + 1 } } := by
  unfold findTa at h
  cases hp : tas.pseudo.find? fun h => h.uuid = uuid with
  | some ta =>
    simp only [initCtx, teeTaInitPseudoTaSession, hp, wp_bind, wp_linkNewCtx_full hf,
      teeErrorOutOfMemory, teeErrorItemNotFound, teeSuccess]
    exact Iff.rfl
  | none =>
    rw [hp] at h
    obtain ⟨ta, hu, rfl⟩ := Option.map_eq_some_iff.mp h
    simp only [initCtx, teeTaInitPseudoTaSession, hp, teeTaInitUserTaSession, hu, wp_bind, wp_pure,
      teeErrorItemNotFound, teeSuccess]
    exact wp_linkNewCtx_full hf

theorem wp_initCtx {tas : Tas τ} {uuid : Uuid} {s : Nat} {b : Session} {c : Block τ}
    {Q : Nat → State τ → Prop} (h : findTa tas uuid = some c) (hf : ¬ k.heap.Full)
    (hs : k.heap.blocks s = some (.session b)) :
    wp (initCtx tas uuid s) Q k ↔ Q teeSuccess (k.linkCtx c s b) := by
  unfold findTa at h
  cases hp : tas.pseudo.find? fun h => h.uuid = uuid with
  | some ta =>
    rw [hp] at h
    cases h
    simp only [initCtx, teeTaInitPseudoTaSession, hp, wp_bind, wp_linkNewCtx hf hs]
    exact Iff.rfl
  | none =>
    rw [hp] at h
    obtain ⟨ta, hu, rfl⟩ := Option.map_eq_some_iff.mp h
    simp only [initCtx, teeTaInitPseudoTaSession, hp, teeTaInitUserTaSession, hu, wp_bind, wp_pure,
      teeErrorItemNotFound, teeSuccess]
    exact wp_linkNewCtx hf hs

/-- the address the next allocation gives, and the one after it -/
def State.sessAddr (k : State τ) : Nat := k.heap.answers k.heap.calls
def State.ctxAddr (k : State τ) : Nat := k.heap.answers (k.heap.calls + 1)

/-- the state with a zeroed session block -/
def State.withSession (k : State τ) : State τ :=
  { k with heap := (k.heap.alloc (.session ⟨0, 0⟩)).2 }

theorem alloc_session (hf : ¬ k.heap.Full) : k.heap.alloc (.session ⟨0, 0⟩) = (k.sessAddr,
    { k.heap.store k.sessAddr (.session ⟨0, 0⟩) with calls := k.heap.calls + 1 }) :=
  Heap.alloc_not_full _ hf

theorem sessAddr_fresh (hf : ¬ k.heap.Full) :
    k.sessAddr ≠ 0 ∧ k.heap.blocks k.sessAddr = none :=
  ⟨(Heap.not_full_iff.mp hf).1, (Heap.not_full_iff.mp hf).2.2⟩

theorem wp_teeTaInitSession {tas : Tas τ} {head : SessionHead} {uuid : Uuid} {l : List Nat}
    {Q : Nat × Nat → State τ → Prop} (hf : ¬ k.heap.Full)
    (hl : k.withSession.sessions head = some l) :
    wp (teeTaInitSession tas head uuid) Q k ↔
      wp (initCtx tas uuid k.sessAddr) (fun res => wp (finishInit head k.sessAddr res) Q)
        (k.withSession.setSessions (k.sessAddr :: l) head) := by
  have hs : (k.heap.alloc (.session ⟨0, 0⟩)).1 = k.sessAddr := by rw [alloc_session hf]
  rw [teeTaInitSession, wp_bind, wp_teeMalloc, hs, if_neg (sessAddr_fresh hf).1, wp_bind]
  show wp (insertSession head k.sessAddr) _ k.withSession ↔ _
  rw [wp_insertSession hl, wp_bind]

theorem State.sessions_withSession {head : SessionHead} {l : List Nat}
    (hf : ¬ k.heap.Full) (h : k.sessions head = some l) :
    k.withSession.sessions head = some l := by
  cases head with
  | teeOpenSessions => exact h
  | ofCtx d =>
    have hn := (sessAddr_fresh hf).2
    have hd : d ≠ k.sessAddr := by
      rintro rfl
      simp only [State.sessions, hn] at h
      cases h
    rw [State.withSession, alloc_session hf]
    simp only [State.sessions, Heap.store, Function.update_of_ne hd] at h ⊢
    exact h

/-- the state is as before, but for the number of allocator calls -/
def SameButCalls (k t : State τ) : Prop :=
  t = { k with heap := { k.heap with calls := t.heap.calls } }

/-- Undoing the insertion of a session that got no context. -/
theorem wp_finishInit_undo {head : SessionHead} {l : List Nat} {res : Nat}
    (hres : res ≠ teeSuccess) (hf : ¬ k.heap.Full) (hl : k.sessions head = some l) {t : State τ}
    (ht : SameButCalls (k.withSession.setSessions (k.sessAddr :: l) head) t) :
    wp (finishInit head k.sessAddr res)
      (fun r u => r = (res, 0) ∧ SameButCalls k u) t := by
  obtain ⟨h0, hn⟩ := sessAddr_fresh hf
  rw [State.withSession, alloc_session hf] at ht
  generalize k.sessAddr = s at *
  cases head with
  | teeOpenSessions =>
    cases hl
    have hb : t.heap.blocks s = some (.session ⟨0, 0⟩) := by
      rw [ht]
      exact Function.update_self _ _ _
    have ho : t.sessions .teeOpenSessions = some (s :: k.openSessions) := by
      rw [ht]
      rfl
    have hb' : (t.setSessions k.openSessions .teeOpenSessions).heap.blocks s
        = some (.session ⟨0, 0⟩) := hb
    simp only [finishInit, if_neg hres, wp_bind, wp_teeTaUnlinkSession ho List.mem_cons_self,
      List.erase_cons_head, wp_teeFree h0 hb', wp_pure, true_and]
    rw [SameButCalls, ht]
    simp only [State.setSessions, State.erase, Heap.erase, Heap.store]
    rw [Function.update_idem, ← hn, Function.update_eq_self]
  | ofCtx d =>
    simp only [State.sessions] at hl
    split at hl
    · rename_i ta l' hd
      injection hl with hl
      subst hl
      have hds : d ≠ s := by
        rintro rfl
        rw [hd] at hn
        cases hn
      have hset : ({ k with heap := { k.heap.store s (.session ⟨0, 0⟩) with
            calls := k.heap.calls + 1 } } : State τ).setSessions (s :: l') (.ofCtx d)
          = { k with heap := ⟨Function.update (Function.update k.heap.blocks s
              (some (.session ⟨0, 0⟩))) d (some (.userCtx ta (s :: l'))), k.heap.answers,
              k.heap.calls + 1⟩ } := by
        simp only [State.setSessions, Heap.store, Function.update_of_ne hds, hd, State.store]
      rw [hset] at ht
      have hbd : t.heap.blocks d = some (.userCtx ta (s :: l')) := by
        rw [ht]
        exact Function.update_self _ _ _
      have ho : t.sessions (.ofCtx d) = some (s :: l') := by
        simp only [State.sessions, hbd]
      have hset' : t.setSessions l' (.ofCtx d) = t.store d (.userCtx ta l') := by
        simp only [State.setSessions, hbd]
      have hb' : (t.store d (.userCtx ta l')).heap.blocks s = some (.session ⟨0, 0⟩) := by
        rw [ht]
        simp only [State.store, Heap.store]
        rw [Function.update_of_ne hds.symm, Function.update_of_ne hds.symm, Function.update_self]
      simp only [finishInit, if_neg hres, wp_bind, wp_teeTaUnlinkSession ho List.mem_cons_self,
        List.erase_cons_head, hset', wp_teeFree h0 hb', wp_pure, true_and]
      rw [SameButCalls, ht]
      simp only [State.store, State.erase, Heap.erase, Heap.store]
      congr 2
      funext a
      by_cases ha : a = s
      · subst ha
        rw [Function.update_self, hn]
      · rw [Function.update_of_ne ha]
        by_cases had : a = d
        · subst had
          rw [Function.update_self, hd]
        · rw [Function.update_of_ne had, Function.update_of_ne had, Function.update_of_ne ha]
    · cases hl

theorem State.setSessions_full {head : SessionHead} {l l' : List Nat}
    (h : k.sessions head = some l) : (k.setSessions l' head).heap.Full ↔ k.heap.Full := by
  cases head with
  | teeOpenSessions => exact Iff.rfl
  | ofCtx d =>
    simp only [State.sessions] at h
    split at h
    · rename_i ta l'' hd
      simp only [State.setSessions, hd, State.store, Heap.store, Heap.Full]
      by_cases ha : k.heap.answers k.heap.calls = d
      · rw [ha, Function.update_self, hd]
        exact Iff.rfl
      · rw [Function.update_of_ne ha]
    · cases h

/-- writing a queue back touches no session block and nothing but that queue -/
theorem State.setSessions_frame {head : SessionHead} {l : List Nat} (l' : List Nat)
    (h : k.sessions head = some l) :
    (k.setSessions l' head).heap.answers = k.heap.answers ∧
    (k.setSessions l' head).heap.calls = k.heap.calls ∧
    (k.setSessions l' head).currentSession = k.currentSession ∧
    ∀ a b, k.heap.blocks a = some (.session b) →
      (k.setSessions l' head).heap.blocks a = some (.session b) := by
  cases head with
  | teeOpenSessions => exact ⟨rfl, rfl, rfl, fun a b hb => hb⟩
  | ofCtx d =>
    simp only [State.sessions] at h
    split at h
    · rename_i ta l'' hd
      simp only [State.setSessions, hd]
      refine ⟨rfl, rfl, rfl, ?_⟩
      intro a b hb
      have had : a ≠ d := by
        rintro rfl
        rw [hd] at hb
        cases hb
      show Function.update k.heap.blocks d _ a = _
      rw [Function.update_of_ne had, hb]
    · cases h

/-- **A refused open leaves no trace.** -/
theorem initSession_refused {tas : Tas τ} {head : SessionHead} {uuid : Uuid} {l : List Nat}
    (hl : k.sessions head = some l) (h : ¬ Openable tas k uuid) :
    wp (teeTaInitSession tas head uuid) (fun r t => r.1 ≠ teeSuccess ∧ SameButCalls k t) k := by
  by_cases hf : k.heap.Full
  · simp only [teeTaInitSession, wp_bind, wp_teeMalloc, Heap.alloc_full _ hf, if_true, wp_pure]
    exact ⟨by decide, rfl⟩
  have hl' := State.sessions_withSession hf hl
  rw [wp_teeTaInitSession hf hl']
  cases hta : findTa tas uuid with
  | none =>
    rw [wp_initCtx_none hta]
    refine wp_mono (wp_finishInit_undo (by decide) hf hl rfl) ?_
    rintro r t ⟨rfl, ht⟩
    exact ⟨by decide, ht⟩
  | some c =>
    have hf' : (k.heap.alloc (.session ⟨0, 0⟩)).2.Full := by
      by_contra hn
      exact h ⟨hf, by rw [hta]; rfl, hn⟩
    rw [wp_initCtx_full hta ((State.setSessions_full hl').mpr hf')]
    refine wp_mono (wp_finishInit_undo (by decide) hf hl rfl) ?_
    rintro r t ⟨rfl, ht⟩
    exact ⟨by decide, ht⟩

/-- the state with a new session of the normal world and its context `c` -/
def State.withNew (k : State τ) (c : Block τ) : State τ :=
  { k with
    heap := ⟨Function.update (Function.update k.heap.blocks k.sessAddr
      (some (.session ⟨k.ctxAddr, 0⟩))) k.ctxAddr (some c), k.heap.answers, k.heap.calls + 2⟩
    openSessions := k.sessAddr :: k.openSessions
    ctxes := k.ctxAddr :: k.ctxes }

theorem Openable.fresh {tas : Tas τ} {uuid : Uuid} (h : Openable tas k uuid) :
    k.sessAddr ≠ 0 ∧ k.heap.blocks k.sessAddr = none ∧ k.ctxAddr ≠ 0 ∧
      k.heap.blocks k.ctxAddr = none ∧ k.ctxAddr ≠ k.sessAddr := by
  obtain ⟨hf, -, hf'⟩ := h
  obtain ⟨h0, -, hn⟩ := Heap.not_full_iff.mp hf
  rw [Heap.alloc_not_full _ hf] at hf'
  obtain ⟨h0', -, hn'⟩ := Heap.not_full_iff.mp hf'
  simp only [Heap.store] at h0' hn'
  have hne : k.ctxAddr ≠ k.sessAddr := by
    intro e
    unfold State.ctxAddr State.sessAddr at e
    rw [e, Function.update_self] at hn'
    cases hn'
  have hn'' : k.heap.blocks k.ctxAddr = none := by
    rw [← hn']
    exact (Function.update_of_ne hne _ _).symm
  exact ⟨h0, hn, h0', hn'', hne⟩

/-- **An open that finds its TA and its memory.** -/
theorem initSession_opened {tas : Tas τ} {uuid : Uuid} {c : Block τ}
    (h : Openable tas k uuid) (hc : findTa tas uuid = some c) :
    wp (teeTaInitSession tas .teeOpenSessions uuid)
      (fun r t => r = (teeSuccess, k.sessAddr) ∧ t = k.withNew c) k := by
  obtain ⟨hf, -, hf'⟩ := id h
  obtain ⟨-, -, -, -, hne⟩ := h.fresh
  have hl : k.sessions .teeOpenSessions = some k.openSessions := rfl
  have hl' := State.sessions_withSession hf hl
  rw [wp_teeTaInitSession hf hl']
  have hs : (k.withSession.setSessions (k.sessAddr :: k.openSessions)
      .teeOpenSessions).heap.blocks k.sessAddr = some (.session ⟨0, 0⟩) := by
    rw [State.withSession, alloc_session hf]
    exact Function.update_self _ _ _
  rw [wp_initCtx hc (by rw [State.setSessions_full hl']; exact hf') hs]
  simp only [finishInit, if_true, wp_pure, true_and]
  unfold State.linkCtx
  simp only [State.setSessions, State.withSession]
  rw [Heap.alloc_not_full _ hf']
  rw [Heap.alloc_not_full _ hf]
  simp only [State.withNew, Heap.store, State.sessAddr, State.ctxAddr] at hne ⊢
  congr 2
  rw [Function.update_comm hne, Function.update_idem]

end

end MTower.Kernel
