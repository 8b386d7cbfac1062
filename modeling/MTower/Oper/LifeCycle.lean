import MTower.Cryp.Secret
import MTower.Oper.Allocation

/-!
# The life cycle of a cipher or MAC operation

* `Step`, `useOperation`   one handle is allocated, and then used by calls with any arguments;
* `context`, `Proper`      the record of the library: bytes only go to a context that was made
                           from the keys set last, with no end, reset or change of keys behind it;
* `Orderly`                the flags of the handle, its key objects and the record agree;
* `orderly_run`            in every state reached the handle is in order.

A run that panics has no later state, and neither has one that leaves the memory it is given.
-/

set_option linter.unusedVariables false

namespace MTower.Oper
open Lib Kernel Cryp

variable {c : Crypto} {s t : Sys} {h : Nat} {o o' : Operation} {u : Utc} {log : List Event}

/-! ## runs -/

/-- a call on the handle -/
inductive Step where
  | setOperationKey (key : Nat)
  | setOperationKey2 (key1 key2 : Nat)
  | resetOperation
  | cipherInit (iv : Ptr) (ivLen : Nat)
  | cipherUpdate (src : Ptr) (srcLen : Nat) (dest : Bool) (destLen : Option Nat)
  | cipherDoFinal (src : Ptr) (srcLen : Nat) (dest : Bool) (destLen : Option Nat)
  | macInit
  | macUpdate (chunk : Ptr) (chunkSize : Nat)
  | macComputeFinal (message : Ptr) (messageLen : Nat) (mac : Bool) (macLen : Option Nat)
  | macCompareFinal (message : Ptr) (messageLen : Nat) (mac : Ptr) (macLen : Nat)

def Step.entry (h : Nat) : Step → Entry
  | .setOperationKey k => .setOperationKey h k
  | .setOperationKey2 k l => .setOperationKey2 h k l
  | .resetOperation => .resetOperation h
  | .cipherInit p n => .cipherInit h p n
  | .cipherUpdate p n b l => .cipherUpdate h p n b l
  | .cipherDoFinal p n b l => .cipherDoFinal h p n b l
  | .macInit => .macInit h
  | .macUpdate p n => .macUpdate h p n
  | .macComputeFinal p n b l => .macComputeFinal h p n b l
  | .macCompareFinal p n m l => .macCompareFinal h p n m l

/-- a handle is allocated and then used; the result and the handle of the allocation -/
def useOperation (c : Crypto) (algorithm mode maxKeySize : Nat) (l : List Step) : O (Nat × Nat) := do
  let r ← teeAllocateOperation c true algorithm mode maxKeySize
  if r.1 ≠ teeSuccess then pure r
  else do
    run (fun x => Oper.entry c (x.entry r.2)) l
    pure r

/-! ## the record -/

abbrev Keys := List UInt8 × Option (List UInt8)

/-- the keys that were set last -/
def lastKeys : List Event → Option Keys
  | [] => none
  | .setKey k l :: _ => some (k, l)
  | _ :: log => lastKeys log

/-- the keys of the context of `st`: the ones of the last init, unless the context ended, the
operation was reset or the keys changed since then -/
def context (st : Nat) : List Event → Option Keys
  | [] => none
  | .init q k l _ :: log => if q = st then some (k, l) else context st log
  | .feed _ _ :: log => context st log
  | .final q _ _ :: log => if q = st then none else context st log
  | .copy q _ :: log => if q = st then none else context st log
  | .authenc q _ :: log => if q = st then none else context st log
  | .setKey _ _ :: _ => none
  | .reset :: _ => none

/-- behind `log` the state `st` has a context of the keys set last -/
def Ready (st : Nat) (log : List Event) : Prop :=
  (context st log).isSome = true ∧ context st log = lastKeys log

/-- every byte is processed by a context of the keys set last -/
def Proper : List Event → Prop
  | [] => True
  | .feed st _ :: log => Ready st log ∧ Proper log
  | .final st _ _ :: log => Ready st log ∧ Proper log
  | _ :: log => Proper log

/-- bytes that are fed to a context leave it as it is -/
theorem Ready.feed {st : Nat} {l : List Event} (hl : ∀ e ∈ l, ∃ d, e = Event.feed st d)
    (hr : Ready st log) (hp : Proper log) : Ready st (l ++ log) ∧ Proper (l ++ log) := by
  induction l with
  | nil => exact ⟨hr, hp⟩
  | cons e l ih =>
    obtain ⟨d, rfl⟩ := hl e List.mem_cons_self
    obtain ⟨h1, h2⟩ := ih fun e he => hl e (List.mem_cons_of_mem _ he)
    exact ⟨h1, h1, h2⟩

/-! ## a handle in order -/

structure Orderly (o : Operation) (u : Utc) (log : List Event) : Prop where
  active : o.operationState = teeOperationStateActive ↔ o.has teeHandleFlagInitialized = true
  keySet : o.operationState = teeOperationStateActive → o.has teeHandleFlagKeySet = true
  keys : o.has teeHandleFlagKeySet = true → ∃ k l, lastKeys log = some (k, l) ∧
    KeyIs u o.key1 k ∧ (o.info.algorithm = teeAlgAesXts → ∃ k', l = some k' ∧ KeyIs u o.key2 k')
  proper : Proper log

/-- the handle and its state in the kernel belong together -/
structure Attached (c : Crypto) (o : Operation) (u : Utc) : Prop where
  core : Core c.provider u
  cls : o.info.operationClass = teeAlgGetClass o.info.algorithm
  kind : o.info.operationClass = teeOperationCipher ∨ o.info.operationClass = teeOperationMac
  two : o.has teeHandleFlagExpectTwoKeys = true ↔ o.info.algorithm = teeAlgAesXts
  state : ∃ cs, u.st o.state = some cs ∧ cs.algo = o.info.algorithm ∧ cs.key1 = o.key1 ∧
    cs.key2 = o.key2 ∧ (o.info.operationClass = teeOperationCipher → cs.ctx ≠ 0) ∧
    cs.mode = o.info.mode
  key1 : KeyObject u o.key1
  key2 : o.has teeHandleFlagExpectTwoKeys = true → KeyObject u o.key2 ∧ o.key1 ≠ o.key2
  noKey2 : o.has teeHandleFlagExpectTwoKeys = false → o.key2 = 0

/-- the invariant of a handle -/
structure Good (c : Crypto) (o : Operation) (u : Utc) (log : List Event) : Prop
    extends Attached c o u, Orderly o u log where
  two_states : o.operationState = teeOperationStateInitial ∨
    o.operationState = teeOperationStateActive
  oneKey : o.has teeHandleFlagKeySet = true → o.has teeHandleFlagExpectTwoKeys = false →
    ∃ k, lastKeys log = some (k, none)
  ready : o.operationState = teeOperationStateActive → Ready o.state log

def GoodAt (c : Crypto) (h : Nat) (s : Sys) : Prop :=
  ∃ o, s.heap.blocks h = some (.op o) ∧ Good c o s.utc s.log

/-! ## flags -/

theorem has_setFlag (o : Operation) (f g : Nat) :
    (o.setFlag f).has g = (o.has g || f &&& g != 0) := by
  unfold Operation.has Operation.setFlag
  rw [Nat.and_or_distrib_right, Bool.eq_iff_iff]
  simp only [bne_iff_ne, Bool.or_eq_true, ne_eq, Nat.or_eq_zero_iff, not_and_or]

theorem has_clearFlag_self (o : Operation) {f : Nat} (hf : (0xffffffff ^^^ f) &&& f = 0) :
    (o.clearFlag f).has f = false := by
  unfold Operation.has Operation.clearFlag
  rw [Nat.and_assoc, hf, Nat.and_zero]
  rfl

theorem has_clearFlag_other (o : Operation) {f g : Nat} (hg : (0xffffffff ^^^ f) &&& g = g) :
    (o.clearFlag f).has g = o.has g := by
  unfold Operation.has Operation.clearFlag
  rw [Nat.and_assoc, hg]

/-! ## what only reads -/

theorem sys_same {α : Type} {x : C α} (hx : ∀ u, wlp x (fun _ v => v = u) u) :
    wlp (sys x) (fun _ t => t = s) s := by
  rw [wlp_sys]
  refine wlp_mono (hx s.utc) ?_
  rintro _ v rfl
  rfl

theorem getInfo_same (k : Nat) (u : Utc) :
    wlp (uteeCrypObjGetInfo k) (fun _ v => v = u) u := by
  rw [uteeCrypObjGetInfo, wlp_bind]
  refine wlp_mono (teeObjGet_same k u) ?_
  rintro r v ⟨rfl, -⟩
  by_cases hr : r ≠ teeSuccess
  · rw [if_pos hr]
    rfl
  · rw [if_neg hr, wlp_bind, wlp_objAt]
    exact fun _ _ => rfl

theorem leave_same (ok : List Nat) (res : Nat) :
    wlp (leave ok res) (fun r t => t = s ∧ r = res ∧ res ∈ ok) s := by
  unfold leave
  by_cases hr : res ∈ ok
  · rw [if_pos hr]
    exact ⟨rfl, rfl, hr⟩
  · rw [if_neg hr]
    exact trivial

theorem getObjectInfo1_same (k : Nat) : wlp (teeGetObjectInfo1 k) (fun _ t => t = s) s := by
  rw [teeGetObjectInfo1, wlp_bind]
  refine wlp_mono (sys_same (getInfo_same k)) ?_
  rintro r t rfl
  rw [wlp_bind]
  refine wlp_mono (leave_same _ _) ?_
  rintro _ t ⟨rfl, -⟩
  rfl

theorem elemAt_same (e : Nat) : wlp (elemAt e) (fun _ t => t = s) s := by
  unfold elemAt
  rw [wlp_bind, wlp_blockAt]
  intro b hb
  cases b with
  | elem addr => rfl
  | _ => trivial

theorem unknown_same (h : Nat) : wlp (unknown h) (fun _ t => t = s) s := by
  have hfind : ∀ l, wlp (findElem h l) (fun _ t => t = s) s := by
    intro l
    induction l with
    | nil => rfl
    | cons e l ih =>
      rw [findElem, wlp_bind]
      refine wlp_mono (elemAt_same e) ?_
      rintro addr t rfl
      split
      · rfl
      · exact ih
  unfold unknown
  split
  · rfl
  · rw [wlp_bind]
    refine wlp_mono (hfind s.elems) ?_
    rintro e t rfl
    rfl

/-- the check of the registry at the start of a call -/
theorem wlp_checked {α : Type} {x y : O α} {Q : α → Sys → Prop} (hx : wlp x Q s)
    (hy : wlp y Q s) : wlp (unknown h >>= fun b => if b then x else y) Q s := by
  rw [wlp_bind]
  refine wlp_mono (unknown_same h) ?_
  rintro b t rfl
  cases b with
  | true => exact hx
  | false => exact hy

theorem wlp_teePanic {α : Type} {code : Nat} {Q : α → Sys → Prop} :
    wlp (teePanic code) Q s := trivial

theorem wlp_opAt_of (ho : s.heap.blocks h = some (.op o)) {Q : Operation → Sys → Prop} :
    wlp (opAt h) Q s ↔ Q o s := wlp_of_eq (opAt_eq ho)

theorem wlp_updateOp_of (ho : s.heap.blocks h = some (.op o)) {f : Operation → Operation}
    {Q : Unit → Sys → Prop} : wlp (updateOp h f) Q s ↔ Q () (s.store h (.op (f o))) :=
  wlp_of_eq (updateOp_eq ho)

/-! ## the keys of the handle -/

theorem Attached.kept {v : Utc} (ha : Attached c o u) (hk : Kept u v) : Attached c o v := by
  obtain ⟨h1, h2, h3, h4, h5, h6, h7, h8⟩ := ha
  refine ⟨h1.kept hk, h2, h3, h4, ?_, h6.kept hk, fun e => ⟨(h7 e).1.kept hk, (h7 e).2⟩, h8⟩
  rw [hk.st_eq]
  exact h5

theorem resetObject_spec (hc : Core c.provider s.utc) (k : Nat) :
    wlp (teeResetTransientObject k) (fun _ t => ∃ v, t = { s with utc := v } ∧ Kept s.utc v) s := by
  rw [teeResetTransientObject]
  by_cases h0 : k = 0
  · rw [if_pos h0]
    exact ⟨s.utc, rfl, Kept.refl _⟩
  rw [if_neg h0, wlp_bind, checkTransient, wlp_bind]
  refine wlp_mono (sys_same (getInfo_same k)) ?_
  rintro r t rfl
  split
  · exact wlp_teePanic
  split
  · exact wlp_teePanic
  rw [wlp_pure, wlp_bind, wlp_sys]
  refine wlp_mono (wlp_of_wp (uteeCrypObjReset_kept (a := k) hc)) ?_
  intro res v hv
  split
  · exact wlp_teePanic
  · exact ⟨v, rfl, hv⟩

/-- a copy into a key of the handle -/
theorem copyObject_spec {k : Nat} (hc : Core c.provider s.utc) (hk : KeyObject s.utc k) (q : Nat) :
    wlp (teeCopyObjectAttributes1 k q) (fun res t => ∃ v, t = { s with utc := v } ∧
      Kept s.utc v ∧ (res = teeSuccess → ∃ secret, KeyIs v k secret ∧ KeyIs v q secret ∧
        ∀ j e, KeyIs s.utc j e → KeyIs v j e)) s := by
  have hsame : ∀ {res : Nat}, res ≠ teeSuccess → wlp (leave objectResults res) (fun res t =>
      ∃ v, t = { s with utc := v } ∧ Kept s.utc v ∧ (res = teeSuccess → ∃ secret,
        KeyIs v k secret ∧ KeyIs v q secret ∧ ∀ j e, KeyIs s.utc j e → KeyIs v j e)) s := by
    intro res hres
    refine wlp_mono (leave_same _ _) ?_
    rintro _ t ⟨rfl, rfl, -⟩
    exact ⟨_, rfl, Kept.refl _, fun e => absurd e hres⟩
  rw [teeCopyObjectAttributes1, wlp_bind]
  refine wlp_mono (sys_same (getInfo_same k)) ?_
  rintro r1 t rfl
  by_cases hr1 : r1.1 ≠ teeSuccess
  · rw [if_pos hr1]
    exact hsame hr1
  rw [if_neg hr1, wlp_bind]
  refine wlp_mono (sys_same (getInfo_same q)) ?_
  rintro r2 t rfl
  by_cases hr2 : r2.1 ≠ teeSuccess
  · rw [if_pos hr2]
    exact hsame hr2
  rw [if_neg hr2]
  split
  · exact wlp_teePanic
  split
  · exact wlp_teePanic
  split
  · exact wlp_teePanic
  rw [wlp_bind, wlp_sys]
  refine wlp_mono (wlp_of_wp (wp_and (copy_keyIs hc hk q)
    (wlp_of_wp (uteeCrypObjCopy_kept (d := k) (s := q) hc)))) ?_
  rintro r v ⟨hspec, hkept⟩
  refine wlp_mono (leave_same _ _) ?_
  rintro _ w ⟨rfl, rfl, -⟩
  exact ⟨v, rfl, hkept, hspec⟩

/-! ## the end of a context -/

/-- the handle behind a reset or the end of its context -/
def Operation.idle (o : Operation) : Operation :=
  { o.clearFlag teeHandleFlagInitialized with operationState := teeOperationStateInitial }

theorem idle_has (o : Operation) {f : Nat}
    (hf : (0xffffffff ^^^ teeHandleFlagInitialized) &&& f = f) : o.idle.has f = o.has f :=
  has_clearFlag_other o hf

theorem idle_initialized (o : Operation) : o.idle.has teeHandleFlagInitialized = false :=
  has_clearFlag_self o (by decide)

theorem initial_ne_active : teeOperationStateInitial ≠ teeOperationStateActive := by decide

theorem Good.idle (hg : Good c o u log) {log' : List Event} (hp : Proper log')
    (hl : lastKeys log' = lastKeys log) : Good c o.idle u log' where
  core := hg.core
  cls := hg.cls
  kind := hg.kind
  two := by
    rw [idle_has o (by decide)]
    exact hg.two
  state := hg.state
  key1 := hg.key1
  key2 := by
    rw [idle_has o (by decide)]
    exact hg.key2
  noKey2 := by
    rw [idle_has o (by decide)]
    exact hg.noKey2
  active := iff_of_false initial_ne_active (by rw [idle_initialized]; decide)
  keySet := fun e => absurd e initial_ne_active
  keys := by
    rw [idle_has o (by decide), hl]
    exact hg.keys
  proper := hp
  two_states := .inl rfl
  oneKey := by
    rw [idle_has o (by decide), idle_has o (by decide), hl]
    exact hg.oneKey
  ready := fun e => absurd e initial_ne_active

/-- the state of an operation that only differs in its buffer -/
theorem Good.buffered (hg : Good c o u log) (n : Nat) : Good c { o with bufferOffs := n } u log :=
  ⟨⟨hg.core, hg.cls, hg.kind, hg.two, hg.state, hg.key1, hg.key2, hg.noKey2⟩,
    ⟨hg.active, hg.keySet, hg.keys, hg.proper⟩, hg.two_states, hg.oneKey, hg.ready⟩

theorem Good.not_digest (hg : Good c o u log) :
    o.info.operationClass ≠ teeOperationDigest := by
  rcases hg.kind with e | e <;> rw [e] <;> decide

theorem resetOperation_spec (ho : s.heap.blocks h = some (.op o)) (hg : Good c o s.utc s.log) :
    wlp (teeResetOperation c h) (fun _ t => o.has teeHandleFlagKeySet = true ∧
      t.heap.blocks h = some (.op o.idle) ∧ t.utc = s.utc ∧ t.log = .reset :: s.log) s := by
  unfold teeResetOperation
  refine wlp_checked wlp_teePanic ?_
  rw [wlp_bind, wlp_opAt_of ho]
  by_cases hk : o.has teeHandleFlagKeySet = false
  · rw [if_pos hk]
    exact wlp_teePanic
  rw [if_neg hk, wlp_bind, wlp_updateOp_of ho, wlp_bind]
  show wlp (if _ then _ else _) _ _
  have hb := store_self (s := s) (a := h)
    (.op { o with operationState := teeOperationStateInitial })
  rw [if_neg hg.not_digest]
  show wlp (updateOp h _) _ { s.store h _ with log := .reset :: s.log }
  rw [wlp_of_eq (updateOp_eq (s := { s.store h _ with log := .reset :: s.log }) hb)]
  exact ⟨by simpa using hk, store_self _, rfl, rfl⟩

theorem resetOperation_good (ho : s.heap.blocks h = some (.op o)) (hg : Good c o s.utc s.log) :
    wlp (teeResetOperation c h) (fun _ t => GoodAt c h t) s := by
  refine wlp_mono (resetOperation_spec ho hg) ?_
  rintro _ t ⟨-, hb, hu, hl⟩
  refine ⟨o.idle, hb, ?_⟩
  rw [hu, hl]
  exact hg.idle hg.proper rfl

/-! ## the keys -/

/-- the handle while its keys are replaced -/
theorem Good.keyless (hg : Good c o u log) (hi : o.operationState = teeOperationStateInitial)
    {v : Utc} (hk : Kept u v) : Good c (o.clearFlag teeHandleFlagKeySet) v log where
  toAttached := by
    have ha := hg.toAttached.kept hk
    refine ⟨ha.core, ha.cls, ha.kind, ?_, ha.state, ha.key1, ?_, ?_⟩
    · rw [has_clearFlag_other o (by decide)]
      exact ha.two
    · rw [has_clearFlag_other o (by decide)]
      exact ha.key2
    · rw [has_clearFlag_other o (by decide)]
      exact ha.noKey2
  active := by
    rw [has_clearFlag_other o (by decide)]
    exact hg.active
  keySet := fun e => absurd (hi.symm.trans e) initial_ne_active
  keys := by
    rw [has_clearFlag_self o (by decide)]
    exact nofun
  proper := hg.proper
  two_states := hg.two_states
  oneKey := by
    rw [has_clearFlag_self o (by decide)]
    exact nofun
  ready := fun e => absurd (hi.symm.trans e) initial_ne_active

/-- the handle with new keys -/
theorem Good.keyed (hg : Good c o u log) (hi : o.operationState = teeOperationStateInitial)
    {k : List UInt8} {l : Option (List UInt8)} (h1 : KeyIs u o.key1 k)
    (h2 : o.has teeHandleFlagExpectTwoKeys = true → ∃ k', l = some k' ∧ KeyIs u o.key2 k')
    (h3 : o.has teeHandleFlagExpectTwoKeys = false → l = none) (n : Nat) :
    Good c { o.setFlag teeHandleFlagKeySet with
      info := { (o.setFlag teeHandleFlagKeySet).info with keySize := n } } u
      (.setKey k l :: log) := by
  have hflag : ∀ f, ({ o.setFlag teeHandleFlagKeySet with
      info := { (o.setFlag teeHandleFlagKeySet).info with keySize := n } } : Operation).has f =
      (o.has f || teeHandleFlagKeySet &&& f != 0) := has_setFlag o teeHandleFlagKeySet
  have htwo : teeHandleFlagKeySet &&& teeHandleFlagExpectTwoKeys = 0 := by decide
  have hinit : teeHandleFlagKeySet &&& teeHandleFlagInitialized = 0 := by decide
  have hself : (teeHandleFlagKeySet &&& teeHandleFlagKeySet != 0) = true := by decide
  refine ⟨⟨hg.core, hg.cls, hg.kind, ?_, hg.state, hg.key1, ?_, ?_⟩, ⟨?_, ?_, ?_, hg.proper⟩,
    hg.two_states, ?_, fun e => absurd (hi.symm.trans e) initial_ne_active⟩
  · rw [hflag, htwo, bne_self_eq_false, Bool.or_false]
    exact hg.two
  · rw [hflag, htwo, bne_self_eq_false, Bool.or_false]
    exact hg.key2
  · rw [hflag, htwo, bne_self_eq_false, Bool.or_false]
    exact hg.noKey2
  · rw [hflag, hinit, bne_self_eq_false, Bool.or_false]
    exact hg.active
  · exact fun e => absurd (hi.symm.trans e) initial_ne_active
  · exact fun _ => ⟨k, l, rfl, h1, fun e => h2 (hg.two.mpr e)⟩
  · rw [hflag, hflag, htwo, bne_self_eq_false, Bool.or_false]
    exact fun _ e => ⟨k, by rw [h3 e]; rfl⟩

theorem secretOf_eq {k : Nat} {secret : List UInt8} (hk : KeyIs u k secret) :
    secretOf u k = secret := by
  obtain ⟨x, n, len, data, h, -, rfl⟩ := hk
  unfold secretOf
  rw [Utc.obj_iff.mpr h.obj]
  dsimp only
  rw [h.attr]

/-- a result that is given back -/
theorem leave_good {x : O Nat} {ok : List Nat} (hok : teeErrorBadParameters ∉ ok)
    (hx : wlp x (fun res t => res = teeErrorBadParameters ∨ GoodAt c h t) s) :
    wlp (x >>= leave ok) (fun _ t => GoodAt c h t) s := by
  rw [wlp_bind]
  refine wlp_mono hx ?_
  intro res t ht
  refine wlp_mono (leave_same ok res) ?_
  rintro _ v ⟨rfl, -, hm⟩
  rcases ht with rfl | ht
  · exact absurd hm hok
  · exact ht

/-- the end of a change of keys -/
theorem keyed_good (ho : s.heap.blocks h = some (.op o)) (hg : Good c o s.utc s.log)
    (hi : o.operationState = teeOperationStateInitial) {k : List UInt8} {l : Option (List UInt8)}
    (h1 : KeyIs s.utc o.key1 k)
    (h2 : o.has teeHandleFlagExpectTwoKeys = true → ∃ k', l = some k' ∧ KeyIs s.utc o.key2 k')
    (h3 : o.has teeHandleFlagExpectTwoKeys = false → l = none) (n : Nat) {e : Utc → Event}
    (he : e s.utc = .setKey k l) :
    wlp (do
      note e
      updateOp h fun o => { o.setFlag teeHandleFlagKeySet with
        info := { (o.setFlag teeHandleFlagKeySet).info with keySize := n } }
      pure teeSuccess : O Nat) (fun res t => res = teeErrorBadParameters ∨ GoodAt c h t) s := by
  rw [wlp_bind]
  show wlp (updateOp h _ >>= fun _ => pure teeSuccess) _ { s with log := e s.utc :: s.log }
  rw [he, wlp_bind, wlp_of_eq (updateOp_eq (s := { s with log := .setKey k l :: s.log }) ho)]
  exact .inr ⟨_, store_self _, hg.keyed hi h1 h2 h3 n⟩

theorem setOperationKey_good {k : Nat} (ho : s.heap.blocks h = some (.op o))
    (hg : Good c o s.utc s.log) :
    wlp (teeSetOperationKey h k) (fun _ t => GoodAt c h t) s := by
  refine leave_good (by decide) ?_
  unfold setOperationKey
  refine wlp_checked (.inl rfl) ?_
  rw [wlp_bind, wlp_opAt_of ho]
  by_cases hi : o.operationState ≠ teeOperationStateInitial
  · rw [if_pos hi]
    exact .inl rfl
  have hi' := not_not.mp hi
  rw [if_neg hi]
  by_cases hk0 : k = 0
  · rw [if_pos hk0, wlp_bind]
    exact wlp_mono (wlp_true _ _) fun _ _ _ => .inl rfl
  rw [if_neg hk0, if_neg hg.not_digest]
  by_cases h2 : o.has teeHandleFlagExpectTwoKeys = true
  · rw [if_pos h2]
    exact .inl rfl
  rw [if_neg h2, wlp_bind]
  refine wlp_mono (getObjectInfo1_same k) ?_
  rintro info t rfl
  by_cases hinfo : info.1 ≠ teeSuccess
  · rw [if_pos hinfo]
    exact .inr ⟨o, ho, hg⟩
  rw [if_neg hinfo]
  split
  · exact .inl rfl
  split
  · exact .inl rfl
  rw [wlp_bind]
  refine wlp_mono (resetObject_spec hg.core o.key1) ?_
  rintro _ t1 ⟨v, rfl, hkv⟩
  have ha := hg.toAttached.kept hkv
  have ho1 : ({ t with utc := v } : Sys).heap.blocks h = some (.op o) := ho
  rw [wlp_bind, wlp_updateOp_of ho1, wlp_bind]
  refine wlp_mono (copyObject_spec (c := c) (s := ({ t with utc := v } : Sys).store h
    (.op (o.clearFlag teeHandleFlagKeySet))) ha.core ha.key1 k) ?_
  rintro res t2 ⟨w, rfl, hkw, hcopy⟩
  have hgood := hg.keyless hi' (hkv.trans hkw)
  have hb := store_self (s := ({ t with utc := v } : Sys)) (a := h)
    (.op (o.clearFlag teeHandleFlagKeySet))
  by_cases hres : res ≠ teeSuccess
  · rw [if_pos hres]
    exact .inr ⟨_, hb, hgood⟩
  · rw [if_neg hres]
    obtain ⟨secret, hkey, hsrc, -⟩ := hcopy (not_not.mp hres)
    have htwo : (o.clearFlag teeHandleFlagKeySet).has teeHandleFlagExpectTwoKeys = _ :=
      has_clearFlag_other o (by decide)
    refine keyed_good (s := { ({ t with utc := v } : Sys).store h
      (.op (o.clearFlag teeHandleFlagKeySet)) with utc := w }) hb hgood hi' hkey
      (fun e => absurd (htwo.symm.trans e) h2) (fun _ => rfl) _ ?_
    rw [secretOf_eq hsrc]

theorem replaceKeys_good {k l n : Nat} (ho : s.heap.blocks h = some (.op o))
    (hg : Good c o s.utc s.log) (hi : o.operationState = teeOperationStateInitial)
    (h2 : o.has teeHandleFlagExpectTwoKeys = true) :
    wlp (replaceKeys h o k l n) (fun res t => res = teeErrorBadParameters ∨ GoodAt c h t) s := by
  rw [replaceKeys, wlp_bind]
  refine wlp_mono (resetObject_spec hg.core o.key1) ?_
  rintro _ t1 ⟨v1, rfl, hk1⟩
  have ha1 := hg.toAttached.kept hk1
  rw [wlp_bind]
  refine wlp_mono (resetObject_spec (c := c) (s := { s with utc := v1 }) ha1.core o.key2) ?_
  rintro _ t2 ⟨v2, rfl, hk2⟩
  have ha2 := ha1.kept hk2
  have ho2 : ({ s with utc := v2 } : Sys).heap.blocks h = some (.op o) := ho
  have hb := store_self (s := ({ s with utc := v2 } : Sys)) (a := h)
    (.op (o.clearFlag teeHandleFlagKeySet))
  rw [wlp_bind, wlp_updateOp_of ho2, wlp_bind]
  refine wlp_mono (copyObject_spec (c := c) (s := ({ s with utc := v2 } : Sys).store h
    (.op (o.clearFlag teeHandleFlagKeySet))) ha2.core ha2.key1 k) ?_
  rintro res t3 ⟨v3, rfl, hk3, hcopy1⟩
  have ha3 := ha2.kept hk3
  by_cases hres : res ≠ teeSuccess
  · rw [if_pos hres]
    exact .inr ⟨_, hb, hg.keyless hi (hk1.trans (hk2.trans hk3))⟩
  rw [if_neg hres]
  obtain ⟨secret1, hkey1, hsrc1, -⟩ := hcopy1 (not_not.mp hres)
  rw [wlp_bind]
  refine wlp_mono (copyObject_spec (c := c) (s := { ({ s with utc := v2 } : Sys).store h
    (.op (o.clearFlag teeHandleFlagKeySet)) with utc := v3 }) ha3.core (ha3.key2 h2).1 l) ?_
  rintro res t4 ⟨v4, rfl, hk4, hcopy2⟩
  have hgood := hg.keyless hi (hk1.trans (hk2.trans (hk3.trans hk4)))
  by_cases hres2 : res ≠ teeSuccess
  · rw [if_pos hres2]
    exact .inr ⟨_, hb, hgood⟩
  rw [if_neg hres2]
  -- the second copy leaves the first key and its source
  obtain ⟨secret2, hkey2, hsrc2, hkeep⟩ := hcopy2 (not_not.mp hres2)
  have htwo : (o.clearFlag teeHandleFlagKeySet).has teeHandleFlagExpectTwoKeys = _ :=
    has_clearFlag_other o (by decide)
  refine keyed_good (s := { ({ s with utc := v2 } : Sys).store h
    (.op (o.clearFlag teeHandleFlagKeySet)) with utc := v4 }) hb hgood hi
    (hkeep o.key1 secret1 hkey1) (fun _ => ⟨secret2, rfl, hkey2⟩) (fun e => ?_) n ?_
  · rw [htwo, h2] at e
    cases e
  · rw [secretOf_eq (hkeep k secret1 hsrc1), secretOf_eq hsrc2]

theorem setOperationKey2_good {k l : Nat} (ho : s.heap.blocks h = some (.op o))
    (hg : Good c o s.utc s.log) :
    wlp (teeSetOperationKey2 h k l) (fun _ t => GoodAt c h t) s := by
  refine leave_good (by decide) ?_
  unfold setOperationKey2
  refine wlp_checked (.inl rfl) ?_
  rw [wlp_bind, wlp_opAt_of ho]
  by_cases hi : o.operationState ≠ teeOperationStateInitial
  · rw [if_pos hi]
    exact .inl rfl
  have hi' := not_not.mp hi
  rw [if_neg hi]
  by_cases hk0 : k = 0 ∨ l = 0
  · have hbad : ∀ (x : O Unit) (v : Sys), wlp (x >>= fun _ => (pure teeErrorBadParameters : O Nat))
        (fun res t => res = teeErrorBadParameters ∨ GoodAt c h t) v := by
      intro x v
      rw [wlp_bind]
      exact wlp_mono (wlp_true _ _) fun _ _ _ => .inl rfl
    rw [if_pos hk0]
    dsimp only
    by_cases hk : k = 0
    · rw [if_pos hk, wlp_bind]
      refine wlp_mono (wlp_true _ _) fun _ _ _ => ?_
      split
      · exact hbad _ _
      · exact .inl rfl
    · rw [if_neg hk]
      split
      · exact hbad _ _
      · exact .inl rfl
  rw [if_neg hk0, if_neg hg.not_digest]
  by_cases h2 : o.has teeHandleFlagExpectTwoKeys = false
  · rw [if_pos h2]
    exact .inl rfl
  have h2' : o.has teeHandleFlagExpectTwoKeys = true := by simpa using h2
  rw [if_neg h2, wlp_bind]
  refine wlp_mono (getObjectInfo1_same k) ?_
  rintro info1 t rfl
  by_cases hinfo1 : info1.1 ≠ teeSuccess
  · rw [if_pos hinfo1]
    exact .inr ⟨o, ho, hg⟩
  rw [if_neg hinfo1]
  split
  · exact .inl rfl
  rw [wlp_bind]
  refine wlp_mono (getObjectInfo1_same l) ?_
  rintro info2 t rfl
  by_cases hinfo2 : info2.1 ≠ teeSuccess
  · rw [if_pos hinfo2]
    exact .inr ⟨o, ho, hg⟩
  rw [if_neg hinfo2]
  split
  · exact .inl rfl
  split
  · exact .inl rfl
  split
  · exact .inl rfl
  exact replaceKeys_good ho hg hi' h2'

/-! ## a new context -/

theorem keyOf_eq {k : Nat} {secret : List UInt8} (hc : Core c.provider u) (hk : KeyIs u k secret) :
    keyOf k u = .ok ((teeSuccess, secret), u) := by
  obtain ⟨x, n, len, data, h, hi, rfl⟩ := hk
  have hok := h.ok hc
  have hwp : wp (keyOf k) (fun r t => r = (teeSuccess, data.take n) ∧ t = u) u := by
    rw [keyOf, wp_bind, wp_teeObjGet hc, if_pos (h.mem hc), if_neg (not_not.mpr rfl), wp_bind,
      wp_objAt h.obj, if_neg (by simp [hi]), wp_bind, secretAt, wp_bind, wp_blockAt h.attr]
    show wp (if data.length < n then _ else _) _ u
    rw [if_neg (by have := hok.size; have := hok.length; omega)]
    exact ⟨rfl, rfl⟩
  obtain ⟨r, t, hr, rfl, rfl⟩ := wp_iff.mp hwp
  exact hr

theorem objGet_eq {k : Nat} (hc : Core c.provider u) : teeObjGet k u =
    .ok (if k ∈ u.objects then teeSuccess else teeErrorBadParameters, u) := by
  obtain ⟨r, t, hr, h1, h2⟩ := wp_iff.mp ((wp_teeObjGet hc (Q := fun r t =>
    r = (if k ∈ u.objects then teeSuccess else teeErrorBadParameters) ∧ t = u)).mpr ⟨rfl, rfl⟩)
  rw [h1, h2] at hr
  exact hr

/-- a call of the library that makes a context -/
theorem crypto_init {st : Nat} {k : List UInt8} {l : Option (List UInt8)} {iv : List UInt8} :
    wlp (crypto c (.init st k l iv)) (fun res t => t.heap = s.heap ∧ t.utc = s.utc ∧
      (res = teeSuccess → t.log = .init st k l iv :: s.log)) s := by
  show _ ∧ _ ∧ _
  refine ⟨rfl, rfl, fun hr => ?_⟩
  show (if c.ran s.log _ then _ else _) = _
  rw [if_pos (c.ran_success _ _ hr)]

/-- the state of the kernel that belongs to the handle -/
theorem Attached.stateAt (ha : Attached c o u) : ∃ cs,
    Cryp.stateAt o.state u = .ok (cs, u) ∧ u.st o.state = some cs ∧
      cs.algo = o.info.algorithm ∧ cs.key1 = o.key1 ∧ cs.key2 = o.key2 ∧
      (o.info.operationClass = teeOperationCipher → cs.ctx ≠ 0) ∧ cs.mode = o.info.mode := by
  obtain ⟨cs, hcs, h⟩ := ha.state
  exact ⟨cs, stateAt_eq (Utc.st_iff.mp hcs), hcs, h⟩

/-- what the init of a context does to the library and to the kernel -/
structure Inited (c : Crypto) (o : Operation) (s t : Sys) : Prop where
  heap : t.heap = s.heap
  attached : Attached c o t.utc
  keys : ∀ k e, KeyIs s.utc k e → KeyIs t.utc k e
  log : ∃ k l iv, lastKeys s.log = some (k, l) ∧ t.log = .init o.state k l iv :: s.log

theorem hashInit_spec (hg : Good c o s.utc s.log) (hset : o.has teeHandleFlagKeySet = true)
    (hm : o.info.operationClass = teeOperationMac) :
    wlp (uteeHashInit c o.state) (fun res t => res = teeSuccess → Inited c o s t) s := by
  have ha := hg.toAttached
  obtain ⟨cs, hcs, hst, halgo, hk1, -, -⟩ := ha.stateAt
  have hcls : teeAlgGetClass cs.algo = teeOperationMac := by rw [halgo, ← ha.cls, hm]
  have hnd : ¬ teeAlgGetClass cs.algo = teeOperationDigest := by rw [hcls]; decide
  have htwo : o.has teeHandleFlagExpectTwoKeys = false := by
    cases h2 : o.has teeHandleFlagExpectTwoKeys with
    | false => rfl
    | true =>
      have hx := ha.two.mp h2
      rw [ha.cls, hx] at hm
      exact absurd hm (by decide)
  obtain ⟨k, l, hlast, hkey, -⟩ := hg.keys hset
  obtain ⟨k', hlast'⟩ := hg.oneKey hset htwo
  obtain ⟨rfl, rfl⟩ : k = k' ∧ l = none := by
    rw [hlast] at hlast'
    cases hlast'
    exact ⟨rfl, rfl⟩
  rw [uteeHashInit, wlp_bind]
  refine wlp_mono (sys_same (teeSvcCrypGetState_same o.state)) ?_
  rintro res t rfl
  by_cases hres : res ≠ teeSuccess
  · rw [if_pos hres]
    exact fun e => absurd e hres
  rw [if_neg hres, wlp_bind, wlp_of_eq (sys_ok hcs), if_neg hnd, if_pos hcls, wlp_bind, hk1,
    wlp_of_eq (sys_ok (keyOf_eq ha.core hkey)), if_neg (not_not.mpr rfl)]
  refine wlp_mono crypto_init ?_
  rintro r v ⟨hh, hu, hl⟩ hr
  refine ⟨hh, by rw [hu]; exact ha, by rw [hu]; exact fun _ _ hx => hx, k, none, [], hlast, hl hr⟩

/-- `finishInit` behind the call of the library -/
theorem finishInit_spec {k : List UInt8} {l : Option (List UInt8)} {iv : List UInt8} {res : Nat}
    (ha : Attached c o s.utc) (hc : o.info.operationClass = teeOperationCipher)
    (hlast : lastKeys s.log = some (k, l)) (hh : t.heap = s.heap) (hu : t.utc = s.utc)
    (hl : res = teeSuccess → t.log = .init o.state k l iv :: s.log) :
    wlp (uteeCipherInit.finishInit o.state res)
      (fun res t => res = teeSuccess → Inited c o s t) t := by
  rw [uteeCipherInit.finishInit]
  by_cases hres : res ≠ teeSuccess
  · rw [if_pos hres]
    exact fun e => absurd e hres
  obtain ⟨cs, hcs, hst, halgo, hk1, hk2, hctx⟩ := ha.stateAt
  have hcs' : Cryp.stateAt o.state t.utc = .ok (cs, t.utc) := by
    rw [hu]
    exact hcs
  rw [if_neg hres, wlp_bind, wlp_of_eq (sys_ok hcs'), wlp_bind, wlp_sys]
  show _ → _
  intro _
  rw [hu]
  have hself : (s.utc.store o.state (.state { cs with ctxFinalize := true })).st o.state =
      some { cs with ctxFinalize := true } := by
    rw [Utc.st_iff, Utc.store_blocks, if_pos rfl]
  exact ⟨hh, ⟨ha.core.finalized hst (hctx.1 hc), ha.cls, ha.kind, ha.two,
    ⟨_, hself, halgo, hk1, hk2, hctx⟩, ha.key1.storeState hst,
    fun e => ⟨(ha.key2 e).1.storeState hst, (ha.key2 e).2⟩, ha.noKey2⟩,
    fun _ _ hk => hk.storeState hst, k, l, iv, hlast, hl (not_not.mp hres)⟩

theorem cipherInit_spec {iv : Ptr} {ivLen : Nat} (hg : Good c o s.utc s.log)
    (hset : o.has teeHandleFlagKeySet = true) (hc : o.info.operationClass = teeOperationCipher) :
    wlp (uteeCipherInit c o.state iv ivLen) (fun res t => res = teeSuccess → Inited c o s t) s := by
  have ha := hg.toAttached
  obtain ⟨cs, hcs, hst, halgo, hk1, hk2, -⟩ := ha.stateAt
  obtain ⟨k, l, hlast, hkey, hkey2⟩ := hg.keys hset
  rw [uteeCipherInit, wlp_bind]
  refine wlp_mono (sys_same (teeSvcCrypGetState_same o.state)) ?_
  rintro res t rfl
  by_cases hres : res ≠ teeSuccess
  · rw [if_pos hres]
    exact fun e => absurd e hres
  rw [if_neg hres, wlp_bind, wlp_of_eq (sys_ok hcs), wlp_bind, hk1,
    wlp_of_eq (sys_ok (keyOf_eq ha.core hkey)), if_neg (not_not.mpr rfl), wlp_bind, hk2,
    wlp_of_eq (sys_ok (objGet_eq ha.core))]
  cases h2 : o.has teeHandleFlagExpectTwoKeys with
  | false =>
    have h0 : o.key2 ∉ t.utc.objects := by
      rw [ha.noKey2 h2]
      exact ha.core.zero_notMem
    obtain ⟨k', hlast'⟩ := hg.oneKey hset h2
    rw [if_neg h0, if_neg (by decide), wlp_bind]
    refine wlp_mono crypto_init ?_
    rintro r v ⟨hh, hu, hl⟩
    obtain ⟨rfl, rfl⟩ : k = k' ∧ l = none := by
      rw [hlast] at hlast'
      cases hlast'
      exact ⟨rfl, rfl⟩
    exact finishInit_spec ha hc hlast hh hu hl
  | true =>
    obtain ⟨k', rfl, hkey'⟩ := hkey2 (ha.two.mp h2)
    obtain ⟨x, n, len, data, hx, -⟩ := id hkey'
    rw [if_pos (hx.mem ha.core), if_pos rfl, wlp_bind,
      wlp_of_eq (sys_ok (keyOf_eq ha.core hkey')), if_neg (not_not.mpr rfl), wlp_bind]
    refine wlp_mono crypto_init ?_
    rintro r v ⟨hh, hu, hl⟩
    exact finishInit_spec ha hc hlast hh hu hl

/-- the handle with a new context -/
def Operation.begun (o : Operation) : Operation :=
  { { o with operationState := teeOperationStateActive }.setFlag teeHandleFlagInitialized with
    bufferOffs := 0 }

theorem begun_has (o : Operation) (f : Nat) :
    o.begun.has f = (o.has f || teeHandleFlagInitialized &&& f != 0) :=
  has_setFlag { o with operationState := teeOperationStateActive } _ _

theorem Good.begun (hg : Good c o s.utc s.log) (hset : o.has teeHandleFlagKeySet = true)
    (hi : Inited c o s t) : Good c o.begun t.utc t.log := by
  have hflag : ∀ f, teeHandleFlagInitialized &&& f = 0 → o.begun.has f = o.has f := by
    intro f hf
    rw [begun_has, hf, bne_self_eq_false, Bool.or_false]
  have htwo := hflag teeHandleFlagExpectTwoKeys (by decide)
  have hkey := hflag teeHandleFlagKeySet (by decide)
  have hinit : o.begun.has teeHandleFlagInitialized = true := by
    rw [begun_has, show (teeHandleFlagInitialized &&& teeHandleFlagInitialized != 0) = true by decide,
      Bool.or_true]
  have ha := hi.attached
  obtain ⟨k, l, iv, hlast, hlog⟩ := hi.log
  have hlast' : lastKeys t.log = lastKeys s.log := by rw [hlog]; rfl
  refine ⟨⟨ha.core, ha.cls, ha.kind, ?_, ha.state, ha.key1, ?_, ?_⟩, ⟨?_, ?_, ?_, ?_⟩, .inr rfl,
    ?_, fun _ => ?_⟩
  · rw [htwo]
    exact ha.two
  · rw [htwo]
    exact ha.key2
  · rw [htwo]
    exact ha.noKey2
  · exact iff_of_true rfl hinit
  · exact fun _ => hkey.trans hset
  · intro _
    obtain ⟨k', l', hl', h1, h2⟩ := hg.keys hset
    refine ⟨k', l', hlast'.trans hl', hi.keys _ _ h1, fun e => ?_⟩
    obtain ⟨k'', hk'', h3⟩ := h2 e
    exact ⟨k'', hk'', hi.keys _ _ h3⟩
  · rw [hlog]
    exact hg.proper
  · rw [hkey, htwo, hlast']
    exact hg.oneKey
  · have hctx : context o.state t.log = some (k, l) := by
      rw [hlog]
      exact if_pos rfl
    exact ⟨by rw [show o.begun.state = o.state from rfl, hctx]; rfl,
      by rw [show o.begun.state = o.state from rfl, hctx, hlast', hlast]⟩

/-- a reset of an active operation, and then the new state -/
theorem wlp_begin (ho : s.heap.blocks h = some (.op o)) (hg : Good c o s.utc s.log)
    (hset : o.has teeHandleFlagKeySet = true) {x : O Unit} {Q : Unit → Sys → Prop}
    (hx : ∀ o' t, Good c o' t.utc t.log → o'.has teeHandleFlagKeySet = true → o'.info.operationClass =
      o.info.operationClass → o'.state = o.state →
      t.heap.blocks h = some (.op { o' with operationState := teeOperationStateActive }) →
      wlp x Q t) :
    wlp (do
      let _ ← if o.operationState ≠ teeOperationStateInitial then teeResetOperation c h else pure ()
      updateOp h fun o => { o with operationState := teeOperationStateActive }
      x) Q s := by
  have hrest : ∀ o' t, Good c o' t.utc t.log → o'.has teeHandleFlagKeySet = true →
      o'.info.operationClass = o.info.operationClass → o'.state = o.state →
      t.heap.blocks h = some (.op o') →
      wlp (updateOp h (fun o => { o with operationState := teeOperationStateActive }) >>=
        fun _ => x) Q t := by
    intro o' t hg' hset' hcls hst hb
    rw [wlp_bind, wlp_updateOp_of hb]
    exact hx o' _ hg' hset' hcls hst (store_self _)
  dsimp only
  by_cases hi : o.operationState ≠ teeOperationStateInitial
  · rw [if_pos hi, wlp_bind]
    refine wlp_mono (resetOperation_spec ho hg) ?_
    rintro _ t ⟨-, hb, hu, hl⟩
    have hgood : Good c o.idle t.utc t.log := by
      rw [hu, hl]
      exact hg.idle hg.proper rfl
    exact hrest o.idle t hgood ((idle_has o (by decide)).trans hset) rfl rfl hb
  · rw [if_neg hi]
    exact hrest o s hg hset rfl rfl ho

theorem teeCipherInit_good {iv : Ptr} {ivLen : Nat} (ho : s.heap.blocks h = some (.op o))
    (hg : Good c o s.utc s.log) :
    wlp (teeCipherInit c h iv ivLen) (fun _ t => GoodAt c h t) s := by
  unfold teeCipherInit
  refine wlp_checked wlp_teePanic ?_
  rw [wlp_bind, wlp_opAt_of ho]
  by_cases hc : o.info.operationClass ≠ teeOperationCipher
  · rw [if_pos hc]
    exact wlp_teePanic
  rw [if_neg hc]
  by_cases hk : o.has teeHandleFlagKeySet = false ∨ o.key1 = 0
  · rw [if_pos hk]
    exact wlp_teePanic
  rw [if_neg hk]
  refine wlp_begin ho hg (by simpa using (not_or.mp hk).1) ?_
  intro o' t hg' hset hcls hst hb
  rw [wlp_bind, ← hst]
  refine wlp_mono (cipherInit_spec hg' hset (hcls.trans (not_not.mp hc))) ?_
  intro res v hv
  by_cases hres : res ≠ teeSuccess
  · rw [if_pos hres]
    exact wlp_teePanic
  · rw [if_neg hres]
    have hi := hv (not_not.mp hres)
    rw [wlp_updateOp_of (by rw [hi.heap]; exact hb)]
    have hgood : Good c o'.begun v.utc v.log := hg'.begun hset hi
    exact ⟨_, store_self _, hgood⟩

theorem teeMacInit_good (ho : s.heap.blocks h = some (.op o)) (hg : Good c o s.utc s.log) :
    wlp (teeMacInit c h) (fun _ t => GoodAt c h t) s := by
  unfold teeMacInit
  refine wlp_checked wlp_teePanic ?_
  rw [wlp_bind, wlp_opAt_of ho]
  by_cases hm : o.info.operationClass ≠ teeOperationMac
  · rw [if_pos hm]
    exact wlp_teePanic
  rw [if_neg hm]
  by_cases hk : o.has teeHandleFlagKeySet = false ∨ o.key1 = 0
  · rw [if_pos hk]
    exact wlp_teePanic
  rw [if_neg hk]
  refine wlp_begin ho hg (by simpa using (not_or.mp hk).1) ?_
  intro o' t hg' hset hcls hst hb
  rw [initHashOperation, wlp_bind, wlp_opAt_of hb]
  show wlp (uteeHashInit c o'.state >>= fun res => _) _ t
  rw [wlp_bind]
  refine wlp_mono (hashInit_spec hg' hset (hcls.trans (not_not.mp hm))) ?_
  intro res v hv
  by_cases hres : res ≠ teeSuccess
  · rw [if_pos hres]
    exact wlp_teePanic
  · rw [if_neg hres]
    have hi := hv (not_not.mp hres)
    rw [wlp_updateOp_of (by rw [hi.heap]; exact hb)]
    have hgood : Good c o'.begun v.utc v.log := hg'.begun hset hi
    exact ⟨_, store_self _, hgood⟩

end MTower.Oper
