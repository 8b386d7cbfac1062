import MTower.Cryp.Apart
import MTower.Oper.Handles
import MTower.Oper.LifeCycle

/-!
# What an object leaves behind

* `Use`, `use`      the calls that read an object, write it or take it as the key of a context;
* `observe`         the answers to a sequence of them, and what the library was given;
* `AsNew`           no sequence of them tells an object from a new one;
* `Alike`           the relation of the two runs, `rel_use` its step;
* `reset_asNew`     an object is as new after a reset, and after a populate that failed.
-/

set_option linter.unusedVariables false

namespace MTower.Oper
open Lib Kernel Cryp

/-! ## the calls -/

inductive Use where
  | getInfo (obj : Nat)
  | getAttr (obj attrId s : Nat)
  | populate (mem : Nat → UInt8) (obj : Nat) (attrs : List UteeAttribute)
  | copy (dst src : Nat)
  | hashInit (state : Nat)
  | cipherInit (state : Nat) (iv : Ptr) (ivLen : Nat)

inductive Reply where
  | code (res : Nat)
  | info (r : Nat × ObjectInfo)
  | attr (r : ToUser)
deriving DecidableEq, Repr

def use (c : Crypto) (e : BignumWriter) : Use → O Reply
  | .getInfo obj => do
    let r ← sys (uteeCrypObjGetInfo obj)
    pure (.info r)
  | .getAttr obj id s => do
    let r ← sys (uteeCrypObjGetAttr e obj id s)
    pure (.attr r)
  | .populate mem obj attrs => do
    let r ← sys (uteeCrypObjPopulate c.provider mem obj attrs)
    pure (.code r)
  | .copy dst src => do
    let r ← sys (uteeCrypObjCopy dst src)
    pure (.code r)
  | .hashInit state => do
    let r ← uteeHashInit c state
    pure (.code r)
  | .cipherInit state iv ivLen => do
    let r ← uteeCipherInit c state iv ivLen
    pure (.code r)

/-- the answers to a sequence of calls, and the record of the library behind them -/
def observe (c : Crypto) (e : BignumWriter) (l : List Use) : O (List Reply × List Event) := do
  let r ← answers (use c e) l
  let s ← get
  pure (r, s.log)

/-- no sequence of calls tells the object `a` from a new one -/
def AsNew (c : Crypto) (e : BignumWriter) (a : Nat) (s : Sys) : Prop :=
  ∀ l, outcome (observe c e l) s = outcome (observe c e l) { s with utc := s.utc.renewed a }

/-- every byte and every number of the key area of the object `a` is zero -/
def Wiped (u : Utc) (a : Nat) : Prop :=
  ∀ q ∈ u.parts a, match u.heap.blocks q with
    | some (.attr _ (.secret k _ data)) => k = 0 ∧ ∀ b ∈ data, b = 0
    | some (.attr _ (.ecc _ _ _ curve)) => curve = 0
    | some (.bignum _ _ v) => v = 0
    | _ => True

/-- anything that a session asks for -/
inductive Request where
  | call (x : Call)
  | use (x : Use)

def request (c : Crypto) (e : BignumWriter) : Request → O Unit
  | .call x => do
    let _ ← sys (call c.provider x)
    pure ()
  | .use x => do
    let _ ← use c e x
    pure ()

/-! ## two runs -/

section
variable {c : Crypto} {e : BignumWriter} {s t : Sys} {u v : Utc} {a b q : Nat}

theorem rel_sys {α β : Type} {x : C α} {y : C β} {R : α → β → Sys → Sys → Prop}
    (h : rel x y (fun a b u v => R a b { s with utc := u } { t with utc := v }) s.utc t.utc) :
    rel (sys x) (sys y) R s t := by
  unfold rel sys at *
  cases hx : x s.utc with
  | error f =>
    cases hy : y t.utc with
    | error g =>
      rw [hx, hy] at h
      exact congrArg Stop.fault h
    | ok r =>
      rw [hx, hy] at h
      exact h.elim
  | ok r =>
    cases hy : y t.utc with
    | error g =>
      rw [hx, hy] at h
      exact h.elim
    | ok r' =>
      rw [hx, hy] at h
      exact h

/-- a call of the library depends on its record only -/
theorem rel_crypto {R : Nat → Nat → Sys → Sys → Prop} (ev : Event) (hlog : t.log = s.log)
    (hR : ∀ r log, R r r { s with log := log } { t with log := log }) :
    rel (crypto c ev) (crypto c ev) R s t := by
  unfold crypto
  apply rel_bind
  rw [rel_get, hlog]
  exact hR _ _

/-- nothing differs, or the object `a` does, which is not initialised -/
def Alike (a : Nat) (s t : Sys) : Prop :=
  t = s ∨ ∃ v, t = { s with utc := v } ∧ Apart a s.utc v

theorem rel_getInfo (h : Apart a u v) (b : Nat) :
    rel (uteeCrypObjGetInfo b) (uteeCrypObjGetInfo b)
      (fun r r' s t => r = r' ∧ s = u ∧ t = v) u v := by
  obtain ⟨hs, x, tp, y, hu, hv⟩ := h
  unfold uteeCrypObjGetInfo
  apply rel_bind
  apply rel_teeObjGet hv
  intro r
  apply rel_ite Iff.rfl
  · exact fun _ => ⟨rfl, rfl, rfl⟩
  intro _
  apply rel_bind
  apply rel_objAt hv
  intro x1 x2 _ _ _ hmask
  rw [hmask]
  exact ⟨rfl, rfl, rfl⟩

/-- the key of a context is initialised, so it is the same in both states -/
theorem rel_keyOf (h : Apart a u v) (k : Nat) :
    rel (keyOf k) (keyOf k) (fun r r' s t => r = r' ∧ s = u ∧ t = v) u v := by
  obtain ⟨hs, x, tp, y, hu, hv⟩ := h
  unfold keyOf
  apply rel_bind
  apply rel_teeObjGet hv
  intro r
  apply rel_ite Iff.rfl
  · exact fun _ => ⟨rfl, rfl, rfl⟩
  intro _
  apply rel_bind
  apply rel_objAt hv
  intro x1 x2 hx1 _ heq hmask
  have hinfo : x2.info = x1.info := by rw [hmask]
  rw [hinfo]
  apply rel_ite Iff.rfl
  · exact fun _ => ⟨rfl, rfl, rfl⟩
  intro hi
  have hne : k ≠ a := hu.ne hx1 (by simpa using hi)
  cases heq hne
  obtain ⟨tp1, y1, -, hy1, -⟩ := (hs.ok k x1 (Utc.obj_iff.mpr hx1)).attr
  apply rel_bind
  unfold secretAt
  apply rel_bind
  apply rel_blockAt_of hy1 ((hv.same _ (hv.notMem_owned hy1 rfl hne)).trans hy1)
  cases y1 with
  | ecc d f g n => exact rel_throw.mpr rfl
  | secret n m data =>
    apply rel_ite Iff.rfl
    · exact fun _ => rel_throw.mpr rfl
    · exact fun _ => ⟨rfl, rfl, rfl⟩

/-- the end of a context is recorded in the state, which no object owns -/
theorem apart_storeState (h : Apart a u v) {cs : CrypState}
    (hcs : u.heap.blocks q = some (.state cs)) (b : Bool) :
    Apart a (u.store q (.state { cs with ctxFinalize := b }))
      (v.store q (.state { cs with ctxFinalize := b })) := by
  obtain ⟨hs, x, tp, y, hu, hv⟩ := h
  have h0 : q ≠ 0 := by
    rintro rfl
    cases hs.null.symm.trans hcs
  have hs' : Sane (u.store q (.state { cs with ctxFinalize := b })) := by
    apply hs.storeState h0
    · intro d hd
      cases hcs.symm.trans hd
      rfl
    · exact hs.ctx q cs (Utc.st_iff.mpr hcs)
  have hattr : x.attr ≠ q := by
    rintro rfl
    cases hu.block.symm.trans hcs
  have hobj : (u.store q (.state { cs with ctxFinalize := b })).obj = u.obj :=
    store_objs hcs id id
  refine ⟨hs', x, tp, y, hu.congr hs' (by rw [hobj]) ?_, hv.store (hv.notMem hcs (.inr nofun) nofun) _⟩
  rw [Utc.store_blocks, if_neg hattr]

theorem rel_sys_apart {α : Type} {x : C α} {v : Utc}
    (h : rel x x (fun r r' u v => r = r' ∧ (v = u ∨ Apart a u v)) s.utc v) :
    rel (sys x) (sys x) (fun r r' s t => r = r' ∧ Alike a s t) s { s with utc := v } := by
  apply rel_sys
  apply rel_mono h
  rintro r _ u v ⟨rfl, rfl | hv⟩
  · exact ⟨rfl, .inl rfl⟩
  · exact ⟨rfl, .inr ⟨v, rfl, hv⟩⟩

theorem rel_finishInit (h : Apart a s.utc v) (st res : Nat) :
    rel (uteeCipherInit.finishInit st res) (uteeCipherInit.finishInit st res)
      (fun r r' s t => r = r' ∧ Alike a s t) s { s with utc := v } := by
  unfold uteeCipherInit.finishInit
  apply rel_ite Iff.rfl
  · exact fun _ => ⟨rfl, .inr ⟨v, rfl, h⟩⟩
  intro _
  apply rel_bind
  apply rel_sys
  obtain ⟨x, tp, y, hu, hv⟩ := h.veiled
  apply rel_stateAt hv
  intro cs hcs
  exact ⟨rfl, .inr ⟨_, rfl, apart_storeState h hcs true⟩⟩

theorem rel_hashInit (h : Apart a s.utc v) (st : Nat) :
    rel (uteeHashInit c st) (uteeHashInit c st)
      (fun r r' s t => r = r' ∧ Alike a s t) s { s with utc := v } := by
  obtain ⟨x, tp, y, hu, hv⟩ := h.veiled
  have hend : ∀ r, rel (pure r : O Nat) (pure r : O Nat) (fun r r' s t => r = r' ∧ Alike a s t) s
      { s with utc := v } := fun r => ⟨rfl, .inr ⟨v, rfl, h⟩⟩
  have hlib : ∀ ev, rel (crypto c ev) (crypto c ev) (fun r r' s t => r = r' ∧ Alike a s t) s
      { s with utc := v } := fun ev => rel_crypto ev rfl fun r log => ⟨rfl, .inr ⟨v, rfl, h⟩⟩
  unfold uteeHashInit
  apply rel_bind
  apply rel_sys
  apply rel_getState hv
  intro r
  apply rel_ite Iff.rfl
  · exact fun _ => hend r
  intro _
  apply rel_bind
  apply rel_sys
  apply rel_stateAt hv
  intro cs _
  apply rel_ite Iff.rfl
  · exact fun _ => hlib _
  intro _
  apply rel_ite Iff.rfl
  · intro _
    apply rel_bind
    apply rel_sys
    apply rel_mono (rel_keyOf h cs.key1)
    rintro key _ _ _ ⟨rfl, rfl, rfl⟩
    apply rel_ite Iff.rfl
    · exact fun _ => hend _
    · exact fun _ => hlib _
  · exact fun _ => hend _

theorem rel_cipherInit (h : Apart a s.utc v) (st : Nat) (iv : Ptr) (ivLen : Nat) :
    rel (uteeCipherInit c st iv ivLen) (uteeCipherInit c st iv ivLen)
      (fun r r' s t => r = r' ∧ Alike a s t) s { s with utc := v } := by
  obtain ⟨x, tp, y, hu, hv⟩ := h.veiled
  have hend : ∀ r, rel (pure r : O Nat) (pure r : O Nat) (fun r r' s t => r = r' ∧ Alike a s t) s
      { s with utc := v } := fun r => ⟨rfl, .inr ⟨v, rfl, h⟩⟩
  have hlib : ∀ ev, rel (crypto c ev >>= fun res => uteeCipherInit.finishInit st res)
      (crypto c ev >>= fun res => uteeCipherInit.finishInit st res)
      (fun r r' s t => r = r' ∧ Alike a s t) s { s with utc := v } := by
    intro ev
    apply rel_bind
    refine rel_crypto ev rfl fun r log => ?_
    exact rel_finishInit (s := { s with log := log }) h st r
  unfold uteeCipherInit
  apply rel_bind
  apply rel_sys
  apply rel_getState hv
  intro r
  apply rel_ite Iff.rfl
  · exact fun _ => hend r
  intro _
  apply rel_bind
  apply rel_sys
  apply rel_stateAt hv
  intro cs _
  apply rel_bind
  apply rel_sys
  apply rel_mono (rel_keyOf h cs.key1)
  rintro key _ _ _ ⟨rfl, rfl, rfl⟩
  apply rel_ite Iff.rfl
  · exact fun _ => hend _
  intro _
  apply rel_bind
  apply rel_sys
  apply rel_teeObjGet hv
  intro found
  apply rel_ite Iff.rfl
  · intro _
    apply rel_bind
    apply rel_sys
    apply rel_mono (rel_keyOf h cs.key2)
    rintro key2 _ _ _ ⟨rfl, rfl, rfl⟩
    apply rel_ite Iff.rfl
    · exact fun _ => hend _
    · exact fun _ => hlib _
  · exact fun _ => hlib _

/-- **One call**: the answers are the same, and the states are alike again. -/
theorem rel_use (hp : c.provider.Overwrites) (x : Use) (h : Alike a s t) :
    rel (use c e x) (use c e x) (fun r r' s t => r = r' ∧ Alike a s t) s t := by
  obtain rfl | ⟨v, rfl, h⟩ := h
  · exact rel_refl (wlp_mono (wlp_true _ _) fun _ _ _ => ⟨rfl, .inl rfl⟩)
  cases x with
  | getInfo obj =>
    apply rel_bind
    apply rel_mono (rel_sys_apart (rel_mono (rel_getInfo h obj) ?_))
    · rintro r _ s t ⟨rfl, hst⟩
      exact ⟨rfl, hst⟩
    · rintro r _ s t ⟨rfl, rfl, rfl⟩
      exact ⟨rfl, .inr h⟩
  | getAttr obj id n =>
    apply rel_bind
    apply rel_mono (rel_sys_apart (rel_mono (rel_getAttr h obj id n) ?_))
    · rintro r _ s t ⟨rfl, hst⟩
      exact ⟨rfl, hst⟩
    · rintro r _ s t ⟨rfl, rfl, rfl⟩
      exact ⟨rfl, .inr h⟩
  | populate mem obj l =>
    apply rel_bind
    apply rel_mono (rel_sys_apart (rel_populate hp h obj l))
    rintro r _ s t ⟨rfl, hst⟩
    exact ⟨rfl, hst⟩
  | copy dst src =>
    apply rel_bind
    apply rel_mono (rel_sys_apart (rel_copy h dst src))
    rintro r _ s t ⟨rfl, hst⟩
    exact ⟨rfl, hst⟩
  | hashInit st =>
    apply rel_bind
    apply rel_mono (rel_hashInit h st)
    rintro r _ s t ⟨rfl, hst⟩
    exact ⟨rfl, hst⟩
  | cipherInit st iv n =>
    apply rel_bind
    apply rel_mono (rel_cipherInit h st iv n)
    rintro r _ s t ⟨rfl, hst⟩
    exact ⟨rfl, hst⟩

/-- an object that is not initialised is as new -/
theorem asNew (hp : c.provider.Overwrites) (hs : Sane s.utc) {x : TeeObj} (hx : s.utc.obj a = some x)
    (h0 : x.info.has teeHandleFlagInitialized = false) : AsNew c e a s := by
  intro l
  have h : Alike a s { s with utc := s.utc.renewed a } := .inr ⟨_, rfl, hs.apart hx h0⟩
  apply outcome_eq (R := Alike a)
  unfold observe
  apply rel_bind
  apply rel_mono (rel_answers (fun x s t => rel_use hp x) l h)
  rintro r _ s t ⟨rfl, rfl | ⟨v, rfl, h⟩⟩
  · exact ⟨rfl, .inl rfl⟩
  · exact ⟨rfl, .inr ⟨v, rfl, h⟩⟩

/-! ## runs -/

theorem finishInit_sane (hs : Sane s.utc) (st res : Nat) :
    wlp (uteeCipherInit.finishInit st res) (fun _ t => Sane t.utc) s := by
  unfold uteeCipherInit.finishInit
  by_cases hr : res ≠ teeSuccess
  · rw [if_pos hr]
    exact hs
  rw [if_neg hr, wlp_bind, wlp_sys, wlp_stateAt]
  intro cs hcs
  apply hs.storeState
  · rintro rfl
    cases hs.null.symm.trans hcs
  · intro d hd
    cases hcs.symm.trans hd
    rfl
  · exact hs.ctx st cs (Utc.st_iff.mpr hcs)

theorem keyOf_same (k : Nat) (u : Utc) : wlp (keyOf k) (fun _ t => t = u) u := by
  unfold keyOf
  rw [wlp_bind]
  apply wlp_mono (teeObjGet_cases k u)
  rintro r _ ⟨rfl, -⟩
  by_cases hr : r ≠ teeSuccess
  · rw [if_pos hr]
    exact rfl
  rw [if_neg hr, wlp_bind, wlp_objAt]
  intro o _
  by_cases hi : (!o.info.has teeHandleFlagInitialized) = true
  · rw [if_pos hi]
    exact rfl
  rw [if_neg hi, wlp_bind, secretAt, wlp_bind, Cryp.wlp_blockAt]
  intro d _
  cases d with
  | attr own y =>
    cases y with
    | secret n m data =>
      show wlp (if data.length < n then _ else _) _ _
      by_cases hn : data.length < n
      · rw [if_pos hn]
        trivial
      · rw [if_neg hn]
        exact rfl
    | ecc => trivial
  | _ => trivial

theorem hashInit_sane (hs : Sane s.utc) (st : Nat) :
    wlp (uteeHashInit c st) (fun _ t => Sane t.utc) s := by
  unfold uteeHashInit
  rw [wlp_bind, wlp_sys]
  apply wlp_mono (teeSvcCrypGetState_same st s.utc)
  rintro r _ rfl
  by_cases hr : r ≠ teeSuccess
  · rw [if_pos hr]
    exact hs
  rw [if_neg hr, wlp_bind, wlp_sys, wlp_stateAt]
  intro cs _
  by_cases hd : teeAlgGetClass cs.algo = teeOperationDigest
  · rw [if_pos hd]
    exact hs
  rw [if_neg hd]
  by_cases hm : teeAlgGetClass cs.algo = teeOperationMac
  swap
  · rw [if_neg hm]
    exact hs
  rw [if_pos hm, wlp_bind, wlp_sys]
  apply wlp_mono (keyOf_same cs.key1 s.utc)
  rintro key _ rfl
  by_cases hk : key.1 ≠ teeSuccess
  · rw [if_pos hk]
    exact hs
  · rw [if_neg hk]
    exact hs

theorem cipherInit_sane (hs : Sane s.utc) (st : Nat) (iv : Ptr) (ivLen : Nat) :
    wlp (uteeCipherInit c st iv ivLen) (fun _ t => Sane t.utc) s := by
  have hlib : ∀ ev, wlp (crypto c ev >>= fun res => uteeCipherInit.finishInit st res)
      (fun _ t => Sane t.utc) s := by
    intro ev
    rw [wlp_bind]
    exact finishInit_sane (s := { s with log := if c.ran s.log ev then ev :: s.log else s.log }) hs st _
  unfold uteeCipherInit
  rw [wlp_bind, wlp_sys]
  apply wlp_mono (teeSvcCrypGetState_same st s.utc)
  rintro r _ rfl
  by_cases hr : r ≠ teeSuccess
  · rw [if_pos hr]
    exact hs
  rw [if_neg hr, wlp_bind, wlp_sys, wlp_stateAt]
  intro cs _
  rw [wlp_bind, wlp_sys]
  apply wlp_mono (keyOf_same cs.key1 s.utc)
  rintro key _ rfl
  by_cases hk : key.1 ≠ teeSuccess
  · rw [if_pos hk]
    exact hs
  rw [if_neg hk, wlp_bind, wlp_sys]
  apply wlp_mono (teeObjGet_cases cs.key2 s.utc)
  rintro found _ ⟨rfl, -⟩
  by_cases hf : found = teeSuccess
  swap
  · rw [if_neg hf]
    exact hlib _
  rw [if_pos hf, wlp_bind, wlp_sys]
  apply wlp_mono (keyOf_same cs.key2 s.utc)
  rintro key2 _ rfl
  by_cases hk2 : key2.1 ≠ teeSuccess
  · rw [if_pos hk2]
    exact hs
  · rw [if_neg hk2]
    exact hlib _

theorem use_sane (hs : Sane s.utc) (x : Use) : wlp (use c e x) (fun _ t => Sane t.utc) s := by
  cases x with
  | getInfo obj =>
    unfold use
    rw [wlp_bind, wlp_sys]
    apply wlp_mono (getInfo_same obj s.utc)
    rintro r _ rfl
    exact hs
  | getAttr obj id n =>
    unfold use
    rw [wlp_bind, wlp_sys]
    apply wlp_mono (getAttr_same obj id n s.utc)
    rintro r _ rfl
    exact hs
  | populate mem obj l =>
    unfold use
    rw [wlp_bind, wlp_sys]
    exact wlp_mono (populate_sane hs) fun _ _ h => h.1
  | copy dst src =>
    unfold use
    rw [wlp_bind, wlp_sys]
    exact wlp_mono (copy_sane hs) fun _ _ h => h.1
  | hashInit st =>
    unfold use
    rw [wlp_bind]
    exact hashInit_sane hs st
  | cipherInit st iv n =>
    unfold use
    rw [wlp_bind]
    exact cipherInit_sane hs st iv n

theorem request_sane (x : Request) (hs : Sane s.utc) :
    wlp (request c e x) (fun _ t => Sane t.utc) s := by
  cases x with
  | call x =>
    unfold request
    rw [wlp_bind, wlp_sys]
    exact sane_call x hs
  | use x =>
    unfold request
    rw [wlp_bind]
    exact use_sane hs x

theorem wiped_of_renewed {x : TeeObj} (hx : u.obj a = some x)
    (h : ∀ q ∈ u.parts a, q ≠ a → u.heap.blocks q = (u.renewed a).heap.blocks q) : Wiped u a := by
  intro q hq
  by_cases hqa : q = a
  · rw [hqa, Utc.obj_iff.mp hx]
    trivial
  have hb := h q hq hqa
  rw [renewed_of_mem hq] at hb
  cases hc : u.heap.blocks q with
  | none => trivial
  | some b =>
    rw [hc, Option.map_some, Option.some_inj] at hb
    cases b with
    | attr own y =>
      injection hb with _ hy
      cases y with
      | secret k n data =>
        injection hy with hk _ hdata
        refine ⟨hk, fun b hb => ?_⟩
        rw [hdata] at hb
        exact List.eq_of_mem_replicate hb
      | ecc d f g n =>
        injection hy
    | bignum own m v =>
      injection hb
    | _ => trivial

/-- **A reset object** -/
theorem reset_asNew_of_sane (hp : c.provider.Overwrites) (hs : Sane s.utc) :
    wlp (sys (uteeCrypObjReset a)) (fun r t => (a ∈ s.utc.objects → r = teeSuccess) ∧
      (r = teeSuccess → Wiped t.utc a ∧ AsNew c e a t)) s := by
  rw [wlp_sys]
  apply wlp_mono (reset_sane hs)
  rintro r v ⟨hv, hmem, hdone⟩
  refine ⟨hmem, fun hr => ?_⟩
  obtain ⟨x, -, hx, hflags, hparts⟩ := hdone hr
  refine ⟨wiped_of_renewed hx hparts, ?_⟩
  exact asNew (s := { s with utc := v }) hp hv hx ((hv.tidy a _ hx).has_iff.mpr hflags)

/-- **A populate that failed** -/
theorem populate_asNew_of_sane (hp : c.provider.Overwrites) (hs : Sane s.utc) {x : TeeObj}
    (hx : s.utc.obj a = some x) (h0 : x.info.has teeHandleFlagInitialized = false)
    (mem : Nat → UInt8) (l : List UteeAttribute) :
    wlp (sys (uteeCrypObjPopulate c.provider mem a l)) (fun r t =>
      r ≠ teeSuccess → AsNew c e a t) s := by
  rw [wlp_sys]
  apply wlp_mono (populate_sane hs)
  rintro r v ⟨hv, hobj, -, -⟩ hr
  exact asNew (s := { s with utc := v }) hp hv ((congrFun (hobj hr) a).trans hx) h0

end

/-- In every state that a session reaches: an object that is allocated is its own renewal; a reset
of an object wipes its key area and leaves the object as new; and a populate of an object that is
not initialised leaves it as new when it fails. -/
theorem reset_asNew (c : Crypto) (e : BignumWriter) (hp : c.provider.Overwrites)
    (kernelAnswers answers : Nat → Nat) (l : List Request) :
    wlp (run (request c e) l) (fun _ s =>
      (∀ ty n, wlp (uteeCrypObjAlloc ty n) (fun r u => r.1 = teeSuccess → u.renewed r.2 = u ∧
        ∃ x, u.obj r.2 = some x ∧ x.info = ⟨ty, 0, n, teeUsageDefault, 0⟩) s.utc) ∧
      (∀ a, wlp (sys (uteeCrypObjReset a)) (fun r t => (a ∈ s.utc.objects → r = teeSuccess) ∧
        (r = teeSuccess → Wiped t.utc a ∧ AsNew c e a t)) s) ∧
      ∀ a x mem attrs, s.utc.obj a = some x → x.info.has teeHandleFlagInitialized = false →
        wlp (sys (uteeCrypObjPopulate c.provider mem a attrs)) (fun r t =>
          r ≠ teeSuccess → AsNew c e a t) s) (Sys.start (Utc.empty kernelAnswers) answers) := by
  have hrun := wlp_run (I := fun s : Sys => Sane s.utc)
    (fun x s hs => request_sane (c := c) (e := e) x hs) (l := l)
    (s := Sys.start (Utc.empty kernelAnswers) answers) (Sane.empty kernelAnswers)
  apply wlp_mono hrun
  intro _ s hs
  refine ⟨fun ty n => ?_, fun a => reset_asNew_of_sane hp hs, fun a x mem attrs hx h0 => ?_⟩
  · exact wlp_mono (objAlloc_sane hs) fun _ _ h => h.2
  · exact populate_asNew_of_sane hp hs hx h0 mem attrs

/-- a library with numbers of its own -/
def numberCrypto : Crypto := { sampleCrypto with provider := bigEndianProvider }

/-- a keypair is allocated and set -/
def sampleSession : List Request :=
  [.call (.objAlloc teeTypeEcdsaKeypair 256), .call (.objPopulate sampleMem 0x1000 sampleKeypair)]

def sessionStart : Sys := Sys.start (Utc.empty Cryp.sampleAnswers) Cryp.sampleAnswers

/-- a run that ends and a call behind it that succeeds -/
theorem ends_of_wp {α : Type} {x : O α} {y : O Nat} {P : Sys → Prop} {w : Sys}
    (h : wlp x (fun _ s => P s) w)
    (hw : decide (wp x (fun _ s => wp y (fun r _ => r = teeSuccess) s) w) = true) :
    ∃ a s t, x w = .ok (a, s) ∧ y s = .ok (teeSuccess, t) ∧ P s := by
  obtain ⟨a, s, hs, hy⟩ := wp_iff.mp (of_decide_eq_true hw)
  obtain ⟨_, t, ht, rfl⟩ := wp_iff.mp hy
  exact ⟨a, s, t, hs, ht, wlp_iff.mp h a s hs⟩

theorem reset_asNew_keypair : ∃ a s t,
    run (request numberCrypto digitsWriter) sampleSession sessionStart = .ok (a, s) ∧
    sys (uteeCrypObjReset 0x1000) s = .ok (teeSuccess, t) ∧
    Wiped t.utc 0x1000 ∧ AsNew numberCrypto digitsWriter 0x1000 t := by
  have hp : numberCrypto.provider.Overwrites := fun _ _ _ => ⟨rfl, fun _ => rfl⟩
  obtain ⟨a, s, t, hs, ht, -, hreset, -⟩ := ends_of_wp (reset_asNew numberCrypto digitsWriter hp
    Cryp.sampleAnswers Cryp.sampleAnswers sampleSession) (y := sys (uteeCrypObjReset 0x1000))
    (by decide +kernel)
  exact ⟨a, s, t, hs, ht, (wlp_iff.mp (hreset 0x1000) teeSuccess t ht).2 rfl⟩

end MTower.Oper
