import MTower.Cryp.Room

/-!
# What a session leaves on the heap

`tee_obj_free` releases the bignums of an attribute block and the object, and never the block.  As
long as no object gets its attribute block there are no objects, and a session holds states and
their contexts only.

* `Grants`             the call allocates an attribute block;
* `Bare`               no objects, and every block is a state or the context of one;
* `call_bare`          one call that allocates no attribute block;
* `bare_run`           a run of such calls;
* `userTaCtxDestroy_bare`   the sweep leaves no block.
-/

set_option linter.unusedVariables false

namespace MTower.Cryp
open Lib Kernel

/-- the object before it has a type -/
def newObj : TeeObj := ⟨⟨0, 0, 0, 0, 0⟩, false, 0, 0⟩

/-- the call allocates an attribute block -/
def Grants (c : Call) (u : Utc) : Prop :=
  ∃ ty n tp, c = .objAlloc ty n ∧ teeSvcFindTypeProps ty = some tp ∧ SizeOk tp n ∧
    ¬ u.heap.Full ∧ ¬ (u.heap.alloc (.obj newObj)).2.Full

section
variable {p : Provider} {u t : Utc} {o s ty n : Nat} {cs : CrypState}

/-! ## an object without its attributes -/

theorem setType_refused (hx : t.heap.blocks o = some (.obj newObj)) (hty : ty ≠ teeTypeData)
    (hfull : ∀ tp, teeSvcFindTypeProps ty = some tp → SizeOk tp n → t.heap.Full) :
    wp (teeObjSetType o ty n) (fun r v => r ≠ teeSuccess ∧ v.heap.blocks = t.heap.blocks) t := by
  have hns : teeErrorNotSupported ≠ teeSuccess := by decide
  have hattr : ¬ newObj.attr ≠ 0 := fun h => h rfl
  rw [teeObjSetType, wp_bind, wp_objAt hx, if_neg hattr, if_neg hty]
  cases htp : teeSvcFindTypeProps ty with
  | none => exact ⟨hns, rfl⟩
  | some tp =>
    dsimp only
    by_cases h1 : n % tp.quanta ≠ 0
    · rw [if_pos h1]
      exact ⟨hns, rfl⟩
    by_cases h2 : n < tp.minSize
    · rw [if_neg h1, if_pos h2]
      exact ⟨hns, rfl⟩
    by_cases h3 : tp.maxSize < n
    · rw [if_neg h1, if_neg h2, if_pos h3]
      exact ⟨hns, rfl⟩
    have hf := hfull tp htp ⟨by omega, by omega, by omega⟩
    rw [if_neg h1, if_neg h2, if_neg h3, wp_bind, wp_teeMalloc, Heap.alloc_full _ hf, wp_bind,
      wp_storeAt, if_pos rfl]
    refine ⟨by decide, ?_⟩
    funext q
    rw [Utc.store_blocks]
    by_cases hq : q = o
    · rw [if_pos hq, hq, hx]
      rfl
    · rw [if_neg hq]

theorem teeObjAlloc_full (hf : u.heap.Full) :
    wp teeObjAlloc (fun a t => a = 0 ∧ t.heap.blocks = u.heap.blocks) u := by
  rw [teeObjAlloc, wp_bind, wp_teeMalloc, Heap.alloc_full _ hf, if_pos rfl]
  exact ⟨rfl, rfl⟩

theorem teeObjAlloc_granted (hf : ¬ u.heap.Full) :
    wp teeObjAlloc (fun a t => a ≠ 0 ∧ u.heap.blocks a = none ∧
      t.heap = (u.heap.alloc (.obj newObj)).2 ∧
      ∀ r, t.heap.blocks r = if r = a then some (.obj newObj) else u.heap.blocks r) u := by
  obtain ⟨ha, -, hn⟩ := Heap.not_full_iff.mp hf
  rw [teeObjAlloc, wp_bind, wp_teeMalloc, Heap.alloc_not_full _ hf, if_neg ha, wp_bind, wp_modify,
    wp_pure, Heap.alloc_not_full _ hf]
  exact ⟨ha, hn, rfl, Function.update_apply _ _ _⟩

/-- **No attribute block**, no trace. -/
theorem objAlloc_refused (h0 : u.heap.blocks 0 = none) (h : ¬ Grants (.objAlloc ty n) u) :
    wp (uteeCrypObjAlloc ty n) (fun r t => r.1 ≠ teeSuccess ∧ t.heap.blocks = u.heap.blocks) u := by
  rw [uteeCrypObjAlloc]
  by_cases hty : ty = teeTypeData
  · rw [if_pos hty]
    exact ⟨by decide, rfl⟩
  rw [if_neg hty, wp_bind]
  by_cases hf : u.heap.Full
  · refine wp_mono (teeObjAlloc_full hf) ?_
    rintro a t ⟨rfl, hb⟩
    rw [if_pos rfl]
    exact ⟨by decide, hb⟩
  refine wp_mono (teeObjAlloc_granted hf) ?_
  rintro a t ⟨ha, hn, hheap, hb⟩
  rw [if_neg ha, wp_bind]
  refine wp_mono (setType_refused ((hb a).trans (if_pos rfl)) hty ?_) ?_
  · intro tp htp hsize
    by_contra hroom
    rw [hheap] at hroom
    exact h ⟨ty, n, tp, rfl, htp, hsize, hf, hroom⟩
  · rintro res v ⟨hres, hv⟩
    have hobj : v.heap.blocks a = some (.obj newObj) := by
      rw [hv, hb, if_pos rfl]
    have hnull : v.heap.blocks 0 = none := by
      rw [hv, hb, if_neg ha.symm, h0]
    rw [if_pos hres, wp_bind, teeObjFree_untyped hnull hobj rfl, wp_pure]
    refine ⟨hres, ?_⟩
    funext r
    show (v.erase a).heap.blocks r = _
    rw [Utc.erase_blocks, hv, hb]
    by_cases hr : r = a
    · rw [if_pos hr, hr, hn]
    · rw [if_neg hr, if_neg hr]

/-! ## states only -/

/-- every block is a state, or the context of one -/
def OnlyStates (u : Utc) : Prop :=
  ∀ q c, u.heap.blocks q = some c →
    (∃ cs, c = .state cs) ∨ ∃ s cs, u.st s = some cs ∧ cs.ctx = q

/-- no objects, and states with their contexts -/
structure Bare (p : Provider) (u : Utc) : Prop where
  core : Core p u
  objects : u.objects = []
  only : OnlyStates u

theorem Bare.empty (answers : Nat → Nat) : Bare p (Utc.empty answers) :=
  ⟨Core.empty answers, rfl, nofun⟩

theorem OnlyStates.congr (h : OnlyStates u) (hb : t.heap.blocks = u.heap.blocks) : OnlyStates t := by
  have hst : t.st = u.st := by
    funext q
    unfold Utc.st
    rw [hb]
  rw [OnlyStates, hb, hst]
  exact h

theorem Bare.obj (h : Bare p u) (a : Nat) : u.obj a = none := by
  have hm := h.core.objMem a
  rw [h.objects] at hm
  simpa using hm

/-- there is no object to find -/
theorem Bare.get (h : Bare p u) (k : Nat) {Q : Nat → Utc → Prop} :
    wp (teeObjGet k) Q u ↔ Q teeErrorBadParameters u := by
  rw [wp_teeObjGet h.core, h.objects, if_neg List.not_mem_nil]

theorem Bare.keyFree (h : Bare p u) {algo mode k : Nat} (hk : KeyFree u algo mode k) : k = 0 := by
  rcases hk with hk | ⟨x, hx, -⟩
  · exact hk
  · rw [h.obj] at hx
    cases hx

/-- a state that is freed takes its context with it -/
theorem Bare.dropped (h : Bare p u) (hs : u.st s = some cs) : Bare p (u.dropState s cs.ctx) := by
  have hd := dropState_spec h.core hs
  refine ⟨hd.core, hd.objects.trans h.objects, ?_⟩
  intro q c hq
  rw [dropState_blocks] at hq
  by_cases hgone : q = s ∨ cs.ctx ≠ 0 ∧ q = cs.ctx
  · rw [if_pos hgone] at hq
    cases hq
  rw [if_neg hgone] at hq
  rw [not_or] at hgone
  rcases h.only q c hq with hstate | ⟨s', cs', hs', hctx⟩
  · exact .inl hstate
  · have hne : s' ≠ s := by
      rintro rfl
      rw [hs, Option.some_inj] at hs'
      subst hs'
      have h0 : q ≠ 0 := h.core.live_ne_null hq
      exact hgone.2 ⟨hctx ▸ h0, hctx.symm⟩
    exact .inr ⟨s', cs', by rw [hd.st, if_neg hne, hs'], hctx⟩

theorem Bare.wp_crypStateFree (h : Bare p u) (hs : u.st s = some cs) {Q : Unit → Utc → Prop} :
    wp (crypStateFree p s) Q u ↔ Q () (u.dropState s cs.ctx) := by
  have hk : ∀ k, k ∉ u.objects := by
    intro k
    rw [h.objects]
    exact List.not_mem_nil
  rw [crypStateFree, wp_bind, wp_stateAt (Utc.st_iff.mp hs), wp_bind,
    releaseKey_absent h.core (hk _), wp_bind, releaseKey_absent h.core (hk _),
    wp_crypStateFree_tail h.core hs]

/-! ## the calls -/

variable {algo mode key1 key2 : Nat} {c : Call}

/-- without a key there is only a digest -/
theorem prepareState_keyless (h : teeAlgGetClass algo ≠ teeOperationDigest) :
    ∃ e, e ≠ teeSuccess ∧ prepareState p s algo 0 0 = pure e := by
  have hbad : teeErrorBadParameters ≠ teeSuccess := by decide
  have hns : teeErrorNotSupported ≠ teeSuccess := by decide
  rw [prepareState]
  by_cases h1 : teeAlgGetClass algo = teeOperationCipher
  · rw [if_pos h1, if_pos (by simp [em])]
    exact ⟨_, hbad, rfl⟩
  rw [if_neg h1]
  by_cases h2 : teeAlgGetClass algo = teeOperationAe
  · rw [if_pos h2, if_pos (.inl rfl)]
    exact ⟨_, hbad, rfl⟩
  rw [if_neg h2]
  by_cases h3 : teeAlgGetClass algo = teeOperationMac
  · rw [if_pos h3, if_pos (.inl rfl)]
    exact ⟨_, hbad, rfl⟩
  rw [if_neg h3, if_neg h]
  split
  · rw [if_pos (.inl rfl)]
    exact ⟨_, hbad, rfl⟩
  split
  · rw [if_pos (.inl rfl)]
    exact ⟨_, hbad, rfl⟩
  · exact ⟨_, hns, rfl⟩

theorem stateAlloc_keyless (h : teeAlgGetClass algo ≠ teeOperationDigest) :
    wlp (uteeCrypStateAlloc p algo mode 0 0) (fun r _ => r.1 ≠ teeSuccess) u := by
  have hk0 : checkKey algo mode 0 = pure teeSuccess := if_pos rfl
  have hoom : teeErrorOutOfMemory ≠ teeSuccess := by decide
  rw [uteeCrypStateAlloc, wlp_bind, hk0, wlp_pure, if_neg (not_not.mpr rfl), wlp_bind, wlp_pure,
    if_neg (not_not.mpr rfl), wlp_bind]
  refine wlp_mono (wlp_true _ u) fun s t _ => ?_
  by_cases hs : s = 0
  · rw [if_pos hs]
    exact hoom
  obtain ⟨e, he, hprep⟩ : ∃ e, e ≠ teeSuccess ∧ prepareState p s algo 0 0 = pure e :=
    prepareState_keyless h
  rw [if_neg hs, wlp_bind]
  refine wlp_mono (wlp_true _ t) fun _ v _ => ?_
  rw [wlp_bind, wlp_storeAt, wlp_bind, hprep, wlp_pure, if_pos he, wlp_bind]
  exact wlp_mono (wlp_true _ _) fun _ _ _ => he

theorem DigestState.only {ctx : Nat} (hu : OnlyStates u) (h : DigestState algo mode s ctx u t) :
    OnlyStates t := by
  have hst : t.st s = some ⟨algo, mode, 0, 0, ctx, false⟩ := by
    rw [Utc.st_iff, h.blocks, if_pos rfl]
  intro q c hq
  rw [h.blocks] at hq
  by_cases hqs : q = s
  · rw [if_pos hqs, Option.some_inj] at hq
    exact .inl ⟨_, hq.symm⟩
  rw [if_neg hqs] at hq
  by_cases hqc : q = ctx
  · exact .inr ⟨s, _, hst, hqc.symm⟩
  rw [if_neg hqc] at hq
  rcases hu q c hq with hstate | ⟨s', cs', hs', hctx⟩
  · exact .inl hstate
  · have hb := Utc.st_iff.mp hs'
    have hne : s' ≠ s := by
      rintro rfl
      rw [h.fresh] at hb
      cases hb
    have hnc : s' ≠ ctx := by
      rintro rfl
      rw [h.freshCtx] at hb
      cases hb
    refine .inr ⟨s', cs', ?_, hctx⟩
    rw [Utc.st_iff, h.blocks, if_neg hne, if_neg hnc, hb]

theorem stateAlloc_bare (h : Bare p u) :
    wp (uteeCrypStateAlloc p algo mode key1 key2) (fun _ t => Bare p t) u := by
  have hspec : wp (uteeCrypStateAlloc p algo mode key1 key2) (fun r t =>
      r.1 ≠ teeSuccess ∧ SameLists u t ∧ t.heap.blocks = u.heap.blocks ∨
      r.1 = teeSuccess ∧ Registered p r.2 algo mode key1 key2 u t) u := uteeCrypStateAlloc_spec h.core
  obtain ⟨r, t, hrun, hr⟩ := wp_iff.mp hspec
  rw [wp_of_eq hrun]
  rcases hr with ⟨-, hl, hb⟩ | ⟨hok, hreg⟩
  · exact ⟨(h.core.unchanged hl hb).core, hl.objects.trans h.objects, h.only.congr hb⟩
  · have hk1 := h.keyFree hreg.free1
    have hk2 := h.keyFree hreg.free2
    subst hk1 hk2
    refine ⟨hreg.core, hreg.objects.trans h.objects, ?_⟩
    by_cases hd : teeAlgGetClass algo = teeOperationDigest
    · obtain ⟨ctx, hctx⟩ := (wlp_of_eq hrun).mp (digestState_blocks hd) hok
      exact hctx.only h.only
    · exact absurd hok ((wlp_of_eq hrun).mp (stateAlloc_keyless hd))

theorem stateFree_bare (h : Bare p u) : wp (uteeCrypStateFree p s) (fun _ t => Bare p t) u := by
  rw [uteeCrypStateFree, wp_bind, wp_teeSvcCrypGetState h.core]
  by_cases hs : s ∈ u.crypStates
  · obtain ⟨cs, hcs⟩ := h.core.stBlock hs
    rw [if_pos hs, if_neg (not_not.mpr rfl), wp_bind, h.wp_crypStateFree (Utc.st_iff.mpr hcs), wp_pure]
    exact h.dropped (Utc.st_iff.mpr hcs)
  · rw [if_neg hs, if_pos (by decide)]
    exact h

/-- the object is looked for before anything else is done -/
theorem objAlloc_bare (h : Bare p u) (hg : ¬ Grants (.objAlloc ty n) u) :
    wp (uteeCrypObjAlloc ty n) (fun _ t => Bare p t) u := by
  refine wp_mono (wp_and (uteeCrypObjAlloc_spec h.core)
    (wlp_of_wp (objAlloc_refused h.core.null hg))) ?_
  rintro r t ⟨⟨-, hun⟩ | ⟨hok, -⟩, hne, hb⟩
  · exact ⟨hun.core, hun.objects.trans h.objects, h.only.congr hb⟩
  · exact absurd hok hne

/-- **One call** that allocates no attribute block. -/
theorem call_bare (h : Bare p u) (hc : ∀ k, c ≠ .objClose k) (hg : ¬ Grants c u) :
    wp (call p c) (fun _ t => Bare p t) u := by
  have hne : ¬ (teeErrorBadParameters = teeSuccess) := by decide
  cases c with
  | objAlloc ty n => exact objAlloc_bare h hg
  | objPopulate mem o l =>
    rw [call, wp_bind, uteeCrypObjPopulate, wp_bind, h.get, if_pos hne]
    exact h
  | objCopy d s =>
    rw [call, wp_bind, uteeCrypObjCopy, wp_bind, h.get, if_pos hne]
    exact h
  | objReset o =>
    rw [call, wp_bind, uteeCrypObjReset, wp_bind, h.get, if_pos hne]
    exact h
  | objClose o => exact absurd rfl (hc o)
  | stateAlloc a m k1 k2 => exact stateAlloc_bare h
  | stateFree s =>
    rw [call, wp_bind]
    exact wp_mono (stateFree_bare h) fun _ _ ht => ht

/-- a call that closes no object and gets no attribute block -/
def Spares (c : Call) (u : Utc) : Prop := (∀ k, c ≠ .objClose k) ∧ ¬ Grants c u

theorem bare_run {l : List Call} (h : Bare p u) (hl : Guarded (call p) Spares l u) :
    wp (run (call p) l) (fun _ t => Bare p t) u :=
  wp_run (fun c u hu hc => call_bare hu hc.1 hc.2) hl h

/-! ## the sweep -/

theorem freeFirst_bare (h : Bare p u) (hn : u.crypStates.length = n) :
    wp (freeFirst p n) (fun _ t => Bare p t ∧ t.crypStates = []) u := by
  induction n generalizing u with
  | zero =>
    have he : u.crypStates = [] := List.length_eq_zero_iff.mp hn
    rw [freeFirst, wp_bind, wp_get, if_pos he]
    exact ⟨h, he⟩
  | succ n ih =>
    rw [freeFirst, wp_bind, wp_get]
    cases he : u.crypStates with
    | nil =>
      rw [he] at hn
      cases hn
    | cons s l =>
      obtain ⟨cs, hcs⟩ := h.core.stBlock (s := s) (by rw [he]; exact List.mem_cons_self)
      have hst := Utc.st_iff.mpr hcs
      show wp (crypStateFree p s >>= fun _ => freeFirst p n) _ u
      rw [wp_bind, h.wp_crypStateFree hst]
      apply ih (h.dropped hst)
      rw [(dropState_spec h.core hst).crypStates, he, List.erase_cons_head]
      rw [he, List.length_cons] at hn
      omega

/-- **The sweep leaves no block.** -/
theorem userTaCtxDestroy_bare (h : Bare p u) :
    wp (userTaCtxDestroy p) (fun _ t => ∀ q, t.heap.blocks q = none) u := by
  rw [userTaCtxDestroy, wp_bind, teeSvcCrypFreeStates, wp_bind, wp_get]
  refine wp_mono (freeFirst_bare h rfl) ?_
  rintro _ t ⟨ht, hnil⟩
  rw [teeObjCloseAll, wp_bind, wp_get, ht.objects]
  show wp (closeFirst 0) _ t
  rw [closeFirst, wp_bind, wp_get, if_pos ht.objects, wp_pure]
  intro q
  have hst : ∀ s, t.st s = none := by
    intro s
    have hm := ht.core.stMem s
    rw [hnil] at hm
    simpa using hm
  cases hq : t.heap.blocks q with
  | none => rfl
  | some c =>
    rcases ht.only q c hq with ⟨cs, rfl⟩ | ⟨s, cs, hs, -⟩
    · have hs := hst q
      rw [Utc.st_iff.mpr hq] at hs
      cases hs
    · rw [hst] at hs
      cases hs

end

end MTower.Cryp
