import MTower.Oper.Feeding

/-!
# The runs of a cipher or MAC operation

* `Raised`                       a handle that is being allocated;
* `teeAllocateOperation_good`    an allocated handle is in order;
* `step_good`                    a call keeps it in order;
* `orderly_run`                  so it is in order behind any calls.
-/

set_option linter.unusedVariables false

namespace MTower.Oper
open Lib Kernel Cryp

variable {c : Crypto} {s t : Sys} {h k op m : Nat} {o o' : Operation} {u : Utc}

/-! ## allocation -/

structure Raised (c : Crypto) (m k op : Nat) (o : Operation) (t : Sys) : Prop where
  block : t.heap.blocks op = some (.op o)
  core : Core c.provider t.utc
  log : t.log = []
  algorithm : o.info.algorithm = m
  mode : o.info.mode = k
  cls : o.info.operationClass = teeAlgGetClass m
  flags : o.info.handleState = handleStateOf m

theorem Raised.update (hr : Raised c m k op o t) (f : Operation → Operation)
    (hf : (f o).info = o.info) :
    wlp (updateOp op f) (fun _ v => Raised c m k op (f o) v ∧ v.utc = t.utc) t := by
  rw [wlp_updateOp_of hr.block]
  refine ⟨⟨store_self _, hr.core, hr.log, ?_, ?_, ?_, ?_⟩, rfl⟩
  · rw [hf]
    exact hr.algorithm
  · rw [hf]
    exact hr.mode
  · rw [hf]
    exact hr.cls
  · rw [hf]
    exact hr.flags

theorem Raised.utc (hr : Raised c m k op o t) (hu : Core c.provider u) :
    Raised c m k op o { t with utc := u } := ⟨hr.block, hu, hr.log, hr.algorithm, hr.mode, hr.cls, hr.flags⟩

/-- `y` behind a success of `x` -/
theorem wlp_andThen {x y : O Nat} {P : Sys → Prop}
    (hx : wlp x (fun res t => res = teeSuccess → wlp y (fun res t => res = teeSuccess → P t) t) s) :
    wlp (andThen x y) (fun res t => res = teeSuccess → P t) s := by
  rw [andThen, wlp_bind]
  refine wlp_mono hx ?_
  intro res t ht
  by_cases hres : res ≠ teeSuccess
  · rw [if_pos hres]
    exact fun e => absurd e hres
  · rw [if_neg hres]
    exact ht (not_not.mp hres)

theorem allocBuffer_raised {a : Setup} (hr : Raised c m k op o s) :
    wlp (allocBuffer op a) (fun _ t => t.utc = s.utc ∧
      ∃ b, Raised c m k op { o with buffer := b } t) s := by
  have hput : ∀ {b : Nat} {res : Nat} {v : Sys}, Raised c m k op o v → v.utc = s.utc →
      wlp (do
        updateOp op fun o => { o with buffer := b }
        pure res : O Nat) (fun _ t => t.utc = s.utc ∧
          ∃ b, Raised c m k op { o with buffer := b } t) v := by
    intro b res v hv hu
    rw [wlp_bind]
    refine wlp_mono (hv.update (fun o => { o with buffer := b }) rfl) ?_
    rintro _ w ⟨hw, hwu⟩
    exact ⟨hwu.trans hu, b, hw⟩
  unfold allocBuffer
  split
  · rw [wlp_bind]
    refine wlp_malloc ?_ ?_
    · intro _
      exact hput ⟨hr.block, hr.core, hr.log, hr.algorithm, hr.mode, hr.cls, hr.flags⟩ rfl
    · intro b h0 hb
      have hne : op ≠ b := by
        rintro rfl
        rw [hr.block] at hb
        cases hb
      exact hput ⟨(store_of_ne (s := s.tick) _ hne).trans hr.block, hr.core, hr.log, hr.algorithm,
        hr.mode, hr.cls, hr.flags⟩ rfl
  · exact ⟨rfl, o.buffer, hr⟩

theorem allocKey_raised {ty n : Nat} {put : Operation → Nat → Operation} (hr : Raised c m k op o s)
    (hput : ∀ k, (put o k).info = o.info) :
    wlp (allocKey op ty n put) (fun res t => res = teeSuccess → ∃ q x, s.utc.obj q = none ∧
      x.info.objectType = ty ∧ Raised c m k op (put o q) t ∧
      t.utc.obj = Function.update s.utc.obj q (some x)) s := by
  rw [allocKey, wlp_bind, teeAllocateTransientObject, wlp_bind, wlp_sys]
  refine wlp_mono (wlp_of_wp (uteeCrypObjAlloc_spec hr.core)) ?_
  intro r u hru
  rw [wlp_bind]
  refine wlp_mono (leave_same _ _) ?_
  rintro _ t ⟨rfl, rfl, -⟩
  show wlp (if _ then _ else _) _ _
  by_cases hres : r.1 ≠ teeSuccess
  · rw [if_pos hres]
    exact fun e => absurd e hres
  obtain ⟨hne, -⟩ | ⟨-, x, -, hadd, htyped⟩ := hru
  · exact absurd hne hres
  rw [if_neg hres, wlp_bind]
  refine wlp_mono ((hr.utc hadd.core).update (fun o => put o r.2) (hput r.2)) ?_
  rintro _ v ⟨hv, hvu⟩ _
  refine ⟨r.2, x, obj_of_none hadd.fresh, by rw [htyped.eq], hv, ?_⟩
  rw [hvu]
  exact hadd.obj

/-- the key objects of a handle -/
structure Keyed (o : Operation) (u : Utc) : Prop where
  key1 : KeyObject u o.key1
  key2 : o.has teeHandleFlagExpectTwoKeys = true → KeyObject u o.key2 ∧ o.key1 ≠ o.key2
  noKey2 : o.has teeHandleFlagExpectTwoKeys = false → o.key2 = 0

/-- the keys of ciphers and MACs have no bignums -/
theorem keyType_secret {k : Nat} {a : Setup} (ha : setupOf m k = some a)
    (hclass : teeAlgGetClass m = teeOperationCipher ∨ teeAlgGetClass m = teeOperationMac) :
    isEccKeypair (teeAlgGetKeyType m a.withPrivateKey) = false := by
  have hdec : ∀ m ∈ teeAlgTwoBlocks ++ teeAlgBlocks ++ teeAlgStream ++ teeAlgMac,
      isEccKeypair (teeAlgGetKeyType m false) = false := by decide
  have hother : ∀ {l : List Nat}, (∀ m ∈ l, ¬ (teeAlgGetClass m = teeOperationCipher ∨
      teeAlgGetClass m = teeOperationMac)) → m ∉ l := fun hl hm => hl m hm hclass
  unfold setupOf at ha
  by_cases h1 : m ∈ teeAlgTwoBlocks ++ teeAlgBlocks ++ teeAlgStream
  · have hp : a.withPrivateKey = false := by
      rw [if_pos h1] at ha
      dsimp only at ha
      split at ha
      · cases ha
        rfl
      split at ha
      · cases ha
        rfl
      · cases ha
    rw [hp]
    exact hdec m (List.mem_append_left _ h1)
  have hpad : m ≠ teeAlgRsaNoPad := fun e =>
    hother (l := [teeAlgRsaNoPad]) (by decide) (List.mem_singleton.mpr e)
  rw [if_neg h1, if_neg (hother (by decide)), if_neg (hother (by decide)), if_neg hpad,
    if_neg (hother (by decide)), if_neg (hother (by decide))] at ha
  by_cases h2 : m ∈ teeAlgMac
  · have hp : a.withPrivateKey = false := by
      rw [if_pos h2, setupFor] at ha
      split at ha
      · cases ha
        rfl
      · cases ha
    rw [hp]
    exact hdec m (List.mem_append_right _ h2)
  · rw [if_neg h2] at ha
    cases ha

theorem allocKeys_raised {a : Setup} {n : Nat} (hr : Raised c m k op o s)
    (hd : teeAlgGetClass m ≠ teeOperationDigest) (h0 : o.key2 = 0)
    (hty : isEccKeypair (teeAlgGetKeyType m a.withPrivateKey) = false) :
    wlp (allocKeys op a m n) (fun res t => res = teeSuccess →
      ∃ o', Raised c m k op o' t ∧ Keyed o' t.utc) s := by
  rw [allocKeys, if_neg hd, wlp_bind, wlp_opAt_of hr.block]
  dsimp only
  by_cases h2 : o.has teeHandleFlagExpectTwoKeys = true
  · rw [if_pos h2]
    refine wlp_andThen (wlp_mono (allocKey_raised hr fun _ => rfl) ?_)
    intro res t ht hres
    obtain ⟨k1, x1, -, hx1, hr1, hobj1⟩ := ht hres
    refine wlp_mono (allocKey_raised hr1 fun _ => rfl) ?_
    intro res v hv hres
    obtain ⟨k2, x2, hn2, hx2, hr2, hobj2⟩ := hv hres
    have hne : k1 ≠ k2 := by
      rintro rfl
      rw [hobj1, Function.update_self] at hn2
      cases hn2
    refine ⟨_, hr2, ⟨x1, ?_, by rw [hx1]; exact hty⟩, fun _ => ⟨⟨x2, ?_, by rw [hx2]; exact hty⟩,
      hne⟩, fun e => absurd (h2.symm.trans e) (by decide)⟩
    · rw [hobj2, Function.update_of_ne hne, hobj1, Function.update_self]
    · rw [hobj2, Function.update_self]
  · rw [if_neg h2]
    refine wlp_mono (allocKey_raised hr fun _ => rfl) ?_
    intro res t ht hres
    obtain ⟨k1, x1, -, hx1, hr1, hobj1⟩ := ht hres
    refine ⟨_, hr1, ⟨x1, ?_, by rw [hx1]; exact hty⟩, fun e => absurd e h2, fun _ => h0⟩
    rw [hobj1, Function.update_self]

theorem allocState_raised (hr : Raised c m k op o s) :
    wlp (allocState c op m k) (fun res t => res = teeSuccess → ∃ o', Raised c m k op o' t ∧
      (Keyed o s.utc → Keyed o' t.utc) ∧ ∃ cs, t.utc.st o'.state = some cs ∧ cs.algo = m ∧ cs.key1 = o'.key1 ∧
        cs.key2 = o'.key2 ∧ (teeAlgGetClass m = teeOperationCipher → cs.ctx ≠ 0) ∧
        cs.mode = k) s := by
  rw [allocState, wlp_bind, wlp_opAt_of hr.block, wlp_bind, wlp_sys]
  have hctx : wlp (uteeCrypStateAlloc c.provider m k o.key1 o.key2) (fun r t =>
      r.1 = teeSuccess → teeAlgGetClass m = teeOperationCipher → HasCtx r.2 t) s.utc := by
    by_cases hc : teeAlgGetClass m = teeOperationCipher
    · exact wlp_mono (stateAlloc_ctx hc) fun _ _ ht e _ => ht e
    · exact wlp_mono (wlp_true _ _) fun _ _ _ _ e => absurd e hc
  refine wlp_mono (wlp_of_wp (wp_and (uteeCrypStateAlloc_spec hr.core) hctx)) ?_
  rintro r u ⟨hspec, hctx⟩
  by_cases hres : r.1 ≠ teeSuccess
  · rw [if_pos hres]
    exact fun e => absurd e hres
  obtain ⟨hne, -⟩ | ⟨-, hreg⟩ := hspec
  · exact absurd hne hres
  rw [if_neg hres, wlp_bind]
  refine wlp_mono ((hr.utc hreg.core).update (fun o => { o with state := r.2 }) rfl) ?_
  rintro _ v ⟨hv, hvu⟩ _
  rw [show v.utc = u from hvu]
  obtain ⟨ctx, hst⟩ := hreg.st
  have hself : u.st r.2 = some ⟨m, k, o.key1, o.key2, ctx, false⟩ := by
    rw [hst, Function.update_self]
  refine ⟨_, hv, fun hk => ⟨hk.key1.busied hreg.obj, fun e => ⟨(hk.key2 e).1.busied hreg.obj,
    (hk.key2 e).2⟩, hk.noKey2⟩, _, hself, rfl, rfl, rfl, fun e => ?_, rfl⟩
  obtain ⟨cs, hcs, h0⟩ := hctx (not_not.mp hres) e
  rw [hself, Option.some_inj] at hcs
  rw [← hcs] at h0
  exact h0

/-- a handle whose keys were never set -/
theorem Raised.good (hr : Raised c m k op o t)
    (hclass : teeAlgGetClass m = teeOperationCipher ∨ teeAlgGetClass m = teeOperationMac)
    (hk : Keyed o t.utc) (hst : ∃ cs, t.utc.st o.state = some cs ∧ cs.algo = m ∧
      cs.key1 = o.key1 ∧ cs.key2 = o.key2 ∧ (teeAlgGetClass m = teeOperationCipher → cs.ctx ≠ 0) ∧
      cs.mode = k)
    (hi : o.operationState = teeOperationStateInitial) : Good c o t.utc t.log := by
  have hdig : m ∉ teeAlgDigest := by
    have hdec : ∀ m ∈ teeAlgDigest, ¬ (teeAlgGetClass m = teeOperationCipher ∨
        teeAlgGetClass m = teeOperationMac) := by decide
    exact fun hm => hdec m hm hclass
  have hflag : ∀ f, teeHandleFlagExpectTwoKeys &&& f = 0 → o.has f = false := by
    intro f hf
    unfold Operation.has
    rw [hr.flags, handleStateOf, if_neg hdig, Nat.or_zero]
    split
    · rw [hf]
      rfl
    · rw [Nat.zero_and]
      rfl
  have hset := hflag teeHandleFlagKeySet (by decide)
  have hinit := hflag teeHandleFlagInitialized (by decide)
  have hne : ¬ o.operationState = teeOperationStateActive := by
    rw [hi]
    exact initial_ne_active
  refine ⟨⟨hr.core, ?_, ?_, ?_, ?_, hk.key1, hk.key2, hk.noKey2⟩, ⟨?_, fun e => absurd e hne, ?_, ?_⟩,
    .inl hi, ?_, fun e => absurd e hne⟩
  · rw [hr.algorithm]
    exact hr.cls
  · rw [hr.cls]
    exact hclass
  · rw [hr.algorithm]
    exact expectTwoKeys_iff hr.flags
  · rw [hr.algorithm, hr.cls, hr.mode]
    exact hst
  · exact iff_of_false hne (by rw [hinit]; decide)
  · rw [hset]
    exact nofun
  · rw [hr.log]
    exact trivial
  · rw [hset]
    exact nofun

theorem prepareOperation_good {a : Setup} {n : Nat} (ha : setupOf m k = some a)
    (hr : Raised c m k op o s) (h0 : o.key2 = 0)
    (hclass : teeAlgGetClass m = teeOperationCipher ∨ teeAlgGetClass m = teeOperationMac) :
    wlp (prepareOperation c op a m k n) (fun res t => res = teeSuccess → GoodAt c op t) s := by
  have hd : teeAlgGetClass m ≠ teeOperationDigest := by
    rcases hclass with e | e <;> rw [e] <;> decide
  refine wlp_andThen (wlp_mono (allocBuffer_raised hr) ?_)
  rintro _ t1 ⟨-, b, hr1⟩ -
  refine wlp_andThen ?_
  rw [setBlockSize, wlp_bind]
  refine wlp_mono (hr1.update (fun o => { o with
    blockSize := a.blockSize, bufferTwoBlocks := a.bufferTwoBlocks }) rfl) ?_
  rintro _ t2 ⟨hr2, -⟩ -
  refine wlp_andThen (wlp_mono (allocKeys_raised hr2 hd h0 (keyType_secret ha hclass)) ?_)
  intro res t3 h3 hres
  obtain ⟨o3, hr3, hk3⟩ := h3 hres
  refine wlp_andThen (wlp_mono (allocState_raised hr3) ?_)
  intro res t4 h4 hres
  obtain ⟨o4, hr4, hk4, hst4⟩ := h4 hres
  have hk4 := hk4 hk3
  refine wlp_andThen ?_
  rw [initDigest, if_neg hd]
  intro _
  rw [setInitial, wlp_bind]
  refine wlp_mono (hr4.update (fun o => { o with operationState := teeOperationStateInitial })
    rfl) ?_
  rintro _ t5 ⟨hr5, hu⟩ _
  refine ⟨_, hr5.block, hr5.good hclass ?_ ?_ rfl⟩
  · rw [hu]
    exact ⟨hk4.key1, hk4.key2, hk4.noKey2⟩
  · rw [hu]
    exact hst4

theorem insertElem_same (e : Nat) :
    wlp (insertElem e) (fun _ t => t = { s with elems := e :: s.elems }) s := by
  have htouch : ∀ l, wlp (touchElems l) (fun _ t => t = s) s := by
    intro l
    induction l with
    | nil => rfl
    | cons e l ih =>
      rw [touchElems, wlp_bind]
      refine wlp_mono (elemAt_same e) ?_
      rintro _ t rfl
      exact ih
  rw [insertElem, wlp_bind, wlp_get, wlp_bind]
  refine wlp_mono (htouch _) ?_
  rintro _ t rfl
  rfl

/-- what the allocation of a handle comes to when it succeeds -/
theorem registerOperation_wlp {a : Setup} {n : Nat} {Q : Nat → Sys → Prop}
    (hq : ∀ op t, op ≠ 0 → t.heap.blocks op = some (.op (Operation.start a m k n)) →
      t.utc = s.utc → t.log = s.log → Registered t op →
      wlp (prepareOperation c op a m k n) (fun res v => res = teeSuccess → Q op v) t) :
    wlp (registerOperation c a m k n) (fun r t => r.1 = teeSuccess → Q r.2 t) s := by
  have hoom : teeErrorOutOfMemory ≠ teeSuccess := by decide
  -- the blocks of the handle and of its element leave the objects
  suffices hrest : ∀ (op e : Nat) (v : Sys), op ≠ 0 → e ≠ op → v.utc = s.utc → v.log = s.log →
      wlp (do
        storeAt e (.elem op)
        insertElem e
        storeAt op (.op (Operation.start a m k n))
        let res ← prepareOperation c op a m k n
        if res ≠ teeSuccess then do
          abandonOperation c op res
          pure (res, 0)
        else pure (teeSuccess, op) : O (Nat × Nat))
        (fun r t => r.1 = teeSuccess → Q r.2 t) v by
    unfold registerOperation
    rw [wlp_bind]
    refine wlp_malloc ?_ ?_
    · intro _
      rw [if_pos rfl]
      exact fun e => absurd e hoom
    · intro op hop0 _
      rw [if_neg hop0, wlp_bind]
      refine wlp_malloc ?_ ?_
      · intro _
        rw [if_pos rfl, wlp_bind]
        exact wlp_mono (wlp_true _ _) fun _ _ _ e => absurd e hoom
      · intro e he0 he
        have hne : e ≠ op := by
          rintro rfl
          rw [store_self] at he
          cases he
        rw [if_neg he0]
        exact hrest op e _ hop0 hne rfl rfl
  intro op e v hop0 hne hvu hvl
  rw [wlp_bind]
  show wlp (insertElem e >>= _) _ (v.store e (.elem op))
  rw [wlp_bind]
  refine wlp_mono (insertElem_same e) ?_
  rintro _ t rfl
  rw [wlp_bind]
  show wlp (prepareOperation c op a m k n >>= _) _ (Sys.store _ op (.op (Operation.start a m k n)))
  rw [wlp_bind]
  refine wlp_mono (hq op _ hop0 (store_self _) hvu hvl ⟨e, List.mem_cons_self, ?_⟩) ?_
  · exact frame_elem.mpr ((store_of_ne _ hne).trans (store_self _))
  intro res w hw
  by_cases hres : res ≠ teeSuccess
  · rw [if_pos hres, wlp_bind]
    exact wlp_mono (wlp_true _ _) fun _ _ _ e => absurd e hres
  · rw [if_neg hres]
    exact fun _ => hw (not_not.mp hres)

theorem teeAllocateOperation_wlp {n : Nat} {Q : Nat → Sys → Prop}
    (hq : ∀ a op t, setupOf m k = some a → op ≠ 0 →
      t.heap.blocks op = some (.op (Operation.start a m k n)) → t.utc = s.utc → t.log = s.log →
      Registered t op → wlp (prepareOperation c op a m k n) (fun res v => res = teeSuccess → Q op v) t) :
    wlp (teeAllocateOperation c true m k n) (fun r t => r.1 = teeSuccess → Q r.2 t) s := by
  have hns : teeErrorNotSupported ≠ teeSuccess := by decide
  unfold teeAllocateOperation
  rw [if_neg (by decide)]
  split
  · exact fun e => absurd e hns
  cases ha : setupOf m k with
  | none => exact fun e => absurd e hns
  | some a => exact registerOperation_wlp fun op t => hq a op t ha

/-- **An allocated handle is in order.** -/
theorem teeAllocateOperation_good {k n : Nat} (hc : Core c.provider s.utc) (hlog : s.log = [])
    (hclass : teeAlgGetClass m = teeOperationCipher ∨ teeAlgGetClass m = teeOperationMac) :
    wlp (teeAllocateOperation c true m k n) (fun r t => r.1 = teeSuccess → GoodAt c r.2 t) s := by
  refine teeAllocateOperation_wlp fun a op t ha _ hb hu hl _ => ?_
  have hr : Raised c m k op (Operation.start a m k n) t := by
    refine ⟨hb, ?_, hl.trans hlog, rfl, rfl, rfl, rfl⟩
    rw [hu]
    exact hc
  exact prepareOperation_good ha hr rfl hclass

/-! ## runs -/

/-- **A call keeps the handle in order.** -/
theorem step_good (hs : GoodAt c h s) (x : Step) :
    wlp (Oper.entry c (x.entry h)) (fun _ t => GoodAt c h t) s := by
  obtain ⟨o, ho, hg⟩ := hs
  have hmap : ∀ {α β : Type} {f : α → β} {y : O α}, wlp y (fun _ t => GoodAt c h t) s →
      wlp (f <$> y) (fun _ t => GoodAt c h t) s := by
    intro α β f y hy
    show wlp (y >>= fun r => pure (f r)) _ s
    rw [wlp_bind]
    exact hy
  cases x with
  | setOperationKey k => exact setOperationKey_good ho hg
  | setOperationKey2 k l => exact setOperationKey2_good ho hg
  | resetOperation => exact hmap (resetOperation_good ho hg)
  | cipherInit p n => exact hmap (teeCipherInit_good ho hg)
  | cipherUpdate p n b l => exact hmap (teeCipherUpdate_good ho hg)
  | cipherDoFinal p n b l => exact hmap (teeCipherDoFinal_good ho hg)
  | macInit => exact hmap (teeMacInit_good ho hg)
  | macUpdate p n => exact hmap (teeMacUpdate_good ho hg)
  | macComputeFinal p n b l =>
    exact hmap (wlp_mono (teeMacComputeFinal_idle ho hg) fun _ _ ht => ht.1)
  | macCompareFinal p n q l => exact teeMacCompareFinal_good ho hg

/-- an invariant of the handle in every state reached -/
theorem useOperation_run {n : Nat} {I : Nat → Sys → Prop}
    (halloc : wlp (teeAllocateOperation c true m k n) (fun r t => r.1 = teeSuccess → I r.2 t) s)
    (hstep : ∀ h x s, I h s → wlp (Oper.entry c (Step.entry h x)) (fun _ t => I h t) s)
    (l : List Step) :
    wlp (useOperation c m k n l) (fun r t => r.1 = teeSuccess → I r.2 t) s := by
  unfold useOperation
  rw [wlp_bind]
  refine wlp_mono halloc ?_
  intro r t ht
  by_cases hr : r.1 ≠ teeSuccess
  · rw [if_pos hr]
    exact fun e => absurd e hr
  · rw [if_neg hr, wlp_bind]
    refine wlp_mono (wlp_run (fun x s hs => hstep r.2 x s hs) (ht (not_not.mp hr))) ?_
    exact fun _ v hv _ => hv

/-- behind the calls `l` the handle is in order -/
def OrderlyAlong (c : Crypto) (s : Sys) (algorithm mode maxKeySize : Nat) (l : List Step) : Prop :=
  wlp (useOperation c algorithm mode maxKeySize l) (fun r t => r.1 = teeSuccess → ∃ o,
    t.heap.blocks r.2 = some (.op o) ∧ Orderly o t.utc t.log) s

/-- **In every state reached the handle is in order.** -/
theorem orderly_run {k n : Nat} (hc : Core c.provider s.utc) (hlog : s.log = [])
    (hclass : teeAlgGetClass m = teeOperationCipher ∨ teeAlgGetClass m = teeOperationMac)
    (l : List Step) : OrderlyAlong c s m k n l := by
  refine wlp_mono (useOperation_run (teeAllocateOperation_good hc hlog hclass)
    (fun h x s hs => step_good hs x) l) ?_
  intro r v hv hr
  obtain ⟨o, ho, hg⟩ := hv hr
  exact ⟨o, ho, hg.toOrderly⟩

/-- the context behind system calls that do not fault -/
def behind (p : Provider) (l : List Call) : Utc :=
  match run (call p) l (Utc.empty Cryp.sampleAnswers) with
  | .ok (_, u) => u
  | .error _ => Utc.empty Cryp.sampleAnswers

theorem core_behind (p : Provider) {l : List Call} (hl : ∀ h, Call.objClose h ∉ l) :
    Core p (behind p l) := by
  obtain ⟨r, u, e, hs⟩ := wp_iff.mp (sound_run p Cryp.sampleAnswers hl)
  unfold behind
  rw [e]
  exact hs.core

def teeAlgHmacSha256 : Nat := 0x30000004

/-- an HMAC key with its attribute -/
def hmacKey : List Call :=
  [.objAlloc teeTypeHmacSha256 256,
   .objPopulate (fun i => UInt8.ofNat i) 0x1000 [⟨0, 32, teeAttrSecretValue⟩]]

/-- a MAC whose key is set, computed over two parts of a message -/
def hmacSteps : List Step :=
  [.setOperationKey 0x1000, .macInit, .macUpdate (some fun _ => 7) 5,
   .macComputeFinal (some fun _ => 9) 3 true (some 32)]

/-- what the library was called for -/
def hmacLog (st : Nat) : List Event :=
  [.final st [] 32, .feed st [9, 9, 9], .feed st [7, 7, 7, 7, 7],
   .init st ((List.range 32).map UInt8.ofNat) none [],
   .setKey ((List.range 32).map UInt8.ofNat) none]

/-- the record behind the calls `l` -/
def logAfter (c : Crypto) (s : Sys) (algorithm mode maxKeySize : Nat) (l : List Step) :
    Option (List Event) :=
  match useOperation c algorithm mode maxKeySize l s with
  | .ok (_, t) => some t.log
  | .error _ => none

theorem orderly_hmac :
    logAfter sampleCrypto (Sys.start (behind sampleProvider hmacKey) Cryp.sampleAnswers)
      teeAlgHmacSha256 teeModeMac 256 hmacSteps = some (hmacLog 0x1005) ∧
    OrderlyAlong sampleCrypto (Sys.start (behind sampleProvider hmacKey) Cryp.sampleAnswers)
      teeAlgHmacSha256 teeModeMac 256 hmacSteps := by
  have hl : ∀ h, Call.objClose h ∉ hmacKey := by
    intro h hm
    simp [hmacKey] at hm
  have hc := core_behind sampleProvider hl
  refine ⟨by decide +kernel, ?_⟩
  generalize behind sampleProvider hmacKey = u at hc
  exact orderly_run (c := sampleCrypto) (s := Sys.start u Cryp.sampleAnswers) hc rfl
    (.inr (by decide)) hmacSteps

end MTower.Oper
