import MTower.Oper.LifeCycle

/-!
# The bytes of an active operation

* `Fed`                      what an update does: bytes reach the context, nothing else changes;
* `teeBufferUpdate_fed`      the buffered update only feeds;
* `Good.fed`, `Good.final`   a handle in order stays in order when it is fed or ends;
* `teeCipherUpdate_good`, `teeCipherDoFinal_good`, `teeMacUpdate_good`, `teeMacComputeFinal_good`,
  `teeMacCompareFinal_good`  the entry points.
-/

set_option linter.unusedVariables false

namespace MTower.Oper
open Lib Kernel Cryp

variable {c : Crypto} {s t v : Sys} {h : Nat} {o : Operation}

/-! ## feeding -/

/-- from `s` to `t` only bytes reached the context of the handle `h` -/
structure Fed (h : Nat) (o : Operation) (s t : Sys) : Prop where
  utc : t.utc = s.utc
  block : ∃ n, t.heap.blocks h = some (.op { o with bufferOffs := n })
  log : ∃ l, (∀ e ∈ l, ∃ d, e = Event.feed o.state d) ∧ t.log = l ++ s.log

theorem Fed.refl (ho : s.heap.blocks h = some (.op o)) : Fed h o s s :=
  ⟨rfl, ⟨o.bufferOffs, ho⟩, [], nofun, rfl⟩

theorem fed_opAt {α : Type} {f : Operation → O α}
    (hf : ∀ n, Maintains (Fed h o s) (f { o with bufferOffs := n })) :
    Maintains (Fed h o s) (opAt h >>= f) := by
  intro t ht
  obtain ⟨n, hn⟩ := ht.block
  rw [wlp_bind, wlp_opAt_of hn]
  exact hf n t ht

theorem fed_updateOp {g : Operation → Nat} :
    Maintains (Fed h o s) (updateOp h fun o => { o with bufferOffs := g o }) := by
  intro t ht
  obtain ⟨n, hn⟩ := ht.block
  rw [wlp_updateOp_of hn]
  exact ⟨ht.utc, ⟨_, store_self _⟩, ht.log⟩

theorem fed_bufferWrite (b n : Nat) (data : List UInt8) :
    Maintains (Fed h o s) (bufferWrite b n data) := by
  intro t ht
  rw [bufferWrite, wlp_bind, wlp_bufferAt]
  intro old hold
  split
  · exact trivial
  · obtain ⟨m, hm⟩ := ht.block
    have hb : h ≠ b := by
      rintro rfl
      rw [hm] at hold
      cases hold
    exact ⟨ht.utc, ⟨m, (store_of_ne _ hb).trans hm⟩, ht.log⟩

theorem fed_bufferRead (b n m : Nat) : Maintains (Fed h o s) (bufferRead b n m) := by
  intro t ht
  rw [bufferRead, wlp_bind, wlp_bufferAt]
  intro old hold
  split
  · exact trivial
  · exact ht

theorem fed_sys {α : Type} {x : C α} (hx : ∀ u, wlp x (fun _ v => v = u) u) :
    Maintains (Fed h o s) (sys x) := by
  intro t ht
  refine wlp_mono (sys_same hx) ?_
  rintro _ v rfl
  exact ht

theorem stateAt_same (q : Nat) (u : Utc) : wlp (Cryp.stateAt q) (fun _ v => v = u) u := by
  rw [wlp_stateAt]
  exact fun _ _ => rfl

/-- a call of the library that feeds the context -/
theorem fed_crypto (d : List UInt8) : Maintains (Fed h o s) (crypto c (.feed o.state d)) := by
  intro t ht
  obtain ⟨l, hl, hlog⟩ := ht.log
  refine ⟨ht.utc, ht.block, ?_⟩
  by_cases hr : c.ran t.log (.feed o.state d) = true
  · refine ⟨.feed o.state d :: l, ?_, ?_⟩
    · intro e he
      rcases List.mem_cons.mp he with rfl | he
      · exact ⟨d, rfl⟩
      · exact hl e he
    · show (if c.ran t.log (.feed o.state d) = true then _ else _) = _
      rw [if_pos hr, hlog]
      rfl
  · refine ⟨l, hl, ?_⟩
    show (if c.ran t.log (.feed o.state d) = true then _ else _) = _
    rw [if_neg hr, hlog]

theorem fed_cipherUpdate (src : List UInt8) (dstLen : Nat) :
    Maintains (Fed h o s) (uteeCipherUpdate c o.state src dstLen) := by
  have hout : ∀ res, Maintains (Fed h o s)
      (if res = teeSuccess ∨ res = teeErrorShortBuffer then pure (res, src.length)
        else pure (res, dstLen) : O (Nat × Nat)) := fun res => .ite (.pure _) (.pure _)
  have hdo : ∀ cs, Maintains (Fed h o s) (teeDoCipherUpdate c o.state cs src) := by
    intro cs
    refine .ite (.pure _) ?_
    cases teeCipherGetBlockSize cs.algo with
    | none => exact .pure _
    | some n => exact .ite (.pure _) (fed_crypto _)
  refine .bind (fed_sys (teeSvcCrypGetState_same o.state)) fun res => .ite (.pure _) ?_
  refine .bind (fed_sys (stateAt_same o.state)) fun cs => .ite (.pure _) ?_
  dsimp only
  exact .ite (.bind (hdo cs) hout) (.bind (.pure _) hout)

theorem fed_hashUpdate (chunk : Ptr) (chunkSize : Nat) :
    Maintains (Fed h o s) (uteeHashUpdate c o.state chunk chunkSize) := by
  refine .ite (.pure _) (.ite (.pure _) ?_)
  refine .bind (fed_sys (teeSvcCrypGetState_same o.state)) fun res => .ite (.pure _) ?_
  refine .bind (fed_sys (stateAt_same o.state)) fun cs => ?_
  exact .ite (fed_crypto _) (.pure _)

theorem fed_feed (data : List UInt8) (p : Progress) :
    Maintains (Fed h o s) (feed (uteeCipherUpdate c) o.state data p) :=
  .bind (fed_cipherUpdate _ _) fun _ => .ite (.throw _) (.pure _)

theorem fed_keepRest (src : Ptr) (p : Progress) : Maintains (Fed h o s) (keepRest h src p) :=
  fed_opAt fun _ => .bind (fed_bufferWrite _ _ _) fun _ => fed_updateOp

theorem fed_fillBlock (src : Ptr) (p : Progress) : Maintains (Fed h o s) (fillBlock h src p) :=
  fed_opAt fun _ => .ite (.pure _) <|
    .bind (fed_bufferWrite _ _ _) fun _ => .bind fed_updateOp fun _ => .pure _

theorem fed_feedBuffer (src : Ptr) (p : Progress) :
    Maintains (Fed h o s) (feedBuffer (uteeCipherUpdate c) h src p) := by
  refine fed_opAt fun n => .ite (.pure _) ?_
  refine .bind (fed_bufferRead _ _ _) fun data => .bind (fed_feed (o := o) data p) fun q => ?_
  refine .bind fed_updateOp fun _ => .ite (.pure _) ?_
  refine .bind (fed_bufferRead _ _ _) fun rest => .bind (fed_bufferWrite _ _ _) fun _ => ?_
  exact .bind (fed_keepRest _ _) fun _ => .pure _

theorem fed_feedSource (src : Ptr) (p : Progress) :
    Maintains (Fed h o s) (feedSource (uteeCipherUpdate c) h src p) :=
  fed_opAt fun _ => .ite (.pure _) (.bind (fed_feed (o := o) _ p) fun _ => .pure _)

/-- **The buffered update only feeds.** -/
theorem teeBufferUpdate_fed (src : Ptr) (srcLen destLen : Nat) :
    Maintains (Fed h o s) (teeBufferUpdate (uteeCipherUpdate c) h src srcLen destLen) := by
  refine .ite (.ite (.throw _) (.pure _)) ?_
  refine .bind (fed_fillBlock _ _) fun r => ?_
  obtain ⟨done, p⟩ := r
  refine .ite (.pure _) (.bind (fed_feedBuffer _ _) fun r => ?_)
  obtain ⟨done, p⟩ := r
  refine .ite (.pure _) (.bind (fed_feedSource _ _) fun q => ?_)
  exact .bind (fed_keepRest _ _) fun _ => .pure _

/-! ## the end of a context -/

theorem lastKeys_feeds {st : Nat} {l log : List Event}
    (hl : ∀ e ∈ l, ∃ d, e = Event.feed st d) : lastKeys (l ++ log) = lastKeys log := by
  induction l with
  | nil => rfl
  | cons e l ih =>
    obtain ⟨d, rfl⟩ := hl e List.mem_cons_self
    exact ih fun e he => hl e (List.mem_cons_of_mem _ he)

/-- **A handle in order stays in order when it is fed.** -/
theorem Good.fed (hg : Good c o s.utc s.log) (ha : o.operationState = teeOperationStateActive)
    (hf : Fed h o s t) : ∃ n, t.heap.blocks h = some (.op { o with bufferOffs := n }) ∧
      Good c { o with bufferOffs := n } t.utc t.log := by
  obtain ⟨n, hn⟩ := hf.block
  obtain ⟨l, hl, hlog⟩ := hf.log
  obtain ⟨hr, hp⟩ := (hg.ready ha).feed hl hg.proper
  have hlast : lastKeys (l ++ s.log) = lastKeys s.log := lastKeys_feeds hl
  have hgood : Good c { o with bufferOffs := n } s.utc (l ++ s.log) := by
    refine ⟨⟨hg.core, hg.cls, hg.kind, hg.two, hg.state, hg.key1, hg.key2, hg.noKey2⟩,
      ⟨hg.active, hg.keySet, ?_, hp⟩, hg.two_states, ?_, fun _ => hr⟩
    · rw [hlast]
      exact hg.keys
    · rw [hlast]
      exact hg.oneKey
  refine ⟨n, hn, ?_⟩
  rw [hf.utc, hlog]
  exact hgood

theorem Good.fedAt (hg : Good c o s.utc s.log) (ha : o.operationState = teeOperationStateActive)
    (hf : Fed h o s t) : GoodAt c h t := by
  obtain ⟨n, hn, hgood⟩ := hg.fed ha hf
  exact ⟨_, hn, hgood⟩

/-- **A context of the keys set last ends with them.** -/
theorem Good.final {log : List Event} {u : Utc} (hg : Good c o u log)
    (ha : o.operationState = teeOperationStateActive) (d : List UInt8) (n : Nat) :
    Good c o.idle u (.final o.state d n :: log) :=
  hg.idle ⟨hg.ready ha, hg.proper⟩ rfl

/-- from `s` to `t` the context was fed, and then it ended -/
def Ended (h : Nat) (o : Operation) (s t : Sys) : Prop :=
  ∃ v d n, Fed h o s v ∧ t.heap = v.heap ∧ t.utc = v.utc ∧ t.log = .final o.state d n :: v.log

theorem crypto_final (st : Nat) (d : List UInt8) (n : Nat) :
    wlp (crypto c (.final st d n)) (fun res v => v.heap = t.heap ∧ v.utc = t.utc ∧
      (res = teeSuccess → v.log = .final st d n :: t.log) ∧
      (res = teeErrorShortBuffer → v = t)) t := by
  refine ⟨rfl, rfl, fun hr => ?_, fun hr => ?_⟩
  · show (if c.ran t.log (.final st d n) = true then _ else _) = _
    rw [if_pos (c.ran_success _ _ hr)]
  · show Sys.mk t.utc t.heap t.elems (if c.ran t.log (.final st d n) = true then _ else _) = t
    rw [if_neg (by rw [c.ran_short _ _ hr]; decide)]

/-- what a call of the library that ends the context leaves -/
structure Finish (h : Nat) (o : Operation) (s t : Sys) (res : Nat) : Prop where
  ended : res = teeSuccess → Ended h o s t
  short : res = teeErrorShortBuffer → Fed h o s t

theorem Fed.finish (hf : Fed h o s t) {res : Nat} (hres : res ≠ teeSuccess) :
    Finish h o s t res := ⟨fun e => absurd e hres, fun _ => hf⟩

theorem final_spec (hf : Fed h o s t) (d : List UInt8) (n : Nat) :
    wlp (crypto c (.final o.state d n)) (fun res v => Finish h o s v res) t := by
  refine wlp_mono (crypto_final o.state d n) ?_
  rintro res v ⟨hh, hu, hl, hshort⟩
  refine ⟨fun e => ⟨t, d, n, hf, hh, hu, hl e⟩, fun e => ?_⟩
  rw [hshort e]
  exact hf

/-- the handle behind the end of its context -/
def IdleAt (c : Crypto) (h : Nat) (s : Sys) : Prop :=
  ∃ o, s.heap.blocks h = some (.op o) ∧ Good c o s.utc s.log ∧
    o.operationState = teeOperationStateInitial

theorem IdleAt.good (hi : IdleAt c h s) : GoodAt c h s := by
  obtain ⟨o, ho, hg, -⟩ := hi
  exact ⟨o, ho, hg⟩

theorem endContext_good (hg : Good c o s.utc s.log)
    (ha : o.operationState = teeOperationStateActive) (he : Ended h o s t) :
    wlp (endContext h) (fun _ t => IdleAt c h t) t := by
  obtain ⟨v, d, room, hf, hh, hu, hl⟩ := he
  obtain ⟨n, hn, hgood⟩ := hg.fed ha hf
  rw [endContext, wlp_updateOp_of (by rw [hh]; exact hn)]
  refine ⟨Operation.idle { o with bufferOffs := n }, store_self _, ?_, rfl⟩
  show Good c _ t.utc t.log
  rw [hu, hl]
  exact hgood.final ha d room

/-! ## the entry points -/

/-- a result that is given back beside a length -/
theorem leavePair_good {x : O (Nat × Nat)}
    (hx : wlp x (fun r t => r.1 = teeSuccess ∨ r.1 = teeErrorShortBuffer → GoodAt c h t) s) :
    wlp (x >>= fun r => do
      let res ← leave [teeSuccess, teeErrorShortBuffer] r.1
      pure (res, r.2)) (fun _ t => GoodAt c h t) s := by
  rw [wlp_bind]
  refine wlp_mono hx ?_
  intro r t ht
  rw [wlp_bind]
  refine wlp_mono (leave_same _ _) ?_
  rintro _ v ⟨rfl, rfl, hm⟩
  exact ht (by simpa using hm)

theorem badParameters {p : Prop}
    (h : teeErrorBadParameters = teeSuccess ∨ teeErrorBadParameters = teeErrorShortBuffer) : p :=
  absurd h (by decide)

theorem teeCipherUpdate_good {src : Ptr} {srcLen : Nat} {dest : Bool} {destLen : Option Nat}
    (ho : s.heap.blocks h = some (.op o)) (hg : Good c o s.utc s.log) :
    wlp (teeCipherUpdate c h src srcLen dest destLen) (fun _ t => GoodAt c h t) s := by
  have hsame : GoodAt c h s := ⟨o, ho, hg⟩
  refine leavePair_good ?_
  unfold cipherUpdate
  split
  · exact badParameters
  cases destLen with
  | none => exact badParameters
  | some dl =>
    show wlp (if _ then _ else _) _ s
    split
    · exact badParameters
    rw [wlp_bind, wlp_opAt_of ho]
    split
    · exact badParameters
    split
    · exact badParameters
    by_cases ha : o.operationState ≠ teeOperationStateActive
    · rw [if_pos ha]
      exact badParameters
    have ha' := not_not.mp ha
    rw [if_neg ha]
    split
    · exact fun _ => hsame
    split
    · exact fun _ => hsame
    split
    · refine wlp_mono (teeBufferUpdate_fed src srcLen dl s (Fed.refl ho)) ?_
      exact fun r t ht _ => hg.fedAt ha' ht
    split
    · refine wlp_mono (fed_cipherUpdate (src.bytes 0 srcLen) dl s (Fed.refl ho)) ?_
      exact fun r t ht _ => hg.fedAt ha' ht
    · exact fun _ => hsame

theorem finishCipher_good {src : Ptr} {srcLen dl : Nat} (ho : s.heap.blocks h = some (.op o))
    (hg : Good c o s.utc s.log) (ha : o.operationState = teeOperationStateActive) :
    wlp (finishCipher c h o src srcLen dl) (fun r t =>
      r.1 = teeSuccess ∨ r.1 = teeErrorShortBuffer → GoodAt c h t) s := by
  have hend : ∀ {res n m : Nat} {t : Sys}, Finish h o s t res →
      wlp (if res ≠ teeSuccess then pure (res, n)
        else do
          endContext h
          pure (teeSuccess, m) : O (Nat × Nat)) (fun r t =>
        r.1 = teeSuccess ∨ r.1 = teeErrorShortBuffer → GoodAt c h t) t := by
    intro res n m t hf
    by_cases hres : res ≠ teeSuccess
    · rw [if_pos hres]
      exact fun e => hg.fedAt ha (hf.short (e.resolve_left hres))
    · rw [if_neg hres, wlp_bind]
      refine wlp_mono (endContext_good hg ha (hf.ended (not_not.mp hres))) ?_
      exact fun _ t ht _ => ht.good
  unfold finishCipher
  split
  · rw [wlp_bind]
    refine wlp_mono (teeBufferUpdate_fed src srcLen dl s (Fed.refl ho)) ?_
    intro r t ht
    by_cases hr : r.1 ≠ teeSuccess
    · rw [if_pos hr]
      exact fun _ => hg.fedAt ha ht
    rw [if_neg hr, wlp_bind]
    obtain ⟨n, hn⟩ := ht.block
    rw [wlp_opAt_of hn, wlp_bind]
    refine wlp_mono (fed_bufferRead o.buffer 0 n t ht) ?_
    intro data t ht
    rw [wlp_bind, uteeCipherFinal, wlp_bind, wlp_get, wlp_bind]
    exact wlp_mono (final_spec ht data _) fun res v hv => hend hv
  · rw [wlp_bind, uteeCipherFinal, wlp_bind, wlp_get, wlp_bind]
    exact wlp_mono (final_spec (Fed.refl ho) _ _) fun res v hv => hend hv

theorem teeCipherDoFinal_good {src : Ptr} {srcLen : Nat} {dest : Bool} {destLen : Option Nat}
    (ho : s.heap.blocks h = some (.op o)) (hg : Good c o s.utc s.log) :
    wlp (teeCipherDoFinal c h src srcLen dest destLen) (fun _ t => GoodAt c h t) s := by
  have hsame : GoodAt c h s := ⟨o, ho, hg⟩
  refine leavePair_good ?_
  unfold cipherDoFinal
  split
  · exact badParameters
  cases destLen with
  | none => exact badParameters
  | some dl =>
    show wlp (if _ then _ else _) _ s
    split
    · exact badParameters
    rw [wlp_bind, wlp_opAt_of ho]
    split
    · exact badParameters
    split
    · exact badParameters
    by_cases ha : o.operationState ≠ teeOperationStateActive
    · rw [if_pos ha]
      exact badParameters
    rw [if_neg ha]
    split
    · exact badParameters
    dsimp only
    by_cases hn : dl < (if 1 < o.blockSize then (o.bufferOffs + srcLen) % 2 ^ 32 else srcLen)
    · rw [if_pos hn]
      exact fun _ => hsame
    · rw [if_neg hn]
      exact finishCipher_good ho hg (not_not.mp ha)

theorem teeMacUpdate_good {chunk : Ptr} {chunkSize : Nat} (ho : s.heap.blocks h = some (.op o))
    (hg : Good c o s.utc s.log) :
    wlp (teeMacUpdate c h chunk chunkSize) (fun _ t => GoodAt c h t) s := by
  unfold teeMacUpdate
  refine wlp_checked wlp_teePanic ?_
  split
  · exact wlp_teePanic
  rw [wlp_bind, wlp_opAt_of ho]
  split
  · exact wlp_teePanic
  split
  · exact wlp_teePanic
  by_cases ha : o.operationState ≠ teeOperationStateActive
  · rw [if_pos ha]
    exact wlp_teePanic
  rw [if_neg ha]
  split
  · exact wlp_teePanic
  rw [wlp_bind]
  refine wlp_mono (fed_hashUpdate chunk chunkSize s (Fed.refl ho)) ?_
  intro res t ht
  split
  · exact wlp_teePanic
  · exact hg.fedAt (not_not.mp ha) ht

theorem hashFinal_finish {size : Option Nat} {chunk : Ptr} {chunkSize hashLen : Nat}
    (ho : s.heap.blocks h = some (.op o)) :
    wlp (hashFinal c o.state size chunk chunkSize hashLen) (fun r t => Finish h o s t r.1) s := by
  have hf := Fed.refl ho
  have hend : ∀ {m : Nat} {res : Nat} {t : Sys}, Fed h o s t →
      wlp (if res ≠ teeSuccess then pure (res, hashLen)
        else do
          let res ← crypto c (.final o.state [] m)
          if res ≠ teeSuccess then pure (res, hashLen) else pure (teeSuccess, m) : O (Nat × Nat))
        (fun r t => Finish h o s t r.1) t := by
    intro m res t ht
    by_cases hres : res ≠ teeSuccess
    · rw [if_pos hres]
      exact ht.finish hres
    rw [if_neg hres, wlp_bind]
    refine wlp_mono (final_spec ht [] m) ?_
    intro res2 v hv
    by_cases hres2 : res2 ≠ teeSuccess
    · rw [if_pos hres2]
      exact hv
    · rw [if_neg hres2]
      rw [not_not.mp hres2] at hv
      exact hv
  unfold hashFinal
  cases size with
  | none => exact hf.finish (by show teeErrorNotSupported ≠ teeSuccess; decide)
  | some hashSize =>
    show wlp (if _ then _ else _) _ s
    split
    · exact hf.finish (by show teeErrorShortBuffer ≠ teeSuccess; decide)
    dsimp only
    split
    · rw [wlp_bind]
      exact wlp_mono (fed_crypto (chunk.bytes 0 chunkSize) s hf) fun res t ht => hend ht
    · rw [wlp_bind]
      exact hend hf

theorem uteeHashFinal_finish {chunk : Ptr} {chunkSize hashLen : Nat}
    (ho : s.heap.blocks h = some (.op o)) :
    wlp (uteeHashFinal c o.state chunk chunkSize hashLen) (fun r t => Finish h o s t r.1) s := by
  have hf := Fed.refl ho
  have hbad : Finish h o s s teeErrorBadParameters := hf.finish (by decide)
  unfold uteeHashFinal
  split
  · exact hbad
  rw [wlp_bind]
  refine wlp_mono (sys_same (teeSvcCrypGetState_same o.state)) ?_
  rintro res t rfl
  by_cases hres : res ≠ teeSuccess
  · rw [if_pos hres]
    exact hf.finish hres
  rw [if_neg hres, wlp_bind]
  refine wlp_mono (sys_same (stateAt_same o.state)) ?_
  rintro cs t rfl
  split
  · exact hashFinal_finish ho
  split
  · exact hashFinal_finish ho
  · exact hbad

theorem macComputeFinal_idle {message : Ptr} {messageLen : Nat} {mac : Bool} {macLen : Option Nat}
    (ho : s.heap.blocks h = some (.op o)) (hg : Good c o s.utc s.log) :
    wlp (macComputeFinal c h message messageLen mac macLen) (fun r t =>
      (r.1 = teeSuccess → IdleAt c h t) ∧ (r.1 = teeErrorShortBuffer → GoodAt c h t)) s := by
  have hbad : ∀ {p q : Prop}, (teeErrorBadParameters = teeSuccess → p) ∧
      (teeErrorBadParameters = teeErrorShortBuffer → q) := by
    exact ⟨fun e => absurd e (by decide), fun e => absurd e (by decide)⟩
  unfold macComputeFinal
  refine wlp_checked hbad ?_
  split
  · exact hbad
  cases macLen with
  | none => exact hbad
  | some ml =>
    show wlp (opAt h >>= _) _ s
    rw [wlp_bind, wlp_opAt_of ho]
    split
    · exact hbad
    split
    · exact hbad
    by_cases ha : o.operationState ≠ teeOperationStateActive
    · rw [if_pos ha]
      exact hbad
    have ha' := not_not.mp ha
    rw [if_neg ha]
    split
    · exact hbad
    rw [wlp_bind]
    refine wlp_mono (uteeHashFinal_finish ho) ?_
    intro r t hf
    by_cases hr : r.1 ≠ teeSuccess
    · rw [if_pos hr]
      exact ⟨fun e => absurd e hr, fun e => hg.fedAt ha' (hf.short e)⟩
    · rw [if_neg hr, wlp_bind]
      refine wlp_mono (endContext_good hg ha' (hf.ended (not_not.mp hr))) ?_
      exact fun _ t ht => ⟨fun _ => ht, fun _ => ht.good⟩

theorem teeMacComputeFinal_idle {message : Ptr} {messageLen : Nat} {mac : Bool}
    {macLen : Option Nat} (ho : s.heap.blocks h = some (.op o)) (hg : Good c o s.utc s.log) :
    wlp (teeMacComputeFinal c h message messageLen mac macLen) (fun r t => GoodAt c h t ∧
      (r.1 = teeSuccess → IdleAt c h t)) s := by
  rw [teeMacComputeFinal, wlp_bind]
  refine wlp_mono (macComputeFinal_idle ho hg) ?_
  rintro r t ⟨h1, h2⟩
  rw [wlp_bind]
  refine wlp_mono (leave_same _ _) ?_
  rintro _ v ⟨rfl, rfl, hm⟩
  refine ⟨?_, h1⟩
  rcases List.mem_pair.mp hm with e | e
  · exact (h1 e).good
  · exact h2 e

theorem sameMac_same {mac : Ptr} (n : Nat) : wlp (sameMac c mac n) (fun _ t => t = s) s := by
  cases mac with
  | none =>
    show wlp (if n = 0 then _ else _) _ s
    split
    · rfl
    · exact trivial
  | some f => rfl

theorem teeMacCompareFinal_good {message : Ptr} {messageLen : Nat} {mac : Ptr} {macLen : Nat}
    (ho : s.heap.blocks h = some (.op o)) (hg : Good c o s.utc s.log) :
    wlp (teeMacCompareFinal c h message messageLen mac macLen) (fun _ t => GoodAt c h t) s := by
  refine leave_good (by decide) ?_
  unfold macCompareFinal
  split
  · exact .inl rfl
  rw [wlp_bind, wlp_opAt_of ho]
  split
  · exact .inl rfl
  split
  · exact .inl rfl
  split
  · exact .inl rfl
  rw [wlp_bind]
  refine wlp_mono (teeMacComputeFinal_idle ho hg) ?_
  rintro r t ⟨h1, h2⟩
  by_cases hr : r.1 ≠ teeSuccess
  · rw [if_pos hr]
    exact .inr h1
  rw [if_neg hr]
  split
  · exact .inr h1
  rw [wlp_bind]
  refine wlp_mono (sameMac_same r.2) ?_
  rintro b t rfl
  obtain ⟨o', ho', hg', hi⟩ := h2 (not_not.mp hr)
  cases b with
  | false => exact .inr h1
  | true =>
    show wlp (updateOp h _ >>= _) _ t
    rw [wlp_bind, wlp_updateOp_of ho']
    refine .inr ⟨o', ?_, hg'⟩
    rw [store_self, ← hi]

end MTower.Oper
