import MTower.Cryp.Info

/-!
# Allocations with enough memory

While the heap has room for the blocks that a call asks for, the call does not fail for want of
memory, and what is left of the room is there for the next call.

* `SizeOk`                    the sizes that the table of types allows;
* `uteeCrypObjAlloc_room`     an object of a known type is allocated;
* `uteeCrypStateAlloc_room`   a state is allocated, unless its arguments are refused;
* `digestState_undone`        the state of a digest leaves no trace when it is freed;
* `uteeCrypObjAlloc_served`, `uteeCrypStateAlloc_served`  calls that only fail for want of memory,
                              and the room they leave.
-/

set_option linter.unusedVariables false

namespace MTower.Cryp
open Lib Kernel

section
variable {p : Provider} {u t : Utc} {a q : Nat} {m : Member} {tp : TypeProps} {n : Nat}

/-! ## memory -/

theorem wlp_malloc_room {b : Block} {Q : Nat → Utc → Prop} (hr : u.heap.Room (n + 1))
    (hQ : ∀ a t, a ≠ 0 → u.heap.blocks a = none → SameLists u t → t.heap.Room n →
      (∀ r, t.heap.blocks r = if r = a then some b else u.heap.blocks r) → Q a t) :
    wlp (teeMalloc b) Q u := by
  show Q (u.heap.alloc b).1 { u with heap := (u.heap.alloc b).2 }
  obtain ⟨hf, -, -⟩ | ⟨-, h0, hn, hb⟩ := u.heap.alloc_cases b
  · exact absurd hf hr.not_full
  · refine hQ _ _ h0 hn ⟨rfl, rfl, rfl, rfl⟩ (hr.alloc b) ?_
    intro r
    show (u.heap.alloc b).2.blocks r = _
    rw [hb, Function.update_apply]

theorem room_store {b c : Block} (hr : u.heap.Room n) (hb : u.heap.blocks a = some b) :
    (u.store a c).heap.Room n := by
  refine hr.store ?_ c
  rw [hb]
  exact Option.some_ne_none b

theorem setMember_room {w : Nat} (hr : u.heap.Room n) :
    wlp (setMember q m w) (fun _ t => t.heap.Room n) u := by
  rw [setMember, wlp_bind, wlp_blockAt]
  intro b hb
  cases b with
  | attr own x => exact room_store hr hb
  | _ => trivial

/-! ## objects -/

theorem bnAllocMax_room (hr : u.heap.Room (n + 1)) :
    wlp (bnAllocMax a q m) (fun ok t => ok = true ∧ t.heap.Room n) u := by
  rw [bnAllocMax, wlp_bind]
  refine wlp_malloc_room hr ?_
  intro bn t h0 _ _ hr' _
  rw [wlp_bind]
  refine wlp_mono (setMember_room hr') ?_
  intro _ v hv
  exact ⟨decide_eq_true h0, hv⟩

theorem allocEccKeypair_room {b : Block} (hb : u.heap.blocks q = some b)
    (hr : u.heap.Room (n + 3)) :
    wlp (cryptoAcipherAllocEccKeypair a q) (fun res t => res = teeSuccess ∧ t.heap.Room n) u := by
  rw [cryptoAcipherAllocEccKeypair, wlp_bind, wlp_storeAt, wlp_bind]
  refine wlp_mono (bnAllocMax_room (room_store hr hb)) ?_
  rintro ok t ⟨rfl, ht⟩
  rw [if_pos rfl, wlp_bind]
  refine wlp_mono (bnAllocMax_room ht) ?_
  rintro ok v ⟨rfl, hv⟩
  rw [if_pos rfl, wlp_bind]
  refine wlp_mono (bnAllocMax_room hv) ?_
  rintro ok w ⟨rfl, hw⟩
  rw [if_pos rfl]
  exact ⟨rfl, hw⟩

/-- the blocks of one object -/
def objBlocks (tp : TypeProps) : Nat := if isEccKeypair tp.objType then 5 else 2

/-- the sizes that the table allows for the type -/
def SizeOk (tp : TypeProps) (size : Nat) : Prop :=
  size % tp.quanta = 0 ∧ tp.minSize ≤ size ∧ size ≤ tp.maxSize

instance (tp : TypeProps) (size : Nat) : Decidable (SizeOk tp size) :=
  inferInstanceAs (Decidable (_ ∧ _ ∧ _))

theorem prepareAttr_room {b : Block} (hb : u.heap.blocks q = some b)
    (hr : u.heap.Room (n + (objBlocks tp - 2))) :
    wlp (prepareAttr a q tp) (fun res t => res = teeSuccess ∧ t.heap.Room n) u := by
  unfold objBlocks at hr
  rw [prepareAttr]
  by_cases he : isEccKeypair tp.objType = true
  · rw [if_pos he] at hr ⊢
    exact allocEccKeypair_room hb hr
  · rw [if_neg he] at hr ⊢
    rw [wlp_bind, wlp_blockAt]
    intro c hc
    cases c with
    | attr own x =>
      cases x with
      | secret k n' data => exact ⟨rfl, room_store hr hc⟩
      | ecc d e f g => trivial
    | _ => trivial

theorem setTypeInfo_room {ty size : Nat} (hr : u.heap.Room n) :
    wlp (setTypeInfo a ty size) (fun res t => res = teeSuccess ∧ t.heap.Room n) u := by
  rw [setTypeInfo, wlp_bind, wlp_objAt]
  intro o ho
  exact ⟨rfl, room_store hr ho⟩

theorem teeObjSetType_room {ty size : Nat} {x : TeeObj} (hty : ty ≠ teeTypeData)
    (htp : teeSvcFindTypeProps ty = some tp) (hs : SizeOk tp size)
    (hx : u.heap.blocks a = some (.obj x)) (hx0 : x.attr = 0)
    (hr : u.heap.Room (n + (objBlocks tp - 1))) :
    wlp (teeObjSetType a ty size) (fun res t => res = teeSuccess ∧ t.heap.Room n) u := by
  have h2 : 2 ≤ objBlocks tp := by
    unfold objBlocks
    split <;> omega
  have hr' : u.heap.Room (n + (objBlocks tp - 2) + 1) := hr.mono (by omega)
  rw [teeObjSetType, wlp_bind, wlp_objAt]
  intro o ho
  obtain rfl : x = o := by
    rw [hx] at ho
    cases ho
    rfl
  rw [if_neg (not_not.mpr hx0), if_neg hty, htp]
  show wlp (if size % tp.quanta ≠ 0 then _ else _) _ u
  rw [if_neg (not_not.mpr hs.1), if_neg (not_lt.mpr hs.2.1), if_neg (not_lt.mpr hs.2.2), wlp_bind]
  refine wlp_malloc_room hr' ?_
  intro attr t h0 hn _ ht hb
  have hne : attr ≠ a := by
    rintro rfl
    rw [hx] at hn
    cases hn
  have ha : t.heap.blocks a = some (.obj x) := by rw [hb, if_neg hne.symm, hx]
  have hq : (t.store a (.obj { x with attr := attr })).heap.blocks attr =
      some (.attr a (zeroAttr tp)) := by rw [Utc.store_blocks, if_neg hne, hb, if_pos rfl]
  rw [wlp_bind, wlp_storeAt, if_neg h0, wlp_bind]
  refine wlp_mono (prepareAttr_room hq (room_store ht ha)) ?_
  rintro res v ⟨rfl, hv⟩
  rw [if_neg (not_not.mpr rfl)]
  exact setTypeInfo_room hv

theorem wlp_touch {α : Type} {read : Nat → C α} {l : List Nat}
    (hread : ∀ q u, wlp (read q) (fun _ t => t = u) u) :
    wlp (touch read l) (fun _ t => t = u) u := by
  induction l with
  | nil => rfl
  | cons q l ih =>
    rw [touch, wlp_bind]
    refine wlp_mono (hread q u) ?_
    rintro _ t rfl
    exact ih

theorem objAt_same (q : Nat) (u : Utc) : wlp (objAt q) (fun _ t => t = u) u := by
  rw [wlp_objAt]
  exact fun _ _ => rfl

theorem wlp_stateAt {Q : CrypState → Utc → Prop} :
    wlp (stateAt q) Q u ↔ ∀ cs, u.heap.blocks q = some (.state cs) → Q cs u := by
  rw [stateAt, wlp_bind, wlp_blockAt]
  constructor
  · intro h cs hcs
    exact h _ hcs
  · intro h b hb
    cases b with
    | state cs => exact h cs hb
    | _ => trivial

theorem stateAt_same (q : Nat) (u : Utc) : wlp (stateAt q) (fun _ t => t = u) u := by
  rw [wlp_stateAt]
  exact fun _ _ => rfl

/-- **An object of a known type is allocated while there is room.** -/
theorem uteeCrypObjAlloc_room {ty size : Nat} (hty : ty ≠ teeTypeData)
    (htp : teeSvcFindTypeProps ty = some tp) (hs : SizeOk tp size)
    (hr : u.heap.Room (n + objBlocks tp)) :
    wlp (uteeCrypObjAlloc ty size) (fun r t => r.1 = teeSuccess ∧ t.heap.Room n) u := by
  have h2 : 2 ≤ objBlocks tp := by
    unfold objBlocks
    split <;> omega
  have hr' : u.heap.Room (n + (objBlocks tp - 1) + 1) := hr.mono (by omega)
  rw [uteeCrypObjAlloc, if_neg hty, wlp_bind, teeObjAlloc, wlp_bind]
  refine wlp_malloc_room hr' ?_
  intro o t h0 _ _ ht hb
  rw [if_neg h0, wlp_bind, wlp_modify, wlp_pure, if_neg h0, wlp_bind]
  refine wlp_mono (teeObjSetType_room (x := ⟨⟨0, 0, 0, 0, 0⟩, false, 0, 0⟩) hty htp hs ?_ rfl ht) ?_
  · show t.heap.blocks o = _
    rw [hb, if_pos rfl]
  · rintro res v ⟨rfl, hv⟩
    rw [if_neg (not_not.mpr rfl), wlp_bind, teeObjAdd, wlp_bind, wlp_get, wlp_bind]
    refine wlp_mono (wlp_touch objAt_same) ?_
    rintro _ w rfl
    exact ⟨rfl, hv⟩

/-! ## states -/

theorem wlp_lookup {α : Type} {read : Nat → C α} {k : Nat} {l : List Nat}
    (hread : ∀ q u, wlp (read q) (fun _ t => t = u) u) :
    wlp (lookup read k l) (fun _ t => t = u) u := by
  induction l with
  | nil => rfl
  | cons q l ih =>
    rw [lookup]
    by_cases hq : k = q
    · rw [if_pos hq]
      rfl
    · rw [if_neg hq, wlp_bind]
      refine wlp_mono (hread q u) ?_
      rintro _ t rfl
      exact ih

theorem teeObjGet_same (k : Nat) (u : Utc) : wlp (teeObjGet k) (fun r t =>
    t = u ∧ (r = teeSuccess ∨ r = teeErrorBadParameters)) u := by
  rw [teeObjGet, wlp_bind, wlp_get, wlp_bind]
  refine wlp_mono (wlp_lookup objAt_same) ?_
  rintro b t rfl
  cases b with
  | true => exact ⟨rfl, .inl rfl⟩
  | false => exact ⟨rfl, .inr rfl⟩

theorem teeSvcCrypGetState_same (st : Nat) (u : Utc) :
    wlp (teeSvcCrypGetState st) (fun _ t => t = u) u := by
  rw [teeSvcCrypGetState, wlp_bind, wlp_get, wlp_bind]
  refine wlp_mono (wlp_lookup stateAt_same) ?_
  rintro b t rfl
  rfl

theorem checkKeyType_cases (o : TeeObj) (algo mode : Nat) :
    teeSvcCrypCheckKeyType o algo mode = teeSuccess ∨
      teeSvcCrypCheckKeyType o algo mode = teeErrorBadParameters := by
  unfold teeSvcCrypCheckKeyType
  split
  · exact .inr rfl
  · split
    · exact .inr rfl
    · exact .inl rfl

theorem checkKey_cases (algo mode k : Nat) (u : Utc) : wlp (checkKey algo mode k) (fun r t =>
    t = u ∧ (r = teeSuccess ∨ r = teeErrorBadParameters)) u := by
  rw [checkKey]
  by_cases h0 : k = 0
  · rw [if_pos h0]
    exact ⟨rfl, .inl rfl⟩
  · rw [if_neg h0, wlp_bind]
    refine wlp_mono (teeObjGet_same k u) ?_
    rintro r t ⟨rfl, hr⟩
    by_cases hs : r ≠ teeSuccess
    · rw [if_pos hs]
      exact ⟨rfl, hr⟩
    · rw [if_neg hs, wlp_bind, wlp_objAt]
      intro o _
      by_cases hb : o.busy = true
      · rw [if_pos hb]
        exact ⟨rfl, .inr rfl⟩
      · rw [if_neg hb]
        exact ⟨rfl, checkKeyType_cases o algo mode⟩

/-- the algorithms that `utee_cryp_state_alloc` knows -/
def Supported (p : Provider) (algo : Nat) : Bool :=
  if teeAlgGetClass algo = teeOperationCipher then p.cipher algo
  else if teeAlgGetClass algo = teeOperationAe then true
  else if teeAlgGetClass algo = teeOperationMac then p.mac algo
  else if teeAlgGetClass algo = teeOperationDigest then p.hash algo
  else if teeAlgGetClass algo = teeOperationAsymmetricCipher ∨
      teeAlgGetClass algo = teeOperationAsymmetricSignature then true
  else teeAlgGetClass algo = teeOperationKeyDerivation

/-- the blocks of a state: itself, and the context of a cipher, a MAC or a digest -/
def stateBlocks (algo : Nat) : Nat :=
  if teeAlgGetClass algo ∈ [teeOperationCipher, teeOperationMac, teeOperationDigest] then 2 else 1

theorem allocCtx_room {known : Nat → Bool} {s algo : Nat} (hk : known algo = true)
    (hr : u.heap.Room (n + 1)) :
    wlp (allocCtx known s algo) (fun r _ => r = teeSuccess) u := by
  rw [allocCtx, if_neg (by simp [hk]), wlp_bind]
  refine wlp_malloc_room hr ?_
  intro ctx t h0 _ _ _ _
  rw [if_neg h0, wlp_bind, wlp_stateAt]
  intro cs _
  rfl

/-- a result that is no lack of memory or of an algorithm -/
def Decided (r : Nat) : Prop := r = teeSuccess ∨ r = teeErrorBadParameters

theorem decided_ite {b : Prop} [Decidable b] {x : C Nat} (hx : wlp x (fun r _ => Decided r) u) :
    wlp (if b then pure teeErrorBadParameters else x) (fun r _ => Decided r) u := by
  by_cases hb : b
  · rw [if_pos hb]
    exact .inr rfl
  · rw [if_neg hb]
    exact hx

theorem prepareState_room {s algo key1 key2 : Nat} (hk : Supported p algo = true)
    (hr : u.heap.Room (n + (stateBlocks algo - 1))) :
    wlp (prepareState p s algo key1 key2) (fun r _ => Decided r) u := by
  have hctx : ∀ {known : Nat → Bool}, known algo = true →
      teeAlgGetClass algo ∈ [teeOperationCipher, teeOperationMac, teeOperationDigest] →
      wlp (allocCtx known s algo) (fun r _ => Decided r) u := by
    intro known hk hm
    unfold stateBlocks at hr
    rw [if_pos hm] at hr
    exact wlp_mono (allocCtx_room hk hr) fun _ _ h => .inl h
  have hok : wlp (pure teeSuccess : C Nat) (fun r _ => Decided r) u := .inl rfl
  unfold Supported at hk
  rw [prepareState]
  by_cases h1 : teeAlgGetClass algo = teeOperationCipher
  · rw [if_pos h1] at hk ⊢
    exact decided_ite (hctx hk (by simp [h1]))
  rw [if_neg h1] at hk ⊢
  by_cases h2 : teeAlgGetClass algo = teeOperationAe
  · rw [if_pos h2]
    exact decided_ite hok
  rw [if_neg h2] at hk ⊢
  by_cases h3 : teeAlgGetClass algo = teeOperationMac
  · rw [if_pos h3] at hk ⊢
    exact decided_ite (hctx hk (by simp [h3]))
  rw [if_neg h3] at hk ⊢
  by_cases h4 : teeAlgGetClass algo = teeOperationDigest
  · rw [if_pos h4] at hk ⊢
    exact decided_ite (hctx hk (by simp [h4]))
  rw [if_neg h4] at hk ⊢
  by_cases h5 : teeAlgGetClass algo = teeOperationAsymmetricCipher ∨
      teeAlgGetClass algo = teeOperationAsymmetricSignature
  · rw [if_pos h5]
    exact decided_ite hok
  rw [if_neg h5] at hk ⊢
  rw [if_pos (of_decide_eq_true hk)]
  exact decided_ite hok

/-- **A state of a known algorithm is allocated while there is room, or its arguments are refused.** -/
theorem uteeCrypStateAlloc_room {algo mode key1 key2 : Nat} (hk : Supported p algo = true)
    (hr : u.heap.Room (n + stateBlocks algo)) :
    wlp (uteeCrypStateAlloc p algo mode key1 key2) (fun r _ => Decided r.1) u := by
  have h1 : 1 ≤ stateBlocks algo := by
    unfold stateBlocks
    split <;> omega
  have hr' : u.heap.Room (n + (stateBlocks algo - 1) + 1) := hr.mono (by omega)
  rw [uteeCrypStateAlloc, wlp_bind]
  refine wlp_mono (checkKey_cases algo mode key1 u) ?_
  rintro r1 _ ⟨rfl, hc1⟩
  by_cases hr1 : r1 ≠ teeSuccess
  · rw [if_pos hr1]
    exact hc1
  rw [if_neg hr1, wlp_bind]
  refine wlp_mono (checkKey_cases algo mode key2 _) ?_
  rintro r2 _ ⟨rfl, hc2⟩
  by_cases hr2 : r2 ≠ teeSuccess
  · rw [if_pos hr2]
    exact hc2
  rw [if_neg hr2, wlp_bind]
  refine wlp_malloc_room hr' ?_
  intro s t h0 _ _ ht hb
  rw [if_neg h0, wlp_bind, insertState, wlp_bind, wlp_get, wlp_bind]
  refine wlp_mono (wlp_touch stateAt_same) ?_
  rintro _ v rfl
  have hs : ({ v with crypStates := s :: v.crypStates } : Utc).heap.blocks s =
      some (.state ⟨0, 0, 0, 0, 0, false⟩) := by
    show v.heap.blocks s = _
    rw [hb, if_pos rfl]
  rw [wlp_modify, wlp_bind, wlp_storeAt, wlp_bind]
  refine wlp_mono (prepareState_room hk (room_store (u := { v with
    crypStates := s :: v.crypStates }) ht hs)) ?_
  intro res w hres
  by_cases hres0 : res ≠ teeSuccess
  · rw [if_pos hres0, wlp_bind]
    exact wlp_mono (wlp_true _ _) fun _ _ _ => hres
  · rw [if_neg hres0, wlp_bind]
    exact wlp_mono (wlp_true _ _) fun _ _ _ => .inl rfl

/-! ## the state of a digest -/

/-- `t` is `u` with the state `s` of a digest and its context -/
structure DigestState (algo mode s ctx : Nat) (u t : Utc) : Prop where
  fresh : u.heap.blocks s = none
  freshCtx : u.heap.blocks ctx = none
  ctx_ne_zero : ctx ≠ 0
  blocks : ∀ q, t.heap.blocks q = if q = s then some (.state ⟨algo, mode, 0, 0, ctx, false⟩)
    else if q = ctx then some (.ctx s) else u.heap.blocks q

theorem digestState_blocks {algo mode : Nat} (hd : teeAlgGetClass algo = teeOperationDigest) :
    wlp (uteeCrypStateAlloc p algo mode 0 0) (fun r t => r.1 = teeSuccess →
      ∃ ctx, DigestState algo mode r.2 ctx u t) u := by
  have hprep : ∀ s, prepareState p s algo 0 0 = allocCtx p.hash s algo := by
    intro s
    have h1 : ¬ teeAlgGetClass algo = teeOperationCipher := by rw [hd]; decide
    have h2 : ¬ teeAlgGetClass algo = teeOperationAe := by rw [hd]; decide
    have h3 : ¬ teeAlgGetClass algo = teeOperationMac := by rw [hd]; decide
    rw [prepareState, if_neg h1, if_neg h2, if_neg h3, if_pos hd, if_neg (by simp)]
  have hoom : teeErrorOutOfMemory ≠ teeSuccess := by decide
  have hns : teeErrorNotSupported ≠ teeSuccess := by decide
  have hfail : ∀ {e : Nat} {s : Nat} {v : Utc} {P : Nat × Nat → Utc → Prop}, e ≠ teeSuccess →
      wlp (crypStateFree p s >>= fun _ => (pure (e, 0) : C (Nat × Nat)))
        (fun r t => r.1 = teeSuccess → P r t) v := by
    intro e s v P he
    rw [wlp_bind]
    exact wlp_mono (wlp_true _ _) fun _ _ _ h => absurd h he
  have hk0 : checkKey algo mode 0 = pure teeSuccess := if_pos rfl
  rw [uteeCrypStateAlloc, wlp_bind, hk0, wlp_pure, if_neg (not_not.mpr rfl), wlp_bind, wlp_pure,
    if_neg (not_not.mpr rfl), wlp_bind]
  refine wlp_of_wp (alloc_cases ?_ ?_)
  · intro t _ _
    rw [if_pos rfl]
    exact fun h => absurd h hoom
  intro s t h0 hn _ hb
  rw [if_neg h0, wlp_bind, insertState, wlp_bind, wlp_get, wlp_bind]
  refine wlp_mono (wlp_touch stateAt_same) ?_
  rintro _ t1 rfl
  rw [wlp_modify, wlp_bind, wlp_storeAt, wlp_bind, hprep, allocCtx]
  by_cases hk : p.hash algo = false
  · rw [if_pos hk, wlp_pure, if_pos hns]
    exact hfail hns
  rw [if_neg hk, wlp_bind]
  refine wlp_of_wp (alloc_cases ?_ ?_)
  · intro v _ _
    rw [if_pos rfl, wlp_pure, if_pos hoom]
    exact hfail hoom
  intro ctx v hc0 hcn _ hbv
  have hne : ctx ≠ s := by
    rintro rfl
    rw [Utc.store_blocks, if_pos rfl] at hcn
    cases hcn
  rw [if_neg hc0, wlp_bind, wlp_stateAt]
  intro cs hcs
  rw [hbv, if_neg hne.symm, Utc.store_blocks, if_pos rfl] at hcs
  cases hcs
  rw [wlp_bind, wlp_storeAt, wlp_pure, if_neg (not_not.mpr rfl), wlp_bind]
  have hb0 : setBusy 0 = pure () := if_pos rfl
  rw [registerKeys, hb0, wlp_bind, wlp_pure, wlp_bind, wlp_pure, wlp_bind, wlp_stateAt]
  intro cs hcs _
  rw [Utc.store_blocks, if_pos rfl] at hcs
  cases hcs
  have hcn' : u.heap.blocks ctx = none := by
    rw [Utc.store_blocks, if_neg hne] at hcn
    have hbc := hb ctx
    rw [if_neg hne] at hbc
    exact hbc.symm.trans hcn
  refine ⟨ctx, hn, hcn', hc0, ?_⟩
  intro q
  by_cases hq : q = s
  · rw [Utc.store_blocks, if_pos hq, if_pos hq]
  · rw [Utc.store_blocks, if_neg hq, Utc.store_blocks, if_neg hq, hbv, if_neg hq]
    by_cases hqc : q = ctx
    · rw [if_pos hqc, if_pos hqc]
    · rw [if_neg hqc, if_neg hqc, Utc.store_blocks, if_neg hq]
      exact (hb q).trans (if_neg hq)

/-- **The state of a digest leaves no trace when it is freed.** -/
theorem digestState_undone {algo mode : Nat} (hc : Core p u)
    (hd : teeAlgGetClass algo = teeOperationDigest) :
    wp (uteeCrypStateAlloc p algo mode 0 0) (fun r t => r.1 = teeSuccess → Core p t ∧ r.2 ≠ 0 ∧
      wp (uteeCrypStateFree p r.2) (fun res v => res = teeSuccess ∧ SameLists u v ∧
        v.heap.blocks = u.heap.blocks) t) u := by
  refine wp_mono (wp_and (uteeCrypStateAlloc_spec hc) (digestState_blocks hd)) ?_
  rintro r t ⟨hs, hblocks⟩ hr
  obtain ⟨hne, -⟩ | ⟨-, h⟩ := hs
  · exact absurd hr hne
  obtain ⟨ctx, hctx⟩ := hblocks hr
  have hself : t.heap.blocks r.2 = some (.state ⟨algo, mode, 0, 0, ctx, false⟩) := by
    rw [hctx.blocks, if_pos rfl]
  have hst := Utc.st_iff.mpr hself
  have hmem : r.2 ∈ t.crypStates := (h.core.stMem r.2).mpr (by rw [hst]; rfl)
  refine ⟨h.core, h.ne_zero, ?_⟩
  rw [uteeCrypStateFree, wp_bind, wp_teeSvcCrypGetState h.core, if_pos hmem,
    if_neg (not_not.mpr rfl), wp_bind, crypStateFree, wp_bind, wp_stateAt hself, wp_bind,
    releaseKey_absent h.core h.core.zero_notMem, wp_bind,
    releaseKey_absent h.core h.core.zero_notMem, wp_crypStateFree_tail h.core hst]
  refine ⟨rfl, ⟨h.objects, ?_, h.made, h.freed⟩, ?_⟩
  · show t.crypStates.erase r.2 = _
    rw [h.crypStates, List.erase_cons_head]
  · funext q
    rw [dropState_blocks]
    by_cases hq : q = r.2
    · rw [if_pos (.inl hq), hq, hctx.fresh]
    · by_cases hqc : q = ctx
      · rw [if_pos (.inr ⟨hctx.ctx_ne_zero, hqc⟩), hqc, hctx.freshCtx]
      · rw [if_neg, hctx.blocks, if_neg hq, if_neg hqc]
        rintro (e | ⟨-, e⟩)
        · exact hq e
        · exact hqc e

end

/-! ## calls that fail for want of memory only -/

section
variable {p : Provider} {u t v : Utc} {a q : Nat} {tp : TypeProps} {n : Nat}

/-- one call of the allocator in a state reached from `u` -/
theorem wlp_malloc_grown {b : Block} {Q : Nat → Utc → Prop} (hg : u.heap.Grown n t.heap)
    (hfull : ∀ v, Q 0 v)
    (hQ : ∀ a v, a ≠ 0 → t.heap.blocks a = none → SameLists t v → u.heap.Grown (n + 1) v.heap →
      (∀ r, v.heap.blocks r = if r = a then some b else t.heap.blocks r) → Q a v) :
    wlp (teeMalloc b) Q t := by
  show Q (t.heap.alloc b).1 { t with heap := (t.heap.alloc b).2 }
  obtain ⟨-, h0, -⟩ | ⟨hf, h0, hn, hb⟩ := t.heap.alloc_cases b
  · rw [h0]
    exact hfull _
  · refine hQ _ _ h0 hn ⟨rfl, rfl, rfl, rfl⟩ (hg.alloc hf b) ?_
    intro r
    show (t.heap.alloc b).2.blocks r = _
    rw [hb, Function.update_apply]

theorem grown_store {b c : Block} (hg : u.heap.Grown n t.heap) (hb : t.heap.blocks a = some b) :
    u.heap.Grown n (t.store a c).heap := by
  refine hg.store ?_ c
  rw [hb]
  exact Option.some_ne_none b

/-- what a call answers: it lacks memory, or `k` blocks were served -/
def Served (k : Nat) (u : Utc) (res : Nat) (t : Utc) : Prop :=
  res = teeErrorOutOfMemory ∨ res = teeSuccess ∧ u.heap.Grown k t.heap

theorem prepareAttr_served (he : isEccKeypair tp.objType = false)
    (hg : u.heap.Grown n t.heap) :
    wlp (prepareAttr a q tp) (Served n u) t := by
  rw [prepareAttr, if_neg (by simp [he]), wlp_bind, wlp_blockAt]
  intro b hb
  cases b with
  | attr own x =>
    cases x with
    | secret k n' data => exact .inr ⟨rfl, grown_store hg hb⟩
    | ecc d e f g => trivial
  | _ => trivial

theorem teeObjSetType_served {ty size : Nat} {x : TeeObj} (hty : ty ≠ teeTypeData)
    (htp : teeSvcFindTypeProps ty = some tp) (he : isEccKeypair tp.objType = false)
    (hs : SizeOk tp size) (hx : t.heap.blocks a = some (.obj x)) (hx0 : x.attr = 0)
    (hg : u.heap.Grown n t.heap) :
    wlp (teeObjSetType a ty size) (Served (n + 1) u) t := by
  rw [teeObjSetType, wlp_bind, wlp_objAt]
  intro o ho
  obtain rfl : x = o := by
    rw [hx] at ho
    cases ho
    rfl
  rw [if_neg (not_not.mpr hx0), if_neg hty, htp]
  show wlp (if size % tp.quanta ≠ 0 then _ else _) _ t
  rw [if_neg (not_not.mpr hs.1), if_neg (not_lt.mpr hs.2.1), if_neg (not_lt.mpr hs.2.2), wlp_bind]
  refine wlp_malloc_grown hg ?_ ?_
  · intro v
    rw [wlp_bind, wlp_storeAt, if_pos rfl]
    exact .inl rfl
  · intro attr v h0 hn _ hv hb
    have hne : a ≠ attr := by
      rintro rfl
      rw [hx] at hn
      cases hn
    have ha : v.heap.blocks a = some (.obj x) := by rw [hb, if_neg hne, hx]
    rw [wlp_bind, wlp_storeAt, if_neg h0, wlp_bind]
    refine wlp_mono (prepareAttr_served he (grown_store hv ha)) ?_
    rintro res w (rfl | ⟨rfl, hw⟩)
    · rw [if_pos (by decide)]
      exact .inl rfl
    · rw [if_neg (not_not.mpr rfl), setTypeInfo, wlp_bind, wlp_objAt]
      intro o ho
      exact .inr ⟨rfl, grown_store hw ho⟩

/-- **An object without bignums takes two blocks, or memory is lacking.** -/
theorem uteeCrypObjAlloc_served {ty size : Nat} (hty : ty ≠ teeTypeData)
    (htp : teeSvcFindTypeProps ty = some tp) (he : isEccKeypair tp.objType = false)
    (hs : SizeOk tp size) :
    wlp (uteeCrypObjAlloc ty size) (fun r t => Served 2 u r.1 t) u := by
  rw [uteeCrypObjAlloc, if_neg hty, wlp_bind, teeObjAlloc, wlp_bind]
  refine wlp_malloc_grown (Heap.Grown.refl u.heap) ?_ ?_
  · intro v
    rw [if_pos rfl, wlp_pure, if_pos rfl]
    exact .inl rfl
  · intro o v h0 _ _ hv hb
    rw [if_neg h0, wlp_bind, wlp_modify, wlp_pure, if_neg h0, wlp_bind]
    refine wlp_mono (teeObjSetType_served (x := ⟨⟨0, 0, 0, 0, 0⟩, false, 0, 0⟩) hty htp he hs ?_ rfl
      hv) ?_
    · show v.heap.blocks o = _
      rw [hb, if_pos rfl]
    · rintro res w (rfl | ⟨rfl, hw⟩)
      · rw [if_pos (by decide), wlp_bind]
        exact wlp_mono (wlp_true _ _) fun _ _ _ => .inl rfl
      · rw [if_neg (not_not.mpr rfl), wlp_bind, teeObjAdd, wlp_bind, wlp_get, wlp_bind]
        refine wlp_mono (wlp_touch objAt_same) ?_
        rintro _ w rfl
        exact .inr ⟨rfl, hw⟩

theorem setBusy_grown {k : Nat} (hg : u.heap.Grown n t.heap) :
    wlp (setBusy k) (fun _ v => u.heap.Grown n v.heap) t := by
  rw [setBusy]
  by_cases h0 : k = 0
  · rw [if_pos h0]
    exact hg
  · rw [if_neg h0, wlp_bind, wlp_objAt]
    intro o ho
    exact grown_store hg ho

theorem registerKeys_grown {s key1 key2 : Nat} (hg : u.heap.Grown n t.heap) :
    wlp (registerKeys s key1 key2) (fun _ v => u.heap.Grown n v.heap) t := by
  rw [registerKeys, wlp_bind]
  refine wlp_mono (setBusy_grown hg) ?_
  intro _ v hv
  rw [wlp_bind]
  refine wlp_mono (setBusy_grown hv) ?_
  intro _ w hw
  rw [wlp_bind, wlp_stateAt]
  intro cs hcs
  exact grown_store hw hcs

theorem checkKey_free {algo mode k : Nat} (hc : Core p u) (hk : KeyFree u algo mode k) :
    checkKey algo mode k u = .ok (teeSuccess, u) := by
  rcases hk with rfl | ⟨x, hx, hb, hty⟩
  · exact rfl
  · have hm := (hc.objMem k).mpr (by rw [hx]; rfl)
    have h0 : k ≠ 0 := hc.live_ne_null (Utc.obj_iff.mp hx)
    have hwp : wp (checkKey algo mode k) (fun r t => r = teeSuccess ∧ t = u) u := by
      rw [checkKey, if_neg h0, wp_bind, wp_teeObjGet hc, if_pos hm, if_neg (not_not.mpr rfl), wp_bind,
        wp_objAt (Utc.obj_iff.mp hx), hb, if_neg (by simp)]
      exact ⟨hty, rfl⟩
    obtain ⟨r, t, e, rfl, rfl⟩ := wp_iff.mp hwp
    exact e

/-- **The state of a cipher takes two blocks, or memory is lacking.** -/
theorem uteeCrypStateAlloc_served {algo mode key : Nat} (hc : Core p u)
    (hd : teeAlgGetClass algo = teeOperationCipher) (hx : algo ≠ teeAlgAesXts)
    (hp : p.cipher algo = true) (h0 : key ≠ 0) (hk : KeyFree u algo mode key) :
    wlp (uteeCrypStateAlloc p algo mode key 0) (fun r t => Served 2 u r.1 t) u := by
  have hoom : teeErrorOutOfMemory ≠ teeSuccess := by decide
  rw [uteeCrypStateAlloc, wlp_bind, wlp_of_eq (checkKey_free hc hk), if_neg (not_not.mpr rfl),
    wlp_bind, wlp_of_eq (checkKey_free (k := 0) hc (.inl rfl)), if_neg (not_not.mpr rfl), wlp_bind]
  refine wlp_malloc_grown (Heap.Grown.refl u.heap) ?_ ?_
  · intro v
    rw [if_pos rfl]
    exact .inl rfl
  intro s v hs0 _ _ hv hb
  rw [if_neg hs0, wlp_bind, insertState, wlp_bind, wlp_get, wlp_bind]
  refine wlp_mono (wlp_touch stateAt_same) ?_
  rintro _ w rfl
  have hs : ({ w with crypStates := s :: w.crypStates } : Utc).heap.blocks s =
      some (.state ⟨0, 0, 0, 0, 0, false⟩) := by
    show w.heap.blocks s = _
    rw [hb, if_pos rfl]
  rw [wlp_modify, wlp_bind, wlp_storeAt, wlp_bind, prepareState, if_pos hd, if_neg (by simp [hx, h0]),
    allocCtx, if_neg (by simp [hp]), wlp_bind]
  refine wlp_malloc_grown (grown_store (t := { w with crypStates := s :: w.crypStates }) hv hs) ?_ ?_
  · intro r
    rw [if_pos rfl, wlp_pure, if_pos hoom, wlp_bind]
    exact wlp_mono (wlp_true _ _) fun _ _ _ => .inl rfl
  · intro ctx r hctx _ _ hr _
    rw [if_neg hctx, wlp_bind, wlp_stateAt]
    intro cs hcs
    rw [wlp_bind, wlp_storeAt, wlp_pure, if_neg (not_not.mpr rfl), wlp_bind]
    refine wlp_mono (registerKeys_grown (grown_store hr hcs)) ?_
    intro _ y hy
    exact .inr ⟨rfl, hy⟩

end

end MTower.Cryp
