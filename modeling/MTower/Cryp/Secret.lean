import MTower.Cryp.Room
import MTower.Cryp.Ownership

/-!
# Key objects with a secret

* `SecretKey`            a key object and its attribute block;
* `Utc.rewriteKey`       other contents of both, which no other key sees;
* `KeyIs`                an initialised key and its secret;
* `copy_keyIs`           a `utee_cryp_obj_copy` that goes through takes over the secret of the source;
* `stateAlloc_ctx`       the state of a cipher has a context.
-/

set_option linter.unusedVariables false

namespace MTower.Cryp
open Lib Kernel

variable {p : Provider} {u t : Utc} {k q n n' len len' : Nat} {x x' y : TeeObj}
  {data data' : List UInt8}

/-! ## a key and its block -/

structure SecretKey (u : Utc) (k : Nat) (x : TeeObj) (n len : Nat) (data : List UInt8) : Prop where
  obj : u.heap.blocks k = some (.obj x)
  attr : u.heap.blocks x.attr = some (.attr k (.secret n len data))

theorem SecretKey.ne (h : SecretKey u k x n len data) : k ≠ x.attr := by
  intro e
  have h1 := h.obj
  rw [e, h.attr] at h1
  cases h1

/-- what a well-formed context says about a key -/
structure SecretOk (x : TeeObj) (n len : Nat) (data : List UInt8) : Prop where
  transient : x.info.has teeHandleFlagPersistent = false
  props : ∃ tp, teeSvcFindTypeProps x.info.objectType = some tp ∧
    tp.typeAttrs = teeCrypObjSecretValueAttrs
  size : n ≤ len
  length : data.length = len

theorem SecretKey.ok (hc : Core p u) (h : SecretKey u k x n len data) : SecretOk x n len data := by
  obtain ⟨htr, tp, y, htp, hb, hy⟩ := hc.objOk k x (Utc.obj_iff.mpr h.obj)
  rw [h.attr] at hb
  cases hb
  obtain ⟨h1, -, h2, h3⟩ := hy
  exact ⟨htr, ⟨tp, htp, h1⟩, h2, h3⟩

theorem SecretKey.mem (hc : Core p u) (h : SecretKey u k x n len data) : k ∈ u.objects :=
  (hc.objMem k).mpr (by rw [Utc.obj_iff.mpr h.obj]; rfl)

theorem SecretKey.ne_zero (hc : Core p u) (h : SecretKey u k x n len data) : k ≠ 0 :=
  hc.live_ne_null h.obj

/-- an object of a type without bignums is such a key -/
theorem Core.secretKey (hc : Core p u) (hx : u.obj k = some x)
    (hs : isEccKeypair x.info.objectType = false) : ∃ n len data, SecretKey u k x n len data := by
  obtain ⟨-, tp, y, htp, hb, hy⟩ := hc.objOk k x hx
  cases y with
  | secret n len data => exact ⟨n, len, data, Utc.obj_iff.mp hx, hb⟩
  | ecc d e f g =>
    have hmem := List.mem_of_find?_eq_some htp
    have hty := List.find?_some htp
    have hecc : ∀ tp ∈ teeCrypObjProps, tp.typeAttrs = teeCrypObjEccKeypairAttrs →
        isEccKeypair tp.objType = true := by decide
    have h1 := hecc tp hmem hy.1
    have h2 : tp.objType = x.info.objectType := by simpa using hty
    rw [h2, hs] at h1
    cases h1

/-- other contents of the object `k` and of its attribute block -/
def Utc.rewriteKey (u : Utc) (k : Nat) (x : TeeObj) (a : Attr) : Utc :=
  (u.store x.attr (.attr k a)).store k (.obj x)

theorem rewriteKey_self (h : SecretKey u k x n len data) (hx : x'.attr = x.attr) :
    SecretKey (u.rewriteKey k x' (.secret n' len' data')) k x' n' len' data' := by
  have hne := h.ne
  refine ⟨?_, ?_⟩
  · rw [Utc.rewriteKey, Utc.store_blocks, if_pos rfl]
  · rw [Utc.rewriteKey, Utc.store_blocks, if_neg (by rw [hx]; exact hne.symm), Utc.store_blocks,
      if_pos rfl]

/-- **Another key does not see it.** -/
theorem rewriteKey_other {m l : Nat} {d : List UInt8} (h : SecretKey u k x n len data)
    (hx : x'.attr = x.attr) {a : Attr} (hq : q ≠ k) (hy : SecretKey u q y m l d) :
    SecretKey (u.rewriteKey k x' a) q y m l d := by
  have h1 : q ≠ x'.attr := by
    rintro rfl
    rw [hx] at hy
    have h2 := hy.obj
    rw [h.attr] at h2
    cases h2
  have h2 : y.attr ≠ k := by
    intro e
    have h3 := hy.attr
    rw [e, h.obj] at h3
    cases h3
  have h3 : y.attr ≠ x'.attr := by
    intro e
    have h4 := hy.attr
    rw [e, hx, h.attr] at h4
    cases h4
    exact hq rfl
  refine ⟨?_, ?_⟩
  · rw [Utc.rewriteKey, Utc.store_blocks, if_neg hq, Utc.store_blocks, if_neg h1, hy.obj]
  · rw [Utc.rewriteKey, Utc.store_blocks, if_neg h2, Utc.store_blocks, if_neg h3, hy.attr]

/-- an object that can hold the key of a cipher or a MAC -/
def KeyObject (u : Utc) (k : Nat) : Prop :=
  ∃ x, u.obj k = some x ∧ isEccKeypair x.info.objectType = false

/-- an initialised key object and its secret -/
def KeyIs (u : Utc) (k : Nat) (secret : List UInt8) : Prop :=
  ∃ x n len data, SecretKey u k x n len data ∧ x.info.has teeHandleFlagInitialized = true ∧
    data.take n = secret

theorem KeyObject.kept (h : KeyObject u k) (hk : Kept u t) : KeyObject t k := by
  obtain ⟨x, hx, he⟩ := h
  obtain ⟨x', hx', hs⟩ := hk.obj hx
  refine ⟨x', hx', ?_⟩
  rw [SameBlock.type_eq hs]
  exact he

theorem KeyObject.busied {key1 key2 : Nat} (hk : KeyObject u k)
    (hv : t.obj = Cryp.busied key1 key2 u.obj) : KeyObject t k := by
  obtain ⟨x, hx, he⟩ := hk
  unfold KeyObject
  rw [hv, Cryp.busied]
  split
  · refine ⟨{ x with busy := true }, ?_, he⟩
    rw [hx]
    rfl
  · exact ⟨x, hx, he⟩

theorem KeyIs.rewrite {secret : List UInt8} (h : SecretKey u k x n len data)
    (hx : x'.attr = x.attr) (a : Attr) (hq : q ≠ k) (hs : KeyIs u q secret) :
    KeyIs (u.rewriteKey k x' a) q secret := by
  obtain ⟨y, m, l, d, hy, hi, he⟩ := hs
  exact ⟨y, m, l, d, rewriteKey_other h hx hq hy, hi, he⟩

/-! ## copy -/

/-- **A copy that goes through takes over the secret.** -/
theorem copy_secret (hc : Core p u) (h : SecretKey u k x n len data) (src : Nat) :
    wp (uteeCrypObjCopy k src) (fun r t => r = teeSuccess → ∃ y n' len' data',
      Copies u k src x y ∧ SecretKey u src y n' len' data' ∧
      t = u.rewriteKey k (x.copied y) (.secret n' len (data'.take n' ++ data.drop n'))) u := by
  have hne : teeErrorBadParameters ≠ teeSuccess := by decide
  obtain ⟨htr, ⟨tp, htp, hs⟩, hsize, hlen⟩ := h.ok hc
  have hx0 : x.attr ≠ 0 := hc.live_ne_null h.attr
  have hxo := Utc.obj_iff.mpr h.obj
  have hdata : x.info.objectType ≠ teeTypeData := by
    intro e
    rw [e, show teeSvcFindTypeProps teeTypeData = none by decide] at htp
    cases htp
  rw [uteeCrypObjCopy, wp_bind, wp_teeObjGet hc, if_pos (h.mem hc), if_neg (not_not.mpr rfl),
    wp_bind, wp_teeObjGet hc]
  by_cases hsm : src ∈ u.objects
  swap
  · rw [if_neg hsm, if_pos hne]
    exact fun e => absurd e hne
  obtain ⟨y, hy⟩ := hc.objBlock hsm
  have hyo := Utc.obj_iff.mpr hy
  have hper : ¬ (x.info.has teeHandleFlagPersistent = true) := by simp [htr]
  rw [if_pos hsm, if_neg (not_not.mpr rfl), wp_bind, wp_objAt h.obj, wp_bind, wp_objAt hy]
  by_cases hready : y.info.has teeHandleFlagInitialized = true
  swap
  · rw [if_pos (by simp [hready])]
    exact fun e => absurd e hne
  rw [if_neg (by simp [hready]), if_neg hper]
  by_cases hfresh : x.info.has teeHandleFlagInitialized = true
  · rw [if_pos hfresh]
    exact fun e => absurd e hne
  have hsk : src ≠ k := by
    rintro rfl
    rw [hxo, Option.some_inj] at hyo
    exact hfresh (hyo ▸ hready)
  rw [if_neg hfresh, wp_bind, teeObjAttrCopyFrom, wp_bind, wp_objAt h.obj, wp_bind, wp_objAt hy,
    if_neg hdata, if_neg hx0, htp]
  by_cases hty : x.info.objectType = y.info.objectType
  swap
  · -- the public key types of the source are not in the table
    have hpub : (x.info.objectType, y.info.objectType) ∉ publicKeyOf := by
      intro hmem
      have hnone : ∀ t ∈ publicKeyOf, teeSvcFindTypeProps t.1 = none := by decide
      have hn := hnone _ hmem
      rw [htp] at hn
      cases hn
    show wp (if _ then _ else if _ then _ else _) _ u
    rw [if_neg hty, if_pos hpub, wp_pure, if_pos hne]
    exact fun e => absurd e hne
  have hysec : isEccKeypair y.info.objectType = false := by
    rw [← hty]
    have hmem := List.mem_of_find?_eq_some htp
    have hobj : tp.objType = x.info.objectType := by simpa using List.find?_some htp
    have hsec : ∀ tp ∈ teeCrypObjProps, tp.typeAttrs = teeCrypObjSecretValueAttrs →
        isEccKeypair tp.objType = false := by decide
    rw [← hobj]
    exact hsec tp hmem hs
  obtain ⟨n', len', data', hsy⟩ := hc.secretKey hyo hysec
  obtain ⟨-, -, hsize', hlen'⟩ := hsy.ok hc
  show wp (if _ then _ else _) _ u
  rw [if_pos hty, wp_bind, hs]
  show wp (attrFromObj x.attr y.attr _ _ >>= fun res => _) _ u
  rw [wp_bind]
  show wp (opAttrSecretValueFromObj x.attr y.attr) _ u
  rw [opAttrSecretValueFromObj, wp_bind, wp_blockAt hsy.attr]
  show wp (blockAt x.attr >>= _) _ u
  rw [wp_bind, wp_blockAt h.attr]
  show wp (if len < n' then _ else _) _ u
  by_cases hn : len < n'
  · rw [if_pos hn, wp_pure]
    have hbs : teeErrorBadState ≠ teeSuccess := by decide
    rw [if_pos hbs, wp_pure]
    exact fun e => absurd e hbs
  rw [if_neg hn, if_neg (by omega), wp_bind, wp_storeAt, wp_pure, if_neg (not_not.mpr rfl)]
  have hsx : src ≠ x.attr := by
    rintro rfl
    rw [h.attr] at hy
    cases hy
  -- the copy of `have_attrs`, and what `utee_cryp_obj_copy` itself writes
  rw [copyAttrs, wp_pure, if_neg (not_not.mpr rfl), wp_bind, wp_storeAt, wp_pure, if_neg (not_not.mpr rfl), wp_bind]
  rw [wp_objAt (o := { x with haveAttrs := y.haveAttrs }) (by rw [Utc.store_blocks, if_pos rfl]),
    wp_bind, wp_objAt (o := y) (by
      rw [Utc.store_blocks, if_neg hsk, Utc.store_blocks, if_neg hsx, hy]), wp_bind, wp_storeAt,
    wp_pure]
  refine fun _ => ⟨y, n', len', data', ⟨hxo, hyo, hready, by simpa using hfresh, hty⟩, hsy, ?_⟩
  show Utc.store (Utc.store _ _ _) _ _ = Utc.store _ _ _
  have hidem : ∀ (v : Utc) (b b' : Block), (v.store k b).store k b' = v.store k b' := by
    intro v b b'
    show Utc.mk _ _ _ _ _ = Utc.mk _ _ _ _ _
    congr 1
    show Heap.mk _ _ _ = Heap.mk _ _ _
    congr 1
    exact Function.update_idem _ _ _
  rw [hidem]
  rfl

theorem copied_initialized (x y : TeeObj) :
    (x.copied y).info.has teeHandleFlagInitialized = true := by
  show ((x.info.handleFlags ||| teeHandleFlagInitialized) &&& teeHandleFlagInitialized != 0) = true
  rw [Nat.and_or_distrib_right, bne_iff_ne]
  intro h0
  exact absurd (Nat.or_eq_zero_iff.mp h0).2 (by decide)

/-- **The key and its source hold the same secret, and the other keys theirs.** -/
theorem copy_keyIs (hc : Core p u) (hk : KeyObject u k) (src : Nat) :
    wp (uteeCrypObjCopy k src) (fun r t => r = teeSuccess → ∃ secret, KeyIs t k secret ∧
      KeyIs t src secret ∧ ∀ q e, KeyIs u q e → KeyIs t q e) u := by
  obtain ⟨x, hx, he⟩ := hk
  obtain ⟨n, len, data, h⟩ := hc.secretKey hx he
  refine wp_mono (copy_secret hc h src) ?_
  intro r t ht hr
  obtain ⟨y, n', len', data', hcop, hy, rfl⟩ := ht hr
  -- what is initialised is not the target
  have hne : ∀ q e, KeyIs u q e → q ≠ k := by
    rintro q e ⟨z, nz, lz, dz, hz, hi, -⟩ rfl
    have h1 := Utc.obj_iff.mpr hz.obj
    rw [hcop.dst, Option.some_inj] at h1
    rw [← h1, hcop.fresh] at hi
    cases hi
  have hkeep : ∀ q e, KeyIs u q e → KeyIs (u.rewriteKey k (x.copied y)
      (.secret n' len (data'.take n' ++ data.drop n'))) q e := fun q e hq =>
    hq.rewrite h (show (x.copied y).attr = x.attr from rfl) _ (hne q e hq)
  have hl : (data'.take n').length = n' := by
    have h1 := (hy.ok hc).size
    have h2 := (hy.ok hc).length
    rw [List.length_take]
    omega
  refine ⟨data'.take n', ⟨x.copied y, n', len, _, rewriteKey_self h rfl, copied_initialized x y,
    List.take_left' hl⟩, hkeep src _ ⟨y, n', len', data', hy, hcop.ready, rfl⟩, hkeep⟩

/-! ## the context of a cipher -/

/-- the state `s` has a context -/
def HasCtx (s : Nat) (u : Utc) : Prop := ∃ cs, u.st s = some cs ∧ cs.ctx ≠ 0

theorem HasCtx.store {s q : Nat} {b : Block} (h : HasCtx s u) (hq : q ≠ s) :
    HasCtx s (u.store q b) := by
  obtain ⟨cs, hcs, h0⟩ := h
  refine ⟨cs, Utc.st_iff.mpr ?_, h0⟩
  rw [Utc.store_blocks, if_neg hq.symm]
  exact Utc.st_iff.mp hcs

/-- a write to a state leaves the keys -/
theorem KeyIs.storeState {s : Nat} {cs : CrypState} {b : Block} {secret : List UInt8}
    (hs : u.st s = some cs) (h : KeyIs u k secret) : KeyIs (u.store s b) k secret := by
  have hb := Utc.st_iff.mp hs
  have hne : ∀ {a : Nat} {b : Block}, u.heap.blocks a = some b → b ≠ .state cs → a ≠ s := by
    rintro a b ha hn rfl
    rw [hb, Option.some_inj] at ha
    exact hn ha.symm
  obtain ⟨x, n, len, data, hx, hi, he⟩ := h
  refine ⟨x, n, len, data, ⟨?_, ?_⟩, hi, he⟩
  · rw [Utc.store_blocks, if_neg (hne hx.obj nofun), hx.obj]
  · rw [Utc.store_blocks, if_neg (hne hx.attr nofun), hx.attr]

theorem KeyObject.storeState {s : Nat} {cs : CrypState} {b : Block} (hs : u.st s = some cs)
    (h : KeyObject u k) : KeyObject (u.store s b) k := by
  obtain ⟨x, hx, he⟩ := h
  refine ⟨x, Utc.obj_iff.mpr ?_, he⟩
  rw [Utc.store_blocks, if_neg, Utc.obj_iff.mp hx]
  rintro rfl
  have h1 := Utc.st_iff.mp hs
  rw [Utc.obj_iff.mp hx] at h1
  cases h1

theorem setBusy_ctx {s k : Nat} (h : HasCtx s u) : wlp (setBusy k) (fun _ t => HasCtx s t) u := by
  rw [setBusy]
  by_cases h0 : k = 0
  · rw [if_pos h0]
    exact h
  · rw [if_neg h0, wlp_bind, wlp_objAt]
    intro o ho
    rw [wlp_storeAt]
    refine h.store ?_
    rintro rfl
    obtain ⟨cs, hcs, -⟩ := h
    rw [Utc.st_iff.mp hcs] at ho
    cases ho

/-- **The state of a cipher has a context.** -/
theorem stateAlloc_ctx {algo mode key1 key2 : Nat} (hd : teeAlgGetClass algo = teeOperationCipher) :
    wlp (uteeCrypStateAlloc p algo mode key1 key2)
      (fun r t => r.1 = teeSuccess → HasCtx r.2 t) u := by
  have hfail : ∀ {e : Nat} {s : Nat} {v : Utc}, e ≠ teeSuccess →
      wlp (crypStateFree p s >>= fun _ => (pure (e, 0) : C (Nat × Nat)))
        (fun r t => r.1 = teeSuccess → HasCtx r.2 t) v := by
    intro e s v he
    rw [wlp_bind]
    exact wlp_mono (wlp_true _ _) fun _ _ _ h => absurd h he
  have hoom : teeErrorOutOfMemory ≠ teeSuccess := by decide
  have hbad : teeErrorBadParameters ≠ teeSuccess := by decide
  rw [uteeCrypStateAlloc, wlp_bind]
  refine wlp_mono (wlp_true _ _) fun r1 t1 _ => ?_
  by_cases hr1 : r1 ≠ teeSuccess
  · rw [if_pos hr1]
    exact fun h => absurd h hr1
  rw [if_neg hr1, wlp_bind]
  refine wlp_mono (wlp_true _ _) fun r2 t2 _ => ?_
  by_cases hr2 : r2 ≠ teeSuccess
  · rw [if_pos hr2]
    exact fun h => absurd h hr2
  rw [if_neg hr2, wlp_bind]
  refine wlp_mono (wlp_true _ _) fun s t3 _ => ?_
  by_cases hs : s = 0
  · rw [if_pos hs]
    exact fun h => absurd h hoom
  rw [if_neg hs, wlp_bind]
  refine wlp_mono (wlp_true _ _) fun _ t4 _ => ?_
  rw [wlp_bind]
  refine wlp_mono (wlp_true _ _) fun _ t5 _ => ?_
  rw [wlp_bind]
  refine wlp_mono (Q := fun res t => res = teeSuccess → HasCtx s t) ?_ ?_
  · rw [prepareState, if_pos hd]
    split
    · exact fun h => absurd h hbad
    · rw [allocCtx]
      split
      · exact fun h => absurd h (by decide)
      · rw [wlp_bind]
        refine wlp_mono (wlp_true _ _) fun ctx t6 _ => ?_
        by_cases hc0 : ctx = 0
        · rw [if_pos hc0]
          exact fun h => absurd h hoom
        · rw [if_neg hc0, wlp_bind, wlp_stateAt]
          intro cs hcs
          refine fun _ => ⟨{ cs with ctx := ctx }, Utc.st_iff.mpr ?_, hc0⟩
          rw [Utc.store_blocks, if_pos rfl]
  · intro res t7 ht7
    by_cases hres : res ≠ teeSuccess
    · rw [if_pos hres]
      exact hfail hres
    · rw [if_neg hres, wlp_bind, registerKeys, wlp_bind]
      refine wlp_mono (setBusy_ctx (ht7 (not_not.mp hres))) fun _ t8 h8 => ?_
      rw [wlp_bind]
      refine wlp_mono (setBusy_ctx h8) fun _ t9 h9 => ?_
      rw [wlp_bind, wlp_stateAt]
      intro cs hcs _
      obtain ⟨cs', hcs', h0⟩ := h9
      rw [Utc.st_iff.mp hcs'] at hcs
      obtain rfl : cs' = cs := by
        cases hcs
        rfl
      refine ⟨{ cs' with key1 := key1, key2 := key2 }, Utc.st_iff.mpr ?_, h0⟩
      rw [Utc.store_blocks, if_pos rfl]

/-- `cs->ctx_finalize` of a state with a context -/
theorem Core.finalized (hc : Core p u) {s : Nat} {cs : CrypState} (hs : u.st s = some cs)
    (h0 : cs.ctx ≠ 0) : Core p (u.store s (.state { cs with ctxFinalize := true })) := by
  have hb := Utc.st_iff.mp hs
  have hself : (u.store s (.state { cs with ctxFinalize := true })).heap.blocks s =
      some (.state { cs with ctxFinalize := true }) := by rw [Utc.store_blocks, if_pos rfl]
  have har : Around s u.heap.blocks
      (u.store s (.state { cs with ctxFinalize := true })).heap.blocks := by
    intro q hq
    rw [Utc.store_blocks, if_neg hq]
    exact .inl rfl
  refine hc.aroundState (hc.live_ne_null hb) har ?_ rfl rfl rfl (obj_of_st hb) (obj_of_st hself)
    hc.stNodup ?_ ?_
  · intro c hcb
    rw [hb, Option.some_inj] at hcb
    subst hcb
    rfl
  · intro q
    show q ∈ u.crypStates ↔ _
    rw [hc.stMem]
    by_cases hq : q = s
    · rw [hq, hs, Utc.st_iff.mpr hself]
      rfl
    · rw [har.st hq]
  · intro cs' hcs'
    rw [Utc.st_iff.mpr hself, Option.some_inj] at hcs'
    subst hcs'
    have hok' : StateOk p u.heap.blocks s { cs with ctxFinalize := true } :=
      ⟨(hc.stOk s cs hs).ctx, fun _ => h0⟩
    refine hok'.frame fun q c hq hqo => ?_
    rw [Utc.store_blocks, if_neg, hq]
    rintro rfl
    rw [hb, Option.some_inj] at hq
    subst hq
    cases hqo

end MTower.Cryp
