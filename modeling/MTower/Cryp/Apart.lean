import MTower.Cryp.Veil

/-!
# Two states that differ in one object

`Apart a u v`: the object `a` is not initialised, and the states differ only in what such an
object hides, its mask and the numbers of its keypair.  `utee_cryp_obj_get_attr`,
`utee_cryp_obj_populate` and `utee_cryp_obj_copy` answer alike in both, and a populate of `a` or a
copy to it that succeeds leaves no difference.  `Sane.apart`: a state and the one in which `a` is
as new are apart in this sense.
-/

namespace MTower.Cryp

open Lib Kernel

/-! ## what an object hides -/

/-- what an object that is not initialised hides: its mask and its attributes that are no secret -/
def Cells (a q : Nat) (y : Attr) (tp : TypeProps) (z : Nat) : Prop :=
  z = a ∨ ∃ ta ∈ tp.typeAttrs, y.cell q ta = some z

structure Unfilled (u : Utc) (a : Nat) (x : TeeObj) (tp : TypeProps) (y : Attr) : Prop where
  obj : u.obj a = some x
  fresh : x.info.has teeHandleFlagInitialized = false
  type : teeSvcFindTypeProps x.info.objectType = some tp
  block : u.heap.blocks x.attr = some (.attr a y)
  ok : AttrOk u.heap.blocks a tp y

/-- the states differ in what the object `a` hides, which is not initialised -/
structure Apart (a : Nat) (u v : Utc) : Prop where
  sane : Sane u
  veiled : ∃ x tp y, Unfilled u a x tp y ∧ Veiled a (Cells a x.attr y tp) u v

section
variable {p : Provider} {u v s t : Utc} {a b q : Nat} {D : Nat → Prop} {x x' : TeeObj} {y : Attr}
  {tp : TypeProps} {ta : TypeAttr} {mem : Nat → UInt8}

/-- a call on another object, or one that fails -/
theorem Apart.kept (hs : Sane s) (hk : Kept u s) (hobj : s.obj a = u.obj a)
    (hu : Unfilled u a x tp y) (hv : Veiled a (Cells a x.attr y tp) s t) : Apart a s t := by
  obtain ⟨y', hq', hy', hcell⟩ := hk.cells hu.block hu.ok
  refine ⟨hs, x, tp, y', ⟨hobj.trans hu.obj, hu.fresh, hu.type, hq', hy'⟩, hv.congr fun z => ?_⟩
  refine or_congr_right (exists_congr fun ta => and_congr_right fun hta => ?_)
  rw [hcell ta hta]

/-- an initialised object is another one, and the same in both states -/
theorem Unfilled.ne (hu : Unfilled u a x tp y) (hx' : u.heap.blocks b = some (.obj x'))
    (hi : x'.info.has teeHandleFlagInitialized = true) : b ≠ a := by
  rintro rfl
  cases hu.obj.symm.trans (Utc.obj_iff.mpr hx')
  rw [hu.fresh] at hi
  cases hi

theorem Veiled.notMem_owned (h : Veiled a D u v) {c : Block} (hc : u.heap.blocks q = some c)
    (ho : c.owner = some b) (hne : b ≠ a) : ¬ D q := by
  refine h.notMem hc (.inr fun x e => ?_) (ho ▸ fun e => hne (Option.some_inj.mp e))
  rw [e] at ho
  cases ho

/-- the attributes of another object are read alike -/
theorem rel_attrToUser {e : BignumWriter} (h : Veiled a D u v) (hne : b ≠ a)
    (hq : u.heap.blocks q = some (.attr b y)) (hy : AttrOk u.heap.blocks b tp y)
    (hta : ta ∈ tp.typeAttrs) (n : Nat) : rel (attrToUser e q ta n) (attrToUser e q ta n)
      (fun r r' s t => r = r' ∧ s = u ∧ t = v) u v := by
  have hv : v.heap.blocks q = some (.attr b y) := (h.same q (h.notMem_owned hq rfl hne)).trans hq
  obtain ⟨hi, k, m, data, rfl, -, -⟩ | ⟨hi, bn, hg, w, hw⟩ | ⟨hi, -⟩ := hy.ops hta
  · rw [attrToUser, hi]
    show rel (opAttrSecretValueToUser q n) (opAttrSecretValueToUser q n) _ u v
    unfold opAttrSecretValueToUser
    apply rel_bind
    apply rel_blockAt_of hq hv
    apply rel_ite Iff.rfl
    · intro _
      exact ⟨rfl, rfl, rfl⟩
    intro _
    apply rel_ite Iff.rfl
    · intro _
      exact rel_throw.mpr rfl
    · intro _
      exact ⟨rfl, rfl, rfl⟩
  · rw [attrToUser, hi]
    show rel (opAttrBignumToUser e q ta.raw n) (opAttrBignumToUser e q ta.raw n) _ u v
    unfold opAttrBignumToUser
    apply rel_bind
    apply rel_memberAt h hq hg (hy.bignum_raw hta hi)
    apply rel_bind
    unfold bignumAt
    apply rel_bind
    apply rel_blockAt_of hw ((h.same bn (h.notMem_owned hw rfl hne)).trans hw)
    apply rel_pure.mpr
    apply rel_ite Iff.rfl
    · intro _
      exact ⟨rfl, rfl, rfl⟩
    intro _
    apply rel_ite Iff.rfl
    · intro _
      exact ⟨rfl, rfl, rfl⟩
    · intro _
      exact ⟨rfl, rfl, rfl⟩
  · rw [attrToUser, hi]
    exact rel_throw.mpr rfl

theorem attrToUser_same {e : BignumWriter} (q n : Nat) (ta : TypeAttr) (u : Utc) :
    wlp (attrToUser e q ta n) (fun _ t => t = u) u := by
  unfold attrToUser
  cases ta.opsIndex with
  | value => trivial
  | secret =>
    show wlp (opAttrSecretValueToUser q n) _ u
    rw [opAttrSecretValueToUser, wlp_bind, wlp_blockAt]
    intro d _
    cases d with
    | attr own y =>
      cases y with
      | secret k m data =>
        show wlp (if n < k then _ else _) _ u
        by_cases hk : n < k
        · rw [if_pos hk]
          exact rfl
        rw [if_neg hk]
        by_cases hl : data.length < k
        · rw [if_pos hl]
          trivial
        · rw [if_neg hl]
          exact rfl
      | ecc => trivial
    | _ => trivial
  | bignum =>
    show wlp (opAttrBignumToUser e q ta.raw n) _ u
    rw [opAttrBignumToUser, wlp_bind]
    apply wlp_mono (memberAt_objs)
    rintro bn _ rfl
    rw [wlp_bind]
    apply wlp_mono (bignumAt_objs)
    rintro v _ rfl
    by_cases h0 : e.numBytes v = 0
    · rw [if_pos h0]
      exact rfl
    rw [if_neg h0]
    by_cases hn : n < e.numBytes v
    · rw [if_pos hn]
      exact rfl
    · rw [if_neg hn]
      exact rfl

/-- reading an attribute changes nothing -/
theorem getAttr_same {e : BignumWriter} (b id n : Nat) (u : Utc) :
    wlp (uteeCrypObjGetAttr e b id n) (fun _ t => t = u) u := by
  unfold uteeCrypObjGetAttr
  rw [wlp_bind]
  apply wlp_mono (teeObjGet_cases b u)
  rintro r _ ⟨rfl, -⟩
  by_cases hr : r ≠ teeSuccess
  · rw [if_pos hr]
    exact rfl
  rw [if_neg hr, wlp_bind, wlp_objAt]
  intro o _
  by_cases hi : (!o.info.has teeHandleFlagInitialized) = true
  · rw [if_pos hi]
    exact rfl
  rw [if_neg hi]
  by_cases hu : id &&& teeAttrBitProtected = 0 ∧ o.info.objectUsage &&& teeUsageExtractable = 0
  · rw [if_pos hu]
    exact rfl
  rw [if_neg hu]
  cases teeSvcFindTypeProps o.info.objectType with
  | none => exact rfl
  | some tp =>
    dsimp only
    cases teeSvcCrypObjFindTypeAttrIdx id tp with
    | none => exact rfl
    | some i =>
      show wlp (if o.haveAttrs &&& 1 <<< i = 0 then _ else _) _ _
      by_cases hm : o.haveAttrs &&& 1 <<< i = 0
      · rw [if_pos hm]
        exact rfl
      rw [if_neg hm]
      cases tp.typeAttrs[i]? with
      | none => trivial
      | some ta => exact attrToUser_same o.attr n ta _

theorem rel_getAttr {e : BignumWriter} (h : Apart a u v) (b id n : Nat) :
    rel (uteeCrypObjGetAttr e b id n) (uteeCrypObjGetAttr e b id n)
      (fun r r' s t => r = r' ∧ s = u ∧ t = v) u v := by
  obtain ⟨hs, x, tp, y, hu, hv⟩ := h
  have hend : ∀ r : ToUser, rel (pure r : C ToUser) (pure r : C ToUser)
      (fun r r' s t => r = r' ∧ s = u ∧ t = v) u v := fun r => ⟨rfl, rfl, rfl⟩
  unfold uteeCrypObjGetAttr
  apply rel_bind
  apply rel_teeObjGet hv
  intro r
  apply rel_ite Iff.rfl
  · exact fun _ => hend _
  intro _
  apply rel_bind
  apply rel_objAt hv
  intro x1 x2 hx1 hx2 hne hmask
  have hinfo : x2.info = x1.info := by rw [hmask]
  rw [hinfo]
  apply rel_ite Iff.rfl
  · exact fun _ => hend _
  intro hi
  have hb := hu.ne hx1 (by simpa using hi)
  cases hne hb
  obtain ⟨tp1, y1, htp1, hy1, hok1⟩ := (hs.ok b x1 (Utc.obj_iff.mpr hx1)).attr
  apply rel_ite Iff.rfl
  · exact fun _ => hend _
  intro _
  rw [htp1]
  dsimp only
  cases hf : teeSvcCrypObjFindTypeAttrIdx id tp1 with
  | none => exact hend _
  | some i =>
    obtain ⟨ta, hg, hta⟩ := findIdx_mem hf
    simp only [hg]
    apply rel_ite Iff.rfl
    · exact fun _ => hend _
    · exact fun _ => rel_attrToUser hv hb hy1 hok1 hta n

end

section
variable {p : Provider} {u v s t : Utc} {a b q : Nat} {D : Nat → Prop} {x x' : TeeObj} {y : Attr}
  {tp : TypeProps} {ta : TypeAttr} {mem : Nat → UInt8}

/-- an object that is not initialised, in a state in which its block and its attributes are the
same -/
theorem Unfilled.congr (hu : Unfilled u a x tp y) (hs : Sane s) (hobj : s.obj a = u.obj a)
    (hq : s.heap.blocks x.attr = u.heap.blocks x.attr) : Unfilled s a x tp y := by
  have hx := hobj.trans hu.obj
  obtain ⟨tp', y', htp, hy, hok⟩ := (hs.ok a x hx).attr
  cases hu.type.symm.trans htp
  cases (hy.symm.trans hq).trans hu.block
  exact ⟨hx, hu.fresh, hu.type, hy, hok⟩

theorem Veiled.notMem_obj (hv : Veiled a (Cells a x.attr y tp) u v)
    (hx' : u.heap.blocks b = some (.obj x')) (hne : b ≠ a) : ¬ Cells a x.attr y tp b :=
  hv.notMem hx' (.inl hne) nofun

/-- the object `b` is written alike in both states -/
theorem Veiled.storeObj (h : Veiled a D u v) (ha : D a) (hb : b ≠ a → ¬ D b) (z : TeeObj) :
    Veiled a D (u.store b (.obj z)) (v.store b (.obj z)) := by
  by_cases hba : b = a
  · subst hba
    exact h.storeHidden ha (Hides.mask (x := z) (h := z.haveAttrs))
  · exact h.store (hb hba) _

/-- every attribute of a type has to be supplied -/
theorem supplied_all {l : List TeeAttribute} (htp : tp ∈ teeCrypObjProps)
    (hok : teeSvcCrypCheckAttr .populate tp l = teeSuccess) (hta : ta ∈ tp.typeAttrs) :
    ∃ e ∈ l, ∃ i, teeSvcCrypObjFindTypeAttrIdx e.attributeID tp = some i ∧
      tp.typeAttrs[i]? = some ta := by
  have hreq : ∀ tp ∈ teeCrypObjProps, ∀ ta ∈ tp.typeAttrs,
      ta.flags &&& teeTypeAttrRequired ≠ 0 := by decide
  have herr : teeErrorItemNotFound ≠ teeSuccess := by decide
  obtain ⟨hl, -⟩ | ⟨-, hf⟩ := checkAttr_rule (ids_nodup htp) .populate l
  swap
  · exact absurd (hf.symm.trans hok) herr
  obtain ⟨e, he, hid⟩ := List.mem_map.mp (hl.required ta ⟨hta, hreq tp htp ta hta⟩)
  obtain ⟨i, hi⟩ := List.mem_iff_getElem?.mp hta
  exact ⟨e, he, i, hid ▸ findIdx_at (ids_nodup htp) hi, hi⟩

/-- what `utee_cryp_obj_populate` does between its allocation and its `out` label: a populate of
the object that differs leaves no difference when it succeeds -/
theorem rel_populateWith (hp : p.Overwrites) (hs : Sane u) (hu : Unfilled u a x tp y)
    (hv : Veiled a (Cells a x.attr y tp) u v) (hx' : u.heap.blocks b = some (.obj x'))
    {tp' : TypeProps} (htp' : teeSvcFindTypeProps x'.info.objectType = some tp')
    (l : List TeeAttribute) :
    rel (populateWith p mem b tp' l) (populateWith p mem b tp' l) (fun r r' s t => r = r' ∧
      Veiled a (Cells a x.attr y tp) s t ∧ (b = a → r = teeSuccess → t = s)) u v := by
  have hb : b ≠ a → ¬ Cells a x.attr y tp b := hv.notMem_obj hx'
  unfold populateWith
  apply rel_ite Iff.rfl
  · exact fun hch => ⟨rfl, hv, fun _ hr => absurd hr hch⟩
  intro hch
  apply rel_bind
  unfold teeSvcCrypObjPopulateType
  apply rel_bind
  apply rel_objAt hv
  intro x1 x2 hx1 _ _ hmask
  cases hx1.symm.trans hx'
  rw [hmask]
  apply rel_bind
  obtain ⟨tp1, y1, htp1, hy1, hok1⟩ := (hs.ok b x' (Utc.obj_iff.mpr hx')).attr
  cases htp1.symm.trans htp'
  apply rel_mono (rel_populateAttrs hp hv hy1 hok1 l 0 0)
  rintro r _ s t ⟨rfl, hst, hset⟩
  apply rel_ite Iff.rfl
  · intro hr
    apply rel_pure.mpr
    apply rel_ite Iff.rfl
    · exact fun _ => ⟨rfl, hst, fun _ hr' => absurd hr' hr⟩
    · exact fun h => absurd hr h
  intro hr
  apply rel_bind
  apply rel_storeAt.mpr
  apply rel_pure.mpr
  apply rel_ite Iff.rfl
  · exact fun h => absurd rfl h
  intro _
  apply rel_bind
  unfold setInitialized
  apply rel_bind
  unfold objAt
  apply rel_bind
  apply rel_blockAt_of (by rw [Utc.store_blocks, if_pos rfl]) (by rw [Utc.store_blocks, if_pos rfl])
  apply rel_pure.mpr
  apply rel_storeAt.mpr
  refine ⟨rfl, (hst.storeObj (.inl rfl) hb _).storeObj (.inl rfl) hb _, ?_⟩
  rintro rfl -
  cases hu.obj.symm.trans (Utc.obj_iff.mpr hx')
  cases hu.type.symm.trans htp'
  cases hu.block.symm.trans hy1
  refine (((hset (not_not.mp hr)).settle b _).settle b _).eq ?_
  rintro z ⟨⟨⟨hz, hno⟩, hzb⟩, -⟩
  obtain rfl | ⟨ta, hta, hcell⟩ := hz
  · exact hzb rfl
  · obtain ⟨e, he, i, hi, hg⟩ := supplied_all (List.mem_of_find?_eq_some htp') (not_not.mp hch) hta
    exact hno e he i ta hi hg hcell

theorem rel_teeFree (h : Veiled a D u v) (hq : ¬ D q) {R : Unit → Unit → Utc → Utc → Prop}
    {c : Block} (hc : u.heap.blocks q = some c) (hno : ∀ x, c ≠ .obj x) (h0 : q ≠ 0)
    (hR : R () () (u.erase q) (v.erase q)) : rel (teeFree q) (teeFree q) R u v := by
  unfold teeFree
  apply rel_bind
  rw [rel_get, if_neg h0, if_neg h0, h.same q hq, hc]
  cases c with
  | obj x => exact absurd rfl (hno x)
  | _ => exact hR

/-- **A populate**: of another object it changes both states alike, of the object that differs it
fails or leaves no difference. -/
theorem rel_populate (hp : p.Overwrites) (h : Apart a u v) (b : Nat) (l : List UteeAttribute) :
    rel (uteeCrypObjPopulate p mem b l) (uteeCrypObjPopulate p mem b l)
      (fun r r' s t => r = r' ∧ (t = s ∨ Apart a s t)) u v := by
  have hsane : wlp (uteeCrypObjPopulate p mem b l) (fun r t => Sane t ∧
      (r ≠ teeSuccess → t.obj = u.obj) ∧ Kept u t ∧ ∀ c, c ≠ b → t.obj c = u.obj c) u :=
    populate_sane h.sane
  obtain ⟨hs, x, tp, y, hu, hv⟩ := h
  have key : rel (uteeCrypObjPopulate p mem b l) (uteeCrypObjPopulate p mem b l)
      (fun r r' s t => r = r' ∧ Veiled a (Cells a x.attr y tp) s t ∧
        (b = a → r = teeSuccess → t = s)) u v := by
    have hend : ∀ r, r ≠ teeSuccess → ∀ s t, Veiled a (Cells a x.attr y tp) s t →
        rel (pure r : C Nat) (pure r : C Nat) (fun r r' s t => r = r' ∧
          Veiled a (Cells a x.attr y tp) s t ∧ (b = a → r = teeSuccess → t = s)) s t :=
      fun r hr s t hst => ⟨rfl, hst, fun _ hr' => absurd hr' hr⟩
    unfold uteeCrypObjPopulate
    apply rel_bind
    apply rel_teeObjGet hv
    intro r
    apply rel_ite Iff.rfl
    · exact fun hr => hend r hr u v hv
    intro _
    apply rel_bind
    apply rel_objAt hv
    intro x1 x2 hx1 _ _ hmask
    have hinfo : x2.info = x1.info := by rw [hmask]
    rw [hinfo]
    apply rel_ite Iff.rfl
    · exact fun _ => hend _ (by decide) u v hv
    intro _
    apply rel_ite Iff.rfl
    · exact fun _ => hend _ (by decide) u v hv
    intro _
    obtain ⟨tp1, y1, htp1, hy1, hok1⟩ := (hs.ok b x1 (Utc.obj_iff.mpr hx1)).attr
    rw [htp1]
    apply rel_ite Iff.rfl
    · exact fun _ => hend _ (by decide) u v hv
    intro _
    unfold mallocAttrs
    by_cases hn : l.length = 0
    · rw [if_pos hn]
      exact hend _ (by decide) u v hv
    rw [if_neg hn]
    apply rel_bind
    apply rel_teeMalloc hv
    rintro q u1 v1 hv1 (⟨rfl, hb⟩ | ⟨hq0, hqn, hb⟩) -
    · exact hend _ (by decide) u1 v1 hv1
    rw [if_neg hq0]
    apply rel_bind
    apply rel_storeAt.mpr
    -- the copied attributes live in a block of their own
    have hnq : ¬ Cells a x.attr y tp q := hv.free hqn
    have hv2 := hv1.store hnq (.attrs (copyInAttrs l))
    have hb2 : ∀ r, (u1.store q (.attrs (copyInAttrs l))).heap.blocks r =
        if r = q then some (.attrs (copyInAttrs l)) else u.heap.blocks r := by
      intro r
      rw [Utc.store_blocks]
      by_cases hr : r = q
      · rw [if_pos hr, if_pos hr]
      · rw [if_neg hr, if_neg hr, hb, if_neg hr]
    generalize u1.store q (.attrs (copyInAttrs l)) = u2 at hv2 hb2
    generalize v1.store q (.attrs (copyInAttrs l)) = v2 at hv2
    have hs2 : Sane u2 := hs.scratch hq0 (by rw [hqn]; intro c hc; cases hc) attrs_scratch hb2
    have hobj2 : u2.obj = u.obj :=
      obj_scratch (by rw [Utc.obj, hqn]) (fun d hd => (attrs_scratch d hd).2.1) hb2
    have hold : ∀ r, u.heap.blocks r ≠ none → u2.heap.blocks r = u.heap.blocks r := by
      intro r hr
      have hne : r ≠ q := fun e => hr (e ▸ hqn)
      rw [hb2, if_neg hne]
    have hu2 := hu.congr hs2 (by rw [hobj2]) (hold _ (by rw [hu.block]; intro h; cases h))
    have hx2 : u2.heap.blocks b = some (.obj x1) := (hold b (by rw [hx1]; intro h; cases h)).trans hx1
    apply rel_bind
    apply rel_mono (rel_wlp (rel_populateWith hp hs2 hu2 hv2 hx2 htp1 _)
      (wlp_of_wp (populateWith_kept hx2 (hs2.ok b x1 (Utc.obj_iff.mpr hx2)) htp1)))
    rintro r _ s t ⟨⟨rfl, hst, heq⟩, hk⟩
    obtain ⟨c, hc, hcs⟩ := hk.block (show u2.heap.blocks q = _ by rw [hb2, if_pos rfl])
    cases hcs
    apply rel_bind
    apply rel_teeFree hst hnq hc (fun o h => by cases h) hq0
    exact ⟨rfl, hst.erase hnq, fun hba hr => by rw [heq hba hr]⟩
  apply rel_mono (rel_wlp key hsane)
  rintro r _ s t ⟨⟨rfl, hst, heq⟩, hs', hobj, hk, hother⟩
  refine ⟨rfl, ?_⟩
  by_cases hba : b = a
  · subst hba
    by_cases hr : r = teeSuccess
    · exact .inl (heq rfl hr)
    · exact .inr (Apart.kept hs' hk (by rw [hobj hr]) hu hst)
  · exact .inr (Apart.kept hs' hk (hother a (Ne.symm hba)) hu hst)

end

section
variable {u v s t : Utc} {a b q d : Nat} {x x' y' : TeeObj} {y : Attr} {tp : TypeProps}

/-- the types of a table entry have neither data objects nor public keys -/
theorem ObjOk.paired {bl : Blocks} (h : ObjOk bl a x) (ty : Nat) :
    x.info.objectType ≠ teeTypeData ∧ (x.info.objectType, ty) ∉ publicKeyOf := by
  obtain ⟨-, tp, z, htp, -, -⟩ := h
  constructor
  · intro e
    rw [e] at htp
    cases htp
  · intro hmem
    have hnone : ∀ t ∈ publicKeyOf, teeSvcFindTypeProps t.1 = none := by decide
    rw [hnone _ hmem] at htp
    cases htp

theorem rel_copyFrom (hs : Sane u) (hu : Unfilled u a x tp y)
    (hv : Veiled a (Cells a x.attr y tp) u v) (hx' : u.heap.blocks d = some (.obj x'))
    (hy' : u.heap.blocks b = some (.obj y')) (hne : b ≠ a) :
    rel (teeObjAttrCopyFrom d b) (teeObjAttrCopyFrom d b) (fun r r' s t => r = r' ∧
      (t = s ∨ Veiled a (Cells a x.attr y tp) s t ∧ (d = a → r ≠ teeSuccess))) u v := by
  have hbad : teeErrorBadState ≠ teeSuccess := by decide
  have hd : d ≠ a → ¬ Cells a x.attr y tp d := hv.notMem_obj hx'
  obtain ⟨hdata, hpub⟩ := (hs.ok d x' (Utc.obj_iff.mpr hx')).paired y'.info.objectType
  obtain ⟨tp1, y1, htp1, hy1, hok1⟩ := (hs.ok d x' (Utc.obj_iff.mpr hx')).attr
  obtain ⟨tp2, y2, htp2, hy2, hok2⟩ := (hs.ok b y' (Utc.obj_iff.mpr hy')).attr
  unfold teeObjAttrCopyFrom
  apply rel_bind
  apply rel_objAt hv
  intro x1 x2 hx1 _ _ hmask
  cases hx1.symm.trans hx'
  rw [hmask]
  apply rel_bind
  apply rel_objAt hv
  intro y3 y4 hy3 _ heq _
  cases hy3.symm.trans hy'
  cases heq hne
  apply rel_ite Iff.rfl
  · exact fun h => absurd h hdata
  intro _
  apply rel_ite Iff.rfl
  · exact fun _ => ⟨rfl, .inr ⟨hv, fun _ => hbad⟩⟩
  intro _
  rw [htp1]
  apply rel_ite Iff.rfl
  · intro hty
    cases htp1.symm.trans ((congrArg teeSvcFindTypeProps hty).trans htp2)
    apply rel_bind
    apply rel_mono (rel_copyAttrs hv hy1 hok1 hy2 hok2 hne fun ta hta => hta)
    rintro r _ s t ⟨rfl, hst, hset⟩
    apply rel_ite Iff.rfl
    · exact fun hr => ⟨rfl, .inr ⟨hst, fun _ => hr⟩⟩
    intro hr
    apply rel_bind
    apply rel_storeAt.mpr
    refine ⟨rfl, ?_⟩
    by_cases hda : d = a
    · subst hda
      cases hu.obj.symm.trans (Utc.obj_iff.mpr hx')
      cases hu.type.symm.trans htp1
      cases hu.block.symm.trans hy1
      refine .inl (((hset (not_not.mp hr)).settle d _).eq ?_)
      rintro z ⟨⟨rfl | ⟨ta, hta, hcell⟩, hno⟩, hz⟩
      · exact hz rfl
      · exact hno ta hta hcell
    · exact .inr ⟨hst.store (hd hda) _, fun e => absurd e hda⟩
  · intro _
    apply rel_ite Iff.rfl
    · exact fun _ => ⟨rfl, .inr ⟨hv, fun _ => by decide⟩⟩
    · exact fun h => absurd hpub h

/-- **A copy**: from the object that differs it is refused, and to it it leaves no difference. -/
theorem rel_copy (h : Apart a u v) (d b : Nat) :
    rel (uteeCrypObjCopy d b) (uteeCrypObjCopy d b)
      (fun r r' s t => r = r' ∧ (t = s ∨ Apart a s t)) u v := by
  have hsane := copy_sane (d := d) (s := b) h.sane
  obtain ⟨hs, x, tp, y, hu, hv⟩ := h
  have key : rel (uteeCrypObjCopy d b) (uteeCrypObjCopy d b) (fun r r' s t => r = r' ∧
      (t = s ∨ Veiled a (Cells a x.attr y tp) s t ∧ (d = a → r ≠ teeSuccess))) u v := by
    have hend : ∀ r, r ≠ teeSuccess → ∀ s t, Veiled a (Cells a x.attr y tp) s t →
        rel (pure r : C Nat) (pure r : C Nat) (fun r r' s t => r = r' ∧
          (t = s ∨ Veiled a (Cells a x.attr y tp) s t ∧ (d = a → r ≠ teeSuccess))) s t :=
      fun r hr s t hst => ⟨rfl, .inr ⟨hst, fun _ => hr⟩⟩
    unfold uteeCrypObjCopy
    apply rel_bind
    apply rel_teeObjGet hv
    intro r
    apply rel_ite Iff.rfl
    · exact fun hr => hend r hr u v hv
    intro _
    apply rel_bind
    apply rel_teeObjGet hv
    intro r
    apply rel_ite Iff.rfl
    · exact fun hr => hend r hr u v hv
    intro _
    apply rel_bind
    apply rel_objAt hv
    intro x1 x2 hx1 _ _ hmask
    have hinfo : x2.info = x1.info := by rw [hmask]
    apply rel_bind
    apply rel_objAt hv
    intro y1 y2 hy1 _ heq hmask'
    have hinfo' : y2.info = y1.info := by rw [hmask']
    rw [hinfo, hinfo']
    apply rel_ite Iff.rfl
    · exact fun _ => hend _ (by decide) u v hv
    intro hi
    have hne : b ≠ a := hu.ne hy1 (by simpa using hi)
    apply rel_ite Iff.rfl
    · exact fun _ => hend _ (by decide) u v hv
    intro _
    apply rel_ite Iff.rfl
    · exact fun _ => hend _ (by decide) u v hv
    intro _
    apply rel_bind
    apply rel_mono (rel_copyFrom hs hu hv hx1 hy1 hne)
    rintro r _ s t ⟨rfl, rfl | ⟨hst, hfail⟩⟩
    · -- nothing differs any more
      exact rel_refl (wlp_mono (wlp_true _ _) fun _ _ _ => ⟨rfl, .inl rfl⟩)
    apply rel_ite Iff.rfl
    · exact fun hr => hend r hr s t hst
    intro hr
    have hda : d ≠ a := fun e => hr (hfail e)
    apply rel_bind
    apply rel_objAt hst
    intro x3 x4 hx3 _ heq3 _
    apply rel_bind
    apply rel_objAt hst
    intro y3 y4 _ _ heq4 _
    cases heq3 hda
    cases heq4 hne
    apply rel_bind
    apply rel_storeAt.mpr
    exact ⟨rfl, .inr ⟨hst.store (hst.notMem hx3 (.inl hda) nofun) _, fun e => absurd e hda⟩⟩
  apply rel_mono (rel_wlp key hsane)
  rintro r _ s t ⟨⟨rfl, heq | ⟨hst, hfail⟩⟩, hs', hsame, hk, hother⟩
  · exact ⟨rfl, .inl heq⟩
  refine ⟨rfl, .inr (Apart.kept hs' hk ?_ hu hst)⟩
  by_cases hda : d = a
  · rw [hsame (hfail hda)]
  · exact hother a (Ne.symm hda)

/-- an object that is not initialised has the description of a new one -/
theorem Tidy.renewed {bl : Blocks} (h : Tidy bl x) (hf : x.info.handleFlags = 0) :
    x.renewed = { x with haveAttrs := 0 } := by
  obtain ⟨hk, hus⟩ := h.unset hf
  obtain ⟨⟨ty, k, n, us, f⟩, b, m, at'⟩ := x
  cases hk
  cases hus
  cases hf
  rfl

/-- the cells of a keypair -/
theorem cells_ecc {d e f c z : Nat} (h : tp.typeAttrs = teeCrypObjEccKeypairAttrs) :
    Cells a q (.ecc d e f c) tp z ↔ z = a ∨ z = q ∨ z ∈ (Attr.ecc d e f c).bignums := by
  simp [Cells, h, teeCrypObjEccKeypairAttrs, Attr.cell, Attr.get?, Attr.bignums]
  grind

/-- the cells of a secret -/
theorem cells_secret {k n z : Nat} {data : List UInt8}
    (h : tp.typeAttrs = teeCrypObjSecretValueAttrs) :
    Cells a q (.secret k n data) tp z ↔ z = a := by
  simp [Cells, h, teeCrypObjSecretValueAttrs, Attr.cell]

/-- an object that is not initialised differs from a new one in its mask and its numbers -/
theorem Sane.apart (hs : Sane u) (hx : u.obj a = some x)
    (h0 : x.info.has teeHandleFlagInitialized = false) : Apart a u (u.renewed a) := by
  have ht := hs.tidy a x hx
  have hf := ht.has_iff.mp h0
  have hxb := Utc.obj_iff.mp hx
  obtain ⟨tp, y, htp, hy, hok⟩ := (hs.ok a x hx).attr
  have hparts := parts_eq hx hy
  have hself : (u.renewed a).heap.blocks a = some (.obj { x with haveAttrs := 0 }) := by
    rw [renewed_of_mem (hparts ▸ List.mem_cons_self), hxb, ← ht.renewed hf]
    rfl
  refine ⟨hs, x, tp, y, ⟨hx, h0, htp, hy, hok⟩, ⟨⟨rfl, rfl, rfl, rfl⟩, rfl, rfl, ?_, ?_⟩⟩
  · intro q hq
    by_cases hmem : q ∈ u.parts a
    swap
    · exact renewed_of_notMem hmem
    cases y with
    | secret k n data =>
      obtain ⟨rfl, hdata⟩ := ht.blank hf a k n data hy
      rw [cells_secret hok.1] at hq
      have hqa : q = x.attr := by simpa [hparts, hq, Attr.bignums] using hmem
      rw [renewed_of_mem hmem, hqa, hy, hdata]
      rfl
    | ecc d e f c =>
      rw [cells_ecc hok.1] at hq
      exact absurd (by simpa [hparts] using hmem) hq
  · intro q hq
    cases y with
    | secret k n data =>
      cases (cells_secret hok.1).mp hq
      exact ⟨_, _, hxb, hself, .mask⟩
    | ecc d e f c =>
      obtain ⟨hattrs, ⟨vd, hd⟩, ⟨ve, he⟩, vf, hf'⟩ := hok
      have hren : q ∈ u.parts a → (u.renewed a).heap.blocks q = (u.heap.blocks q).map Block.renewed :=
        renewed_of_mem
      obtain rfl | rfl | hbn := (cells_ecc hattrs).mp hq
      · exact ⟨_, _, hxb, hself, .mask⟩
      · rw [hren (by simp [hparts]), hy]
        exact ⟨_, _, rfl, rfl, .curve⟩
      · rw [hren (by simp [hparts, hbn])]
        rw [Attr.bignums, List.mem_cons, List.mem_cons, List.mem_singleton] at hbn
        obtain rfl | rfl | rfl := hbn
        · exact ⟨_, _, hd, by rw [hd]; rfl, .bignum⟩
        · exact ⟨_, _, he, by rw [he]; rfl, .bignum⟩
        · exact ⟨_, _, hf', by rw [hf']; rfl, .bignum⟩

end

end MTower.Cryp
