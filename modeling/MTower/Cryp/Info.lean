import MTower.Cryp.Binary

/-!
# What the object calls do to the objects

The attribute operations write attribute blocks and bignums only, so the object that a populate,
a copy or a reset leaves behind can be told from the one before.

* `teeObjAttrCopyFrom_objs`, `populateAttrs_objs`  the loops keep every object;
* `uteeCrypObjReset_objs`      the object after a reset;
* `uteeCrypObjPopulate_objs`   the object after a populate that goes through, and when it does;
* `uteeCrypObjCopy_objs`       the same for a copy.
-/

set_option linter.unusedVariables false

namespace MTower.Cryp
open Lib Kernel

section
variable {p : Provider} {u t : Utc} {a q : Nat} {m : Member} {tp : TypeProps} {ta : TypeAttr}

/-! ## memory -/

theorem wlp_blockAt {Q : Block → Utc → Prop} :
    wlp (blockAt a) Q u ↔ ∀ b, u.heap.blocks a = some b → Q b u := by
  rw [blockAt, wlp_bind, wlp_get]
  cases h : u.heap.blocks a with
  | none => simp
  | some b => simp

theorem wlp_objAt {Q : TeeObj → Utc → Prop} :
    wlp (objAt a) Q u ↔ ∀ o, u.heap.blocks a = some (.obj o) → Q o u := by
  rw [objAt, wlp_bind, wlp_blockAt]
  constructor
  · intro h o ho
    exact h _ ho
  · intro h b hb
    cases b with
    | obj o => exact h o hb
    | _ => trivial

@[simp] theorem wlp_storeAt {b : Block} {Q : Unit → Utc → Prop} :
    wlp (storeAt a b) Q u ↔ Q () (u.store a b) := Iff.rfl

def Block.IsObj : Block → Prop
  | .obj _ => True
  | _ => False

/-- a block that is no object is replaced by one that is none -/
theorem store_objs {b c : Block} (hb : u.heap.blocks a = some b) (hn : ¬ b.IsObj)
    (hn' : ¬ c.IsObj) : (u.store a c).obj = u.obj := by
  funext r
  unfold Utc.obj
  rw [Utc.store_blocks]
  by_cases hr : r = a
  · rw [if_pos hr, hr, hb]
    cases b with
    | obj o => exact absurd trivial hn
    | _ =>
      cases c with
      | obj o => exact absurd trivial hn'
      | _ => rfl
  · rw [if_neg hr]

theorem store_obj_objs {o : TeeObj} :
    (u.store a (.obj o)).obj = Function.update u.obj a (some o) := by
  funext r
  unfold Utc.obj
  rw [Utc.store_blocks]
  by_cases hr : r = a
  · rw [if_pos hr, hr, Function.update_self]
  · rw [if_neg hr, Function.update_of_ne hr]

theorem memberAt_objs : wlp (memberAt q m) (fun _ t => t = u) u := by
  rw [memberAt, wlp_bind, wlp_blockAt]
  intro b hb
  cases b with
  | attr own x =>
    dsimp only
    cases x.get? m with
    | none => trivial
    | some w => rfl
  | _ => trivial

theorem bignumAt_objs : wlp (bignumAt q) (fun _ t => t = u) u := by
  rw [bignumAt, wlp_bind, wlp_blockAt]
  intro b hb
  cases b with
  | bignum own m v => rfl
  | _ => trivial

theorem setMember_objs {w : Nat} : wlp (setMember q m w) (fun _ t => t.obj = u.obj) u := by
  rw [setMember, wlp_bind, wlp_blockAt]
  intro b hb
  cases b with
  | attr own x => exact store_objs hb id id
  | _ => trivial

theorem setBignum_objs {w : Nat} : wlp (setBignum q w) (fun _ t => t.obj = u.obj) u := by
  rw [setBignum, wlp_bind, wlp_blockAt]
  intro b hb
  cases b with
  | bignum own m v => exact store_objs hb id id
  | _ => trivial

/-! ## the attribute operations -/

theorem attrFromUser_objs (buffer : List UInt8) :
    wlp (attrFromUser p q ta buffer) (fun _ t => t.obj = u.obj) u := by
  unfold attrFromUser
  cases ta.opsIndex with
  | secret =>
    rw [opAttrSecretValueFromUser, wlp_bind, wlp_blockAt]
    intro b hb
    cases b with
    | attr own x =>
      cases x with
      | secret k n data =>
        dsimp only
        split
        · rfl
        · split
          · trivial
          · exact store_objs hb id id
      | ecc d e f c => trivial
    | _ => trivial
  | bignum =>
    rw [opAttrBignumFromUser, wlp_bind]
    refine wlp_mono memberAt_objs fun bn t ht => ?_
    subst ht
    rw [wlp_bind]
    refine wlp_mono bignumAt_objs fun v t ht => ?_
    subst ht
    rw [wlp_bind]
    exact setBignum_objs
  | value =>
    show wlp (opAttrValueFromUser q ta.raw buffer) _ u
    rw [opAttrValueFromUser]
    split
    · rfl
    · rw [wlp_bind]
      exact setMember_objs

theorem attrFromObj_objs {q' : Nat} {ta' : TypeAttr} :
    wlp (attrFromObj q q' ta ta') (fun _ t => t.obj = u.obj) u := by
  unfold attrFromObj
  cases ta.opsIndex with
  | secret =>
    simp only [opAttrSecretValueFromObj, wlp_bind, wlp_blockAt]
    intro b hb
    cases b with
    | attr own x =>
      cases x with
      | secret k n data =>
        simp only [wlp_bind, wlp_blockAt]
        intro c hc
        cases c with
        | attr own' y =>
          cases y with
          | secret k' n' data' =>
            dsimp only
            split
            · rfl
            · split
              · trivial
              · exact store_objs hc id id
          | ecc d e f c => trivial
        | _ => trivial
      | ecc d e f c => trivial
    | _ => trivial
  | bignum =>
    rw [opAttrBignumFromObj, wlp_bind]
    refine wlp_mono memberAt_objs fun bn t ht => ?_
    subst ht
    rw [wlp_bind]
    refine wlp_mono memberAt_objs fun src t ht => ?_
    subst ht
    rw [wlp_bind]
    refine wlp_mono bignumAt_objs fun v t ht => ?_
    subst ht
    rw [wlp_bind]
    exact setBignum_objs
  | value =>
    rw [opAttrValueFromObj, wlp_bind]
    refine wlp_mono memberAt_objs fun v t ht => ?_
    subst ht
    rw [wlp_bind]
    exact setMember_objs

theorem attrClear_objs : wlp (attrClear q ta) (fun _ t => t.obj = u.obj) u := by
  unfold attrClear
  cases ta.opsIndex with
  | secret =>
    rw [opAttrSecretValueClear, wlp_bind, wlp_blockAt]
    intro b hb
    cases b with
    | attr own x =>
      cases x with
      | secret k n data =>
        dsimp only
        split
        · trivial
        · exact store_objs hb id id
      | ecc d e f c => trivial
    | _ => trivial
  | bignum =>
    rw [opAttrBignumClear, wlp_bind]
    refine wlp_mono memberAt_objs fun bn t ht => ?_
    subst ht
    exact setBignum_objs
  | value => exact setMember_objs

/-! ## the loops -/

theorem forAttrs_objs {f : TypeAttr → C Unit} {l : List TypeAttr}
    (h : ∀ ta t, wlp (f ta) (fun _ t' => t'.obj = t.obj) t) :
    wlp (forAttrs f l) (fun _ t => t.obj = u.obj) u := by
  induction l generalizing u with
  | nil => rfl
  | cons ta l ih =>
    rw [forAttrs, wlp_bind]
    refine wlp_mono (h ta u) fun _ t ht => ?_
    exact wlp_mono ih fun _ v hv => hv.trans ht

theorem copyAttrs_objs {f : TypeAttr → C Nat} {l : List TypeAttr}
    (h : ∀ ta t, wlp (f ta) (fun _ t' => t'.obj = t.obj) t) :
    wlp (copyAttrs f l) (fun _ t => t.obj = u.obj) u := by
  induction l generalizing u with
  | nil => rfl
  | cons ta l ih =>
    rw [copyAttrs, wlp_bind]
    refine wlp_mono (h ta u) fun res t ht => ?_
    split
    · exact ht
    · exact wlp_mono ih fun _ v hv => hv.trans ht

/-- the sizes that the attributes `l` add to `size` -/
def sizeOf (tp : TypeProps) : List TeeAttribute → Nat → Nat
  | [], size => size
  | t :: l, size =>
    sizeOf tp l (match (teeSvcCrypObjFindTypeAttrIdx t.attributeID tp).bind fun i =>
        tp.typeAttrs[i]? with
      | none => size
      | some ta =>
        if ta.flags &&& teeTypeAttrSizeIndicator ≠ 0 then (size + t.content.2 * 8) % 2 ^ 32
        else size)

/-- the loop keeps the objects, and a loop that goes through adds up the sizes -/
theorem populateAttrs_objs {mem : Nat → UInt8} {l : List TeeAttribute} {have_ size : Nat} :
    wlp (populateAttrs p mem q tp l have_ size)
      (fun r t => t.obj = u.obj ∧ (r.1 = teeSuccess → r.2.2 = sizeOf tp l size)) u := by
  induction l generalizing u have_ size with
  | nil => exact ⟨rfl, fun _ => rfl⟩
  | cons t l ih =>
    rw [populateAttrs]
    cases hi : teeSvcCrypObjFindTypeAttrIdx t.attributeID tp with
    | none =>
      have hne : teeErrorItemNotFound ≠ teeSuccess := by decide
      exact ⟨rfl, fun h => absurd h hne⟩
    | some i =>
      dsimp only
      cases hg : tp.typeAttrs[i]? with
      | none => trivial
      | some ta =>
        dsimp only
        rw [wlp_bind]
        refine wlp_mono (attrFromUser_objs _) fun res v hv => ?_
        by_cases hr : res ≠ teeSuccess
        · rw [if_pos hr]
          exact ⟨hv, fun h => absurd h hr⟩
        · rw [if_neg hr]
          refine wlp_mono ih fun r w hw => ⟨hw.1.trans hv, fun h => ?_⟩
          rw [hw.2 h, sizeOf, hi, Option.bind_some, hg]

/-- a copy between blocks of one type goes through -/
theorem attrFromObj_success {a' q' : Nat} {x x' : Attr} (hb : u.heap.blocks q = some (.attr a x))
    (hx : AttrOk u.heap.blocks a tp x) (hb' : u.heap.blocks q' = some (.attr a' x'))
    (hx' : AttrOk u.heap.blocks a' tp x') :
    wlp (attrFromObj q q' ta ta) (fun r _ => r = teeSuccess) u := by
  unfold attrFromObj
  cases ta.opsIndex with
  | secret =>
    rw [opAttrSecretValueFromObj, wlp_bind, wlp_blockAt]
    intro b hbb
    rw [hb', Option.some_inj] at hbb
    subst hbb
    cases x' with
    | ecc d e f c => trivial
    | secret k' n' data' =>
      simp only [wlp_bind, wlp_blockAt]
      intro c hc
      rw [hb, Option.some_inj] at hc
      subst hc
      cases x with
      | ecc d e f c => trivial
      | secret k n data =>
        obtain ⟨-, hn, -, -⟩ := hx
        obtain ⟨-, hn', hk', -⟩ := hx'
        have hle : ¬ n < k' := by omega
        dsimp only
        rw [if_neg hle]
        split
        · trivial
        · rfl
  | bignum =>
    rw [opAttrBignumFromObj, wlp_bind]
    refine wlp_mono (wlp_true _ u) fun bn t _ => ?_
    rw [wlp_bind]
    refine wlp_mono (wlp_true _ t) fun src t _ => ?_
    rw [wlp_bind]
    refine wlp_mono (wlp_true _ t) fun v t _ => ?_
    rw [wlp_bind]
    exact wlp_mono (wlp_true _ t) fun _ _ _ => rfl
  | value =>
    rw [opAttrValueFromObj, wlp_bind]
    refine wlp_mono (wlp_true _ u) fun v t _ => ?_
    rw [wlp_bind]
    exact wlp_mono (wlp_true _ t) fun _ _ _ => rfl

theorem copyAttrs_success {f : TypeAttr → C Nat} {l : List TypeAttr}
    (h : ∀ t, Kept u t → ∀ ta ∈ l, wp (f ta) (fun r t' => Kept t t' ∧ r = teeSuccess) t) :
    wlp (copyAttrs f l) (fun r _ => r = teeSuccess) u := by
  induction l generalizing u with
  | nil => rfl
  | cons ta l ih =>
    rw [copyAttrs, wlp_bind]
    refine wlp_mono (wlp_of_wp (h u (Kept.refl u) ta List.mem_cons_self)) fun res t ht => ?_
    rw [if_neg (not_not.mpr ht.2)]
    exact ih fun t' ht' tb htb => h t' (ht.1.trans ht') tb (List.mem_cons_of_mem ta htb)

end

/-! ## reset -/

def TeeObj.cleared (x : TeeObj) : TeeObj :=
  { x with info := { x.info with
    keySize := 0
    objectUsage := teeUsageDefault
    handleFlags := x.info.handleFlags &&& (0xffffffff ^^^ teeHandleFlagInitialized) } }

section
variable {p : Provider} {u t : Utc} {a : Nat}

theorem Core.notMem (hc : Core p u) (ha : a ∉ u.objects) : u.obj a = none := by
  cases h : u.obj a with
  | none => rfl
  | some x => exact absurd ((hc.objMem a).mpr (by rw [h]; rfl)) ha

theorem teeObjAttrClear_objs : wlp (teeObjAttrClear a) (fun _ t => t.obj = u.obj) u := by
  rw [teeObjAttrClear, onAttrs, wlp_bind, wlp_objAt]
  intro o ho
  split
  · rfl
  · cases teeSvcFindTypeProps o.info.objectType with
    | none => rfl
    | some tp => exact forAttrs_objs fun ta t => attrClear_objs

/-- **A reset clears the sizes and the flags of one object.** -/
theorem uteeCrypObjReset_objs (hc : Core p u) : wp (uteeCrypObjReset a) (fun _ t =>
    t.obj = Function.update u.obj a ((u.obj a).map TeeObj.cleared)) u := by
  simp only [uteeCrypObjReset, wp_bind, wp_teeObjGet hc]
  by_cases ha : a ∈ u.objects
  · obtain ⟨o, ho⟩ := hc.objBlock ha
    have hxo := Utc.obj_iff.mpr ho
    have hok := hc.objOk a o hxo
    have htr : ¬ (o.info.has teeHandleFlagPersistent = true) := by simp [hok.transient]
    simp only [if_pos ha, ne_eq, not_true_eq_false, if_false, wp_bind, wp_objAt ho, if_neg htr]
    refine wp_mono (wp_and (teeObjAttrClear_kept ho hok) teeObjAttrClear_objs) fun _ t ht => ?_
    rw [wp_bind, wp_storeAt, wp_pure, store_obj_objs, ht.2, hxo]
    rfl
  · have hne : teeErrorBadParameters ≠ teeSuccess := by decide
    rw [if_neg ha, if_pos hne, wp_pure, hc.notMem ha]
    exact (Function.update_eq_self_iff.mpr (hc.notMem ha).symm).symm

/-! ## copy -/

/-- what `utee_cryp_obj_copy` makes of the object `x` with the source `y` -/
def TeeObj.copied (x y : TeeObj) : TeeObj :=
  { x with haveAttrs := y.haveAttrs
           info := { x.info with
             handleFlags := x.info.handleFlags ||| teeHandleFlagInitialized
             keySize := y.info.keySize
             objectUsage := y.info.objectUsage } }

/-- the copies that go through -/
structure Copies (u : Utc) (d s : Nat) (x y : TeeObj) : Prop where
  dst : u.obj d = some x
  src : u.obj s = some y
  ready : y.info.has teeHandleFlagInitialized = true
  fresh : x.info.has teeHandleFlagInitialized = false
  type : x.info.objectType = y.info.objectType

theorem teeObjAttrCopyFrom_objs {d s : Nat} {x y : TeeObj} (h0 : u.heap.blocks 0 = none)
    (hx : u.heap.blocks d = some (.obj x)) (hxok : ObjOk u.heap.blocks d x)
    (hy : u.heap.blocks s = some (.obj y)) (hyok : ObjOk u.heap.blocks s y) :
    wp (teeObjAttrCopyFrom d s) (fun r t => Kept u t ∧
      (x.info.objectType = y.info.objectType ∧ r = teeSuccess ∧
        t.obj = Function.update u.obj d (some { x with haveAttrs := y.haveAttrs }) ∨
      x.info.objectType ≠ y.info.objectType ∧ r ≠ teeSuccess ∧ t.obj = u.obj)) u := by
  refine wp_and (copyFrom_kept hx hxok hy hyok) (wlp_of_wp ?_)
  obtain ⟨htr, tp, z, htp, hb, hz⟩ := hxok
  obtain ⟨-, tp', z', htp', hb', hz'⟩ := hyok
  have hdata : x.info.objectType ≠ teeTypeData := by
    intro e
    rw [e] at htp
    cases htp
  simp only [teeObjAttrCopyFrom, wp_bind, wp_objAt hx, wp_objAt hy, if_neg hdata,
    if_neg (ne_zero_of_null h0 hb), htp]
  by_cases hty : x.info.objectType = y.info.objectType
  · rw [← hty, htp, Option.some_inj] at htp'
    subst htp'
    have hcopy : ∀ t, Kept u t → ∀ ta ∈ tp.typeAttrs,
        wp (attrFromObj x.attr y.attr ta ta) (fun r t' => Kept t t' ∧ r = teeSuccess) t := by
      intro t ht ta hta
      obtain ⟨w, hw, hwok⟩ := ht.attrOk hz hb
      obtain ⟨w', hw', hwok'⟩ := ht.attrOk hz' hb'
      exact wp_and (attrFromObj_kept hw hwok hw' hwok' hta)
        (attrFromObj_success hw hwok hw' hwok')
    have hkept : wp (copyAttrs (fun ta => attrFromObj x.attr y.attr ta ta) tp.typeAttrs)
        (fun _ t => Kept u t) u :=
      copyAttrs_kept fun t ht ta hta => wp_mono (hcopy t ht ta hta) fun _ _ h => h.1
    rw [if_pos hty, wp_bind]
    refine wp_mono (wp_and (wp_and hkept (copyAttrs_objs fun ta t => attrFromObj_objs))
      (copyAttrs_success hcopy)) fun res t ht => ?_
    obtain ⟨⟨hk, hobj⟩, rfl⟩ := ht
    rw [if_neg (not_not.mpr rfl), wp_bind, wp_storeAt, wp_pure]
    refine .inl ⟨hty, rfl, ?_⟩
    rw [store_obj_objs, hobj]
  · have hpub : (x.info.objectType, y.info.objectType) ∉ publicKeyOf := by
      intro hmem
      have hnone : ∀ t ∈ publicKeyOf, teeSvcFindTypeProps t.1 = none := by decide
      have hn := hnone _ hmem
      rw [htp] at hn
      cases hn
    have hne : teeErrorBadParameters ≠ teeSuccess := by decide
    rw [if_neg hty, if_pos hpub, wp_pure]
    exact .inr ⟨hty, hne, rfl⟩

/-- **A copy that goes through makes one object out of two; one that does not changes none.** -/
theorem uteeCrypObjCopy_objs (hc : Core p u) {d s : Nat} :
    wp (uteeCrypObjCopy d s) (fun r t =>
      (∃ x y, Copies u d s x y ∧ r = teeSuccess ∧
        t.obj = Function.update u.obj d (some (x.copied y))) ∨
      (∀ x y, ¬ Copies u d s x y) ∧ r ≠ teeSuccess ∧ t.obj = u.obj) u := by
  have hne : teeErrorBadParameters ≠ teeSuccess := by decide
  have hfail : (∀ x y, ¬ Copies u d s x y) → (∃ x y, Copies u d s x y ∧
      teeErrorBadParameters = teeSuccess ∧
        u.obj = Function.update u.obj d (some (x.copied y))) ∨
      (∀ x y, ¬ Copies u d s x y) ∧ teeErrorBadParameters ≠ teeSuccess ∧ u.obj = u.obj :=
    fun h => .inr ⟨h, hne, rfl⟩
  rw [uteeCrypObjCopy, wp_bind, wp_teeObjGet hc]
  by_cases hd : d ∈ u.objects
  swap
  · rw [if_neg hd, if_pos hne]
    apply hfail
    intro x y h
    cases (hc.notMem hd).symm.trans h.dst
  rw [if_pos hd, if_neg (not_not.mpr rfl), wp_bind, wp_teeObjGet hc]
  by_cases hs : s ∈ u.objects
  swap
  · rw [if_neg hs, if_pos hne]
    apply hfail
    intro x y h
    cases (hc.notMem hs).symm.trans h.src
  obtain ⟨x, hx⟩ := hc.objBlock hd
  obtain ⟨y, hy⟩ := hc.objBlock hs
  have hxo := Utc.obj_iff.mpr hx
  have hyo := Utc.obj_iff.mpr hy
  have hxok := hc.objOk d x hxo
  have hyok := hc.objOk s y hyo
  have hper : ¬ (x.info.has teeHandleFlagPersistent = true) := by simp [hxok.transient]
  rw [if_pos hs, if_neg (not_not.mpr rfl), wp_bind, wp_objAt hx, wp_bind, wp_objAt hy]
  by_cases hready : y.info.has teeHandleFlagInitialized = true
  swap
  · rw [if_pos (by simp [hready])]
    apply hfail
    intro x' y' h
    cases hyo.symm.trans h.src
    exact hready h.ready
  rw [if_neg (by simp [hready]), if_neg hper]
  by_cases hfresh : x.info.has teeHandleFlagInitialized = true
  · rw [if_pos hfresh]
    apply hfail
    intro x' y' h
    cases hxo.symm.trans h.dst
    rw [h.fresh] at hfresh
    cases hfresh
  rw [if_neg hfresh, wp_bind]
  refine wp_mono (teeObjAttrCopyFrom_objs hc.null hx hxok hy hyok) fun r t ht => ?_
  obtain ⟨hk, ⟨hty, rfl, hobj⟩ | ⟨hty, hr, hobj⟩⟩ := ht
  · have hsd : s ≠ d := by
      rintro rfl
      rw [hxo, Option.some_inj] at hyo
      exact hfresh (hyo ▸ hready)
    have hxt : t.obj d = some { x with haveAttrs := y.haveAttrs } := by
      rw [hobj, Function.update_self]
    have hyt : t.obj s = some y := by rw [hobj, Function.update_of_ne hsd, hyo]
    rw [if_neg (not_not.mpr rfl), wp_bind, wp_objAt (Utc.obj_iff.mp hxt), wp_bind,
      wp_objAt (Utc.obj_iff.mp hyt), wp_bind, wp_storeAt, wp_pure]
    refine .inl ⟨x, y, ⟨hxo, hyo, hready, by simpa using hfresh, hty⟩, rfl, ?_⟩
    rw [store_obj_objs, hobj, Function.update_idem]
    rfl
  · rw [if_pos hr]
    refine .inr ⟨fun x' y' h => ?_, hr, hobj⟩
    cases hxo.symm.trans h.dst
    cases hyo.symm.trans h.src
    exact hty h.type

end

/-! ## populate -/

/-- the bits of a key of `size` bits that are counted: a DES key without its parity bits -/
def countedBits (objType size : Nat) : Nat :=
  if objType = teeTypeDes ∨ objType = teeTypeDes3 then size - size / 8 else size

/-- what `utee_cryp_obj_populate` makes of the object `x` -/
def TeeObj.populated (x : TeeObj) (haveAttrs keySize : Nat) : TeeObj :=
  { x with haveAttrs := haveAttrs
           info := { x.info with
             keySize := keySize
             handleFlags := x.info.handleFlags ||| teeHandleFlagInitialized } }

/-- the populates of a secret key that go through -/
structure Populates (u : Utc) (a : Nat) (l : List UteeAttribute) (x : TeeObj) (tp : TypeProps)
    (e : UteeAttribute) : Prop where
  obj : u.obj a = some x
  fresh : x.info.has teeHandleFlagInitialized = false
  type : teeSvcFindTypeProps x.info.objectType = some tp
  secret : tp.typeAttrs = teeCrypObjSecretValueAttrs
  attrs : l = [e]
  id : e.attributeId = teeAttrSecretValue
  fits : e.b ≤ tp.allocSize - sizeofSecret
  room : ¬ u.heap.Full

section
variable {p : Provider} {u t : Utc} {a : Nat} {tp : TypeProps} {mem : Nat → UInt8}

theorem findIdx_secret (hs : tp.typeAttrs = teeCrypObjSecretValueAttrs) (id : Nat) :
    teeSvcCrypObjFindTypeAttrIdx id tp = if id = teeAttrSecretValue then some 0 else none := by
  rw [teeSvcCrypObjFindTypeAttrIdx, hs]
  by_cases h : id = teeAttrSecretValue
  · subst h
    decide
  · have hne : (teeAttrSecretValue == id) = false := by
      rw [beq_eq_false_iff_ne]
      exact fun e => h e.symm
    rw [if_neg h, teeCrypObjSecretValueAttrs, List.findIdx?_cons, List.findIdx?_nil, hne]
    rfl

theorem attrsFound_secret (hs : tp.typeAttrs = teeCrypObjSecretValueAttrs) (l : List TeeAttribute) :
    attrsFound tp l 0 = match l with
      | [] => some 0
      | [e] => if e.attributeID = teeAttrSecretValue then some 1 else none
      | _ => none := by
  have h0 : (0 : Nat) &&& 1 <<< 0 = 0 := by decide
  have h1 : (0 ||| 1 <<< 0 : Nat) &&& 1 <<< 0 ≠ 0 := by decide
  cases l with
  | nil => rfl
  | cons e l =>
    rw [attrsFound, findIdx_secret hs]
    by_cases he : e.attributeID = teeAttrSecretValue
    · rw [if_pos he]
      dsimp only
      rw [if_neg (not_not.mpr h0)]
      cases l with
      | nil => exact (if_pos he).symm
      | cons e' l =>
        rw [attrsFound, findIdx_secret hs]
        by_cases he' : e'.attributeID = teeAttrSecretValue
        · rw [if_pos he']
          exact if_pos h1
        · rw [if_neg he']
    · rw [if_neg he]
      cases l with
      | nil => exact (if_neg he).symm
      | cons e' l => rfl

/-- the check accepts the secret value alone -/
theorem checkAttr_secret (hs : tp.typeAttrs = teeCrypObjSecretValueAttrs)
    (l : List TeeAttribute) :
    teeSvcCrypCheckAttr .populate tp l = teeSuccess ↔
      ∃ e, l = [e] ∧ e.attributeID = teeAttrSecretValue := by
  have hmask : attrMasks teeTypeAttrRequired teeTypeAttrOptionalGroup tp.typeAttrs 0 = (1, 0) := by
    rw [hs]
    decide
  have hbad : teeErrorItemNotFound ≠ teeSuccess := by decide
  simp only [teeSvcCrypCheckAttr, hmask, attrsFound_secret hs]
  cases l with
  | nil => simp [hbad]
  | cons e l =>
    cases l with
    | nil =>
      by_cases he : e.attributeID = teeAttrSecretValue
      · simp [he]
      · simp [he, hbad]
    | cons e' l => simp [hbad]

/-- the buffer of a secret value has the length that the TA gives -/
theorem buffer_secret {e : TeeAttribute} (he : e.attributeID = teeAttrSecretValue) :
    (e.buffer mem).length = e.content.2 := by
  have hbit : ¬ (e.attributeID &&& teeAttrBitValue ≠ 0) := by
    rw [he]
    decide
  rw [TeeAttribute.buffer, if_neg hbit, List.length_map, List.length_range]

theorem sizeOf_secret (hs : tp.typeAttrs = teeCrypObjSecretValueAttrs) {e : TeeAttribute}
    (he : e.attributeID = teeAttrSecretValue) (hl : e.content.2 < 2 ^ 29) :
    sizeOf tp [e] 0 = e.content.2 * 8 := by
  rw [sizeOf, sizeOf, findIdx_secret hs, if_pos he, hs]
  show (0 + e.content.2 * 8) % 2 ^ 32 = _
  omega

/-- the attributes of an ECC key say nothing about its size -/
theorem sizeOf_ecc (ht : tp.typeAttrs = teeCrypObjEccKeypairAttrs) (l : List TeeAttribute)
    (size : Nat) : sizeOf tp l size = size := by
  have hflag : ∀ ta ∈ teeCrypObjEccKeypairAttrs,
      ¬ (ta.flags &&& teeTypeAttrSizeIndicator ≠ 0) := by decide
  induction l with
  | nil => rfl
  | cons t l ih =>
    rw [sizeOf]
    cases hi : teeSvcCrypObjFindTypeAttrIdx t.attributeID tp with
    | none => exact ih
    | some i =>
      obtain ⟨ta, hg, hta⟩ := findIdx_mem hi
      rw [Option.bind_some, hg]
      dsimp only
      rw [if_neg (hflag ta (ht ▸ hta))]
      exact ih

variable {x : TeeObj} {l : List TeeAttribute}

theorem populateType_objs (hx : u.heap.blocks a = some (.obj x)) :
    wlp (teeSvcCrypObjPopulateType p mem a tp l) (fun r t =>
      (r = teeSuccess ∧ ∃ h, t.obj = Function.update u.obj a (some { x with
        haveAttrs := h
        info := { x.info with keySize := countedBits x.info.objectType (sizeOf tp l 0) } })) ∨
      r ≠ teeSuccess ∧ t.obj = u.obj) u := by
  rw [teeSvcCrypObjPopulateType, wlp_bind, wlp_objAt]
  intro o ho
  cases hx.symm.trans ho
  rw [wlp_bind]
  refine wlp_mono populateAttrs_objs fun r t ht => ?_
  by_cases hr : r.1 ≠ teeSuccess
  · rw [if_pos hr]
    exact .inr ⟨hr, ht.1⟩
  · rw [if_neg hr, wlp_bind, wlp_storeAt, wlp_pure]
    refine .inl ⟨rfl, r.2.1, ?_⟩
    rw [store_obj_objs, ht.1, ← ht.2 (not_not.mp hr)]
    rfl

theorem populateWith_objs (hx : u.heap.blocks a = some (.obj x)) :
    wlp (populateWith p mem a tp l) (fun r t =>
      (r = teeSuccess ∧ ∃ h, t.obj = Function.update u.obj a
        (some (x.populated h (countedBits x.info.objectType (sizeOf tp l 0))))) ∨
      r ≠ teeSuccess ∧ t.obj = u.obj) u := by
  rw [populateWith]
  by_cases hch : teeSvcCrypCheckAttr .populate tp l ≠ teeSuccess
  · rw [if_pos hch]
    exact .inr ⟨hch, rfl⟩
  rw [if_neg hch, wlp_bind]
  refine wlp_mono (populateType_objs hx) fun r t ht => ?_
  by_cases hr : r ≠ teeSuccess
  · rw [if_pos hr]
    exact .inr ⟨hr, (ht.resolve_left fun h => hr h.1).2⟩
  · obtain ⟨-, h, hobj⟩ := ht.resolve_right fun h => hr h.1
    rw [if_neg hr, wlp_bind, setInitialized, wlp_bind, wlp_objAt]
    intro o ho
    have hot := Utc.obj_iff.mpr ho
    rw [hobj, Function.update_self, Option.some_inj] at hot
    subst hot
    refine .inl ⟨rfl, h, ?_⟩
    rw [store_obj_objs, hobj, Function.update_idem]
    rfl

/-- a secret type takes one secret value that fits its block -/
theorem populateWith_accepts (hs : tp.typeAttrs = teeCrypObjSecretValueAttrs)
    (hx : u.heap.blocks a = some (.obj x)) (hok : ObjOk u.heap.blocks a x)
    (htp : teeSvcFindTypeProps x.info.objectType = some tp) :
    wlp (populateWith p mem a tp l) (fun r _ => r = teeSuccess ↔ ∃ e, l = [e] ∧
      e.attributeID = teeAttrSecretValue ∧ e.content.2 ≤ tp.allocSize - sizeofSecret) u := by
  have hbad : teeErrorSecurity ≠ teeSuccess := by decide
  rw [populateWith]
  by_cases hch : teeSvcCrypCheckAttr .populate tp l ≠ teeSuccess
  · rw [if_pos hch, wlp_pure]
    refine iff_of_false hch ?_
    rintro ⟨e, he, hid, -⟩
    exact hch ((checkAttr_secret hs l).mpr ⟨e, he, hid⟩)
  obtain ⟨e, rfl, hid⟩ := (checkAttr_secret hs l).mp (not_not.mp hch)
  obtain ⟨-, tp', z, htp', hb, hz⟩ := hok
  cases htp.symm.trans htp'
  have hidx : tp.typeAttrs[0]? = some ⟨teeAttrSecretValue,
      teeTypeAttrRequired ||| teeTypeAttrSizeIndicator, .secret, .secret⟩ := by
    rw [hs]
    rfl
  rw [if_neg hch, wlp_bind, teeSvcCrypObjPopulateType, wlp_bind, wlp_objAt]
  intro o ho
  cases hx.symm.trans ho
  rw [wlp_bind, populateAttrs, findIdx_secret hs, if_pos hid]
  dsimp only
  rw [hidx]
  dsimp only
  rw [wlp_bind, attrFromUser, opAttrSecretValueFromUser, wlp_bind, wlp_blockAt]
  intro b hbb
  cases hb.symm.trans hbb
  cases z with
  | ecc d e f c => trivial
  | secret k n data =>
    obtain ⟨-, rfl, -, hl⟩ := hz
    dsimp only
    rw [buffer_secret hid, hl]
    by_cases hlen : tp.allocSize - sizeofSecret < e.content.2
    · rw [if_pos hlen, wlp_pure, if_pos hbad, wlp_pure, if_pos hbad, wlp_pure, if_pos hbad, wlp_pure]
      refine iff_of_false hbad ?_
      rintro ⟨e', he, -, hle⟩
      cases he
      omega
    · rw [if_neg hlen, if_neg hlen, wlp_bind, wlp_storeAt, wlp_pure, if_neg (not_not.mpr rfl),
        populateAttrs, wlp_pure, if_neg (not_not.mpr rfl), wlp_bind, wlp_storeAt, wlp_pure,
        if_neg (not_not.mpr rfl), wlp_bind, setInitialized]
      refine wlp_mono (wlp_true _ _) fun _ _ _ => ?_
      exact iff_of_true rfl ⟨e, rfl, hid, by omega⟩

theorem erase_objs {q : Nat} {b : Block} (hb : u.heap.blocks q = some b) (hn : ¬ b.IsObj) :
    (u.erase q).obj = u.obj := by
  funext r
  unfold Utc.obj
  rw [Utc.erase_blocks]
  by_cases hr : r = q
  · rw [if_pos hr, hr, hb]
    cases b with
    | obj o => exact absurd trivial hn
    | _ => rfl
  · rw [if_neg hr]

theorem countedBits_zero (objType : Nat) : countedBits objType 0 = 0 := by
  unfold countedBits
  split <;> rfl

theorem copyInAttrs_single {l : List UteeAttribute} {e : TeeAttribute}
    (h : copyInAttrs l = [e]) : ∃ e', l = [e'] ∧ e = ⟨e'.attributeId, (e'.a, e'.b)⟩ := by
  obtain ⟨e', rfl, he⟩ := List.map_eq_singleton_iff.mp h
  exact ⟨e', rfl, he.symm⟩

/-- what a populate leaves of the objects -/
def PopulateEnds (u : Utc) (a : Nat) (l : List UteeAttribute) (r : Nat) (t : Utc) : Prop :=
  (∃ x tp e h, Populates u a l x tp e ∧ r = teeSuccess ∧ t.obj = Function.update u.obj a
    (some (x.populated h (countedBits x.info.objectType (e.b * 8))))) ∨
  (∀ x tp e, ¬ Populates u a l x tp e) ∧ (t.obj = u.obj ∨ ∃ x h, u.obj a = some x ∧
    isEccKeypair x.info.objectType = true ∧
      t.obj = Function.update u.obj a (some (x.populated h 0)))

/-- **A populate that goes through gives the object the length of its key**, and this is when a
populate of a secret type goes through. -/
theorem uteeCrypObjPopulate_objs (hc : Core p u) {l : List UteeAttribute} :
    wp (uteeCrypObjPopulate p mem a l) (PopulateEnds u a l) u := by
  have hne : teeErrorBadParameters ≠ teeSuccess := by decide
  have hsame : ∀ r t, t.obj = u.obj → (∀ x tp e, ¬ Populates u a l x tp e) →
      PopulateEnds u a l r t := fun r t ht h => .inr ⟨h, .inl ht⟩
  rw [uteeCrypObjPopulate, wp_bind, wp_teeObjGet hc]
  by_cases ha : a ∈ u.objects
  swap
  · rw [if_neg ha, if_pos hne]
    refine hsame _ _ rfl fun x tp e h => ?_
    cases (hc.notMem ha).symm.trans h.obj
  obtain ⟨x, hx⟩ := hc.objBlock ha
  have hxo := Utc.obj_iff.mpr hx
  have hok := hc.objOk a x hxo
  obtain ⟨-, tp, z, htp, -, -⟩ := id hok
  have hper : ¬ (x.info.has teeHandleFlagPersistent = true) := by simp [hok.transient]
  rw [if_pos ha, if_neg (not_not.mpr rfl), wp_bind, wp_objAt hx, if_neg hper]
  by_cases hini : x.info.has teeHandleFlagInitialized = true
  · rw [if_pos hini]
    refine hsame _ _ rfl fun x' tp e h => ?_
    cases hxo.symm.trans h.obj
    rw [h.fresh] at hini
    cases hini
  rw [if_neg hini, htp]
  dsimp only
  by_cases hov : 2 ^ 32 ≤ sizeofTeeAttribute * l.length
  · rw [if_pos hov]
    refine hsame _ _ rfl fun x' tp e h => ?_
    rw [h.attrs, sizeofTeeAttribute, List.length_singleton] at hov
    omega
  rw [if_neg hov, wp_bind, mallocAttrs]
  by_cases hl : l.length = 0
  · rw [if_pos hl, wp_pure, if_pos rfl]
    refine hsame _ _ rfl fun x' tp e h => ?_
    rw [h.attrs] at hl
    cases hl
  rw [if_neg hl, wp_teeMalloc]
  obtain ⟨hf, h0, hb⟩ | ⟨hf, h0, hn, hb⟩ := u.heap.alloc_cases
    (.attrs (List.replicate l.length ⟨0, (0, 0)⟩))
  · rw [if_pos h0]
    refine hsame _ _ ?_ fun x' tp e h => h.room hf
    funext r
    unfold Utc.obj
    rw [hb]
  · generalize hq : (u.heap.alloc (.attrs (List.replicate l.length ⟨0, (0, 0)⟩))).1 = q at *
    rw [if_neg h0, wp_bind, wp_storeAt, wp_bind]
    -- the copied attributes are in a fresh block
    generalize hv : Utc.store _ q (.attrs (copyInAttrs l)) = v
    have hblocks : ∀ r, v.heap.blocks r =
        if r = q then some (.attrs (copyInAttrs l)) else u.heap.blocks r := by
      intro r
      rw [← hv, Utc.store_blocks]
      show (if r = q then _ else (u.heap.alloc _).2.blocks r) = _
      rw [hb, Function.update_apply]
      split <;> rfl
    have hobj : v.obj = u.obj := by
      funext r
      unfold Utc.obj
      rw [hblocks]
      by_cases hr : r = q
      · rw [if_pos hr, hr, hn]
      · rw [if_neg hr]
    have hkeep : ∀ r c, u.heap.blocks r = some c → v.heap.blocks r = some c := by
      intro r c hr
      rw [hblocks, if_neg, hr]
      rintro rfl
      rw [hn] at hr
      cases hr
    have hxv := hkeep a _ hx
    have hokv := hok.frame fun r c hr _ => hkeep r c hr
    have hends : wp (populateWith p mem a tp (copyInAttrs l)) (fun r t => (Kept v t ∧
        ((r = teeSuccess ∧ ∃ h, t.obj = Function.update v.obj a (some (x.populated h
          (countedBits x.info.objectType (sizeOf tp (copyInAttrs l) 0))))) ∨
        r ≠ teeSuccess ∧ t.obj = v.obj)) ∧ (tp.typeAttrs = teeCrypObjSecretValueAttrs →
        (r = teeSuccess ↔ ∃ e, copyInAttrs l = [e] ∧ e.attributeID = teeAttrSecretValue ∧
          e.content.2 ≤ tp.allocSize - sizeofSecret))) v := by
      refine wp_and (wp_and (populateWith_kept hxv hokv htp) (populateWith_objs hxv)) ?_
      by_cases hs : tp.typeAttrs = teeCrypObjSecretValueAttrs
      · exact wlp_mono (populateWith_accepts hs hxv hokv htp) fun _ _ h _ => h
      · exact wlp_mono (wlp_true _ v) fun _ _ _ h => absurd h hs
    refine wp_mono hends fun r t ht => ?_
    obtain ⟨⟨hk, hobjs⟩, hacc⟩ := ht
    obtain ⟨c, hc', hs⟩ := hk.block (b := .attrs (copyInAttrs l)) (by rw [hblocks, if_pos rfl])
    cases hs
    rw [wp_bind, wp_teeFree h0 hc' (by rintro o ⟨⟩), wp_pure]
    have herase := erase_objs hc' id
    obtain ⟨hty, ⟨hecc, hattrs⟩ | ⟨-, hattrs⟩⟩ := props_cases htp
    · -- an ECC key
      refine .inr ⟨fun x' tp' e h => ?_, ?_⟩
      · cases hxo.symm.trans h.obj
        cases htp.symm.trans h.type
        cases hattrs.symm.trans h.secret
      · obtain ⟨-, h, ht⟩ | ⟨-, ht⟩ := hobjs
        · right
          refine ⟨x, h, hxo, ?_, ?_⟩
          · rw [← hty, hecc]
          · rw [herase, ht, hobj, sizeOf_ecc hattrs, countedBits_zero]
        · left
          rw [herase, ht, hobj]
    · have hiff : r = teeSuccess ↔ ∃ e, Populates u a l x tp e := by
        rw [hacc hattrs]
        constructor
        · rintro ⟨e, he, hid, hle⟩
          obtain ⟨e', rfl, rfl⟩ := copyInAttrs_single he
          exact ⟨e', hxo, by simpa using hini, htp, hattrs, rfl, hid, hle, hf⟩
        · rintro ⟨e, h⟩
          exact ⟨⟨e.attributeId, (e.a, e.b)⟩, by rw [h.attrs]; rfl, h.id, h.fits⟩
      obtain ⟨hr, h, ht⟩ | ⟨hr, ht⟩ := hobjs
      · obtain ⟨e, he⟩ := hiff.mp hr
        refine .inl ⟨x, tp, e, h, he, hr, ?_⟩
        have hsize : sizeOf tp (copyInAttrs l) 0 = e.b * 8 := by
          have hsmall := alloc_small (List.mem_of_find?_eq_some htp)
          have hfits := he.fits
          rw [he.attrs]
          exact sizeOf_secret (e := ⟨e.attributeId, (e.a, e.b)⟩) hattrs he.id (by dsimp only; omega)
        rw [herase, ht, hobj, hsize]
      · refine hsame _ _ (by rw [herase, ht, hobj]) fun x' tp' e h => ?_
        cases hxo.symm.trans h.obj
        cases htp.symm.trans h.type
        exact hr (hiff.mpr ⟨e, h⟩)

end

end MTower.Cryp
