import MTower.Cryp.Encode
import MTower.Cryp.Entries
import MTower.Cryp.Secret
import MTower.Lib.BigEndian

/-!
# Attributes that are read back

`utee_cryp_obj_get_attr` on an object that was populated and copied any number of times.

* `uteeCrypObjGetAttr`      the call;
* `Supplied`                an object whose table holds the attributes of a list;
* `populate_supplied`, `copy_supplied`  the two calls that make such objects;
* `Answered`                what the list says about the answer;
* `getAttr_iff`             the answers are right for all ids but that of a value.
-/

set_option linter.unusedVariables false

namespace MTower.Cryp
open Lib Kernel

/-! ## the call -/

def teeErrorShortBuffer : Nat := 0xFFFF0010
def teeAttrBitProtected : Nat := 1 <<< 28
def teeUsageExtractable : Nat := 0x1

/-- the result, `*size` afterwards and the bytes that went to `buffer` -/
abbrev ToUser := Nat × Nat × List UInt8

/-- `s` is `*size` -/
def opAttrSecretValueToUser (attr s : Nat) : C ToUser := do
  match ← blockAt attr with
  | .attr _ (.secret k _ bytes) =>
    if s < k then pure (teeErrorShortBuffer, k, [])
    else if bytes.length < k then throw .outOfBounds
    else pure (teeSuccess, k, bytes.take k)
  | _ => throw .danglingPointer

def opAttrBignumToUser (e : BignumWriter) (attr : Nat) (m : Member) (s : Nat) : C ToUser := do
  let bn ← memberAt attr m
  let v ← bignumAt bn
  let reqSize := e.numBytes v
  if reqSize = 0 then pure (teeSuccess, reqSize, [])
  else if s < reqSize then pure (teeErrorShortBuffer, reqSize, [])
  else pure (teeSuccess, reqSize, e.bn2bin v)

/-- `attr_ops[ops_index].to_user`; a value has none -/
def attrToUser (e : BignumWriter) (attr : Nat) (ta : TypeAttr) (s : Nat) : C ToUser :=
  match ta.opsIndex with
  | .secret => opAttrSecretValueToUser attr s
  | .bignum => opAttrBignumToUser e attr ta.raw s
  | .value => throw .nullPointer

def uteeCrypObjGetAttr (e : BignumWriter) (obj attrId s : Nat) : C ToUser := do
  let res ← teeObjGet obj
  if res ≠ teeSuccess then pure (teeErrorItemNotFound, s, [])
  else do
    let o ← objAt obj
    if !o.info.has teeHandleFlagInitialized then pure (teeErrorBadParameters, s, [])
    else if attrId &&& teeAttrBitProtected = 0 ∧ o.info.objectUsage &&& teeUsageExtractable = 0 then
      pure (teeErrorBadParameters, s, [])
    else
      match teeSvcFindTypeProps o.info.objectType with
      | none => pure (teeErrorBadState, s, [])
      | some tp =>
        match teeSvcCrypObjFindTypeAttrIdx attrId tp with
        | none => pure (teeErrorItemNotFound, s, [])
        | some i =>
          if o.haveAttrs &&& 1 <<< i = 0 then pure (teeErrorItemNotFound, s, [])
          else
            match tp.typeAttrs[i]? with
            | none => throw .outOfBounds
            | some ta => attrToUser e o.attr ta s

/-- copy `a` into the first object, that one into the second, and so on: the result and the
object that was reached -/
def copyChain (a : Nat) : List Nat → C (Nat × Nat)
  | [] => pure (teeSuccess, a)
  | b :: bs => do
    let res ← uteeCrypObjCopy b a
    if res ≠ teeSuccess then pure (res, a) else copyChain b bs

/-! ## what the answer should be -/

/-- the bytes that are given out stand for the attribute that was supplied in `buffer` -/
def SameAttr (ta : TypeAttr) (buffer out : List UInt8) : Prop :=
  match ta.opsIndex with
  | .secret => out = buffer
  | .bignum => Fields.number out = Fields.number buffer
  | .value => out.length = 8 ∧ firstWord out = firstWord buffer

/-- the answer that the supplied list `l` asks for -/
structure Answered (tp : TypeProps) (mem : Nat → UInt8) (l : List TeeAttribute) (id s : Nat)
    (r : ToUser) : Prop where
  found : ∀ e ∈ l, e.attributeID = id → ∃ ta ∈ tp.typeAttrs, ta.attrId = id ∧
    ∃ out, SameAttr ta (e.buffer mem) out ∧
      r = if s < out.length then (teeErrorShortBuffer, out.length, [])
        else (teeSuccess, out.length, out)
  missing : id ∉ ids l → r = (teeErrorItemNotFound, s, [])

/-- `crypto_bignum_bn2bin` writes a big endian number, `crypto_bignum_num_bytes` is its length -/
structure BignumWriter.Writes (e : BignumWriter) : Prop where
  number : ∀ v, Fields.number (e.bn2bin v) = v
  length : ∀ v, (e.bn2bin v).length = e.numBytes v

/-- an initialised object that can be read, with the attributes of the list `l` -/
structure Supplied (u : Utc) (a : Nat) (x : TeeObj) (tp : TypeProps) (mem : Nat → UInt8)
    (l : List TeeAttribute) : Prop where
  obj : u.obj a = some x
  ready : x.info.has teeHandleFlagInitialized = true
  usage : x.info.objectUsage &&& teeUsageExtractable ≠ 0
  type : teeSvcFindTypeProps x.info.objectType = some tp
  mask : ∀ i, x.haveAttrs.testBit i = true ↔
    ∃ e ∈ l, teeSvcCrypObjFindTypeAttrIdx e.attributeID tp = some i
  filled : Filled u x.attr a tp mem l

section
variable {p : Provider} {e : BignumWriter} {u t : Utc} {a d s id q : Nat} {x y : TeeObj}
  {tp : TypeProps} {ta : TypeAttr} {mem : Nat → UInt8} {l : List TeeAttribute}

/-! ## reading -/

/-- the answer for a bignum -/
theorem opAttrBignumToUser_eq (he : e.Writes) {own bn w : Nat} {y : Attr} {m : Member}
    (block : u.heap.blocks q = some (.attr own y)) (get : y.get? m = some bn)
    (bignum : u.heap.blocks bn = some (.bignum own m w)) :
    wp (opAttrBignumToUser e q m s) (fun r t => t = u ∧ r = if s < (e.bn2bin w).length then
      (teeErrorShortBuffer, (e.bn2bin w).length, [])
      else (teeSuccess, (e.bn2bin w).length, e.bn2bin w)) u := by
  have hlen := he.length w
  rw [opAttrBignumToUser, wp_bind, wp_memberAt block get, wp_bind, wp_bignumAt bignum, hlen]
  by_cases h0 : e.numBytes w = 0
  · have hnil : e.bn2bin w = [] := List.eq_nil_of_length_eq_zero (hlen.trans h0)
    rw [if_pos h0, wp_pure, h0, hnil]
    exact ⟨rfl, rfl⟩
  · rw [if_neg h0]
    by_cases hs : s < e.numBytes w
    · rw [if_pos hs, if_pos hs]
      exact ⟨rfl, rfl⟩
    · rw [if_neg hs, if_neg hs]
      exact ⟨rfl, rfl⟩

/-- the answer for an attribute that the object has -/
theorem attrToUser_entry (he : e.Writes) {buffer : List UInt8} (hta : ta.opsIndex ≠ .value)
    (h : Entry u q a ta (supplied ta buffer)) :
    wp (attrToUser e q ta s) (fun r t => t = u ∧ ∃ out, SameAttr ta buffer out ∧
      r = if s < out.length then (teeErrorShortBuffer, out.length, [])
        else (teeSuccess, out.length, out)) u := by
  cases hops : ta.opsIndex with
  | value => exact absurd hops hta
  | secret =>
    rw [supplied, hops] at h
    rw [attrToUser, hops]
    generalize hv : AttrValue.secret buffer = v at h
    cases h with
    | number ops block get bignum => cases hv
    | word ops raw block => cases hv
    | @secret k n bytes ops raw block le length =>
      have hbuf : buffer = bytes.take k := AttrValue.secret.inj hv
      have hsame : SameAttr ta buffer buffer := by
        rw [SameAttr, hops]
      have hk : (bytes.take k).length = k := by
        rw [List.length_take]
        omega
      show wp (opAttrSecretValueToUser q s) _ u
      rw [opAttrSecretValueToUser, wp_bind, wp_blockAt block]
      by_cases hs : s < k
      · dsimp only
        rw [if_pos hs, wp_pure]
        refine ⟨rfl, buffer, hsame, ?_⟩
        rw [hbuf, hk, if_pos hs]
      · dsimp only
        rw [if_neg hs, if_neg (by omega), wp_pure]
        refine ⟨rfl, buffer, hsame, ?_⟩
        rw [hbuf, hk, if_neg hs]
  | bignum =>
    rw [supplied, hops] at h
    rw [attrToUser, hops]
    generalize hv : AttrValue.number (Fields.number buffer) = v at h
    cases h with
    | secret ops raw block le length => cases hv
    | word ops raw block => cases hv
    | @number y bn w ops block get bignum =>
      have hw : Fields.number buffer = w := AttrValue.number.inj hv
      have hsame : SameAttr ta buffer (e.bn2bin w) := by
        rw [SameAttr, hops]
        exact (he.number w).trans hw.symm
      show wp (opAttrBignumToUser e q ta.raw s) _ u
      exact wp_mono (opAttrBignumToUser_eq he block get bignum) fun r t hr =>
        ⟨hr.1, e.bn2bin w, hsame, hr.2⟩

/-- the mask knows the attributes of the list -/
theorem Supplied.mask_iff (h : Supplied u a x tp mem l) {i : Nat}
    (hi : teeSvcCrypObjFindTypeAttrIdx id tp = some i) :
    x.haveAttrs.testBit i = true ↔ id ∈ ids l := by
  rw [h.mask i]
  constructor
  · rintro ⟨f, hf, hfi⟩
    exact List.mem_map.mpr ⟨f, hf, findIdx_inj hfi hi⟩
  · intro hm
    obtain ⟨f, hf, rfl⟩ := List.mem_map.mp hm
    exact ⟨f, hf, hi⟩

/-- the answer is right unless a value is asked for, which has no operation -/
theorem getAttr_answered (hc : Core p u) (he : e.Writes) (h : Supplied u a x tp mem l)
    (hl : ListOk .populate tp l) :
    wp (uteeCrypObjGetAttr e a id s) (fun r _ => Answered tp mem l id s r) u ↔
      ¬ (id ∈ ids l ∧ ∃ i ta, teeSvcCrypObjFindTypeAttrIdx id tp = some i ∧
        tp.typeAttrs[i]? = some ta ∧ ta.opsIndex = .value) := by
  have hmem : a ∈ u.objects := (hc.objMem a).mpr (by rw [h.obj]; rfl)
  have hready : ¬ ((!x.info.has teeHandleFlagInitialized) = true) := by simp [h.ready]
  have hmissing : id ∉ ids l → Answered tp mem l id s (teeErrorItemNotFound, s, []) :=
    fun hm => ⟨fun f hf hid => absurd (List.mem_map.mpr ⟨f, hf, hid⟩) hm, fun _ => rfl⟩
  rw [uteeCrypObjGetAttr, wp_bind, wp_teeObjGet hc, if_pos hmem, if_neg (not_not.mpr rfl), wp_bind,
    wp_objAt (Utc.obj_iff.mp h.obj), if_neg hready, if_neg fun hu => h.usage hu.2, h.type]
  dsimp only
  cases hi : teeSvcCrypObjFindTypeAttrIdx id tp with
  | none =>
    have hm : id ∉ ids l := by
      intro hm
      obtain ⟨f, hf, rfl⟩ := List.mem_map.mp hm
      obtain ⟨ta, hta, hid⟩ := hl.known f hf
      exact findIdx_none hi ta hta hid
    refine iff_of_true (hmissing hm) ?_
    rintro ⟨hm', -⟩
    exact hm hm'
  | some i =>
    have hbit := h.mask_iff hi
    rw [← Bits.and_bit] at hbit
    dsimp only
    by_cases hm : id ∈ ids l
    swap
    · rw [if_pos (not_not.mp fun h0 => hm (hbit.mp h0)), wp_pure]
      refine iff_of_true (hmissing hm) ?_
      rintro ⟨hm', -⟩
      exact hm hm'
    obtain ⟨ta, hg, hta⟩ := findIdx_mem hi
    rw [if_neg (hbit.mpr hm), hg]
    dsimp only
    by_cases hval : ta.opsIndex = .value
    · rw [attrToUser, hval]
      exact iff_of_false (fun h => h) fun hno => hno ⟨hm, i, ta, rfl, hg, hval⟩
    · obtain ⟨f, hf, hid⟩ := List.mem_map.mp hm
      obtain ⟨tb, htb, hidb⟩ := findIdx_get hi
      cases hg.symm.trans htb
      refine iff_of_true ?_ ?_
      · refine wp_mono (attrToUser_entry he hval (h.filled f hf i ta (hid ▸ hi) hg)) ?_
        rintro r t ⟨-, out, hsame, hr⟩
        refine ⟨fun f' hf' hid' => ⟨ta, hta, hidb, out, ?_, hr⟩, fun hm' => absurd hm hm'⟩
        rw [List.inj_on_of_nodup_map hl.once hf' hf (hid'.trans hid.symm)]
        exact hsame
      · rintro ⟨-, i', ta', hi', hg', hval'⟩
        cases hi'
        cases hg.symm.trans hg'
        exact hval hval'

/-! ## populate -/

/-- blocks that are no part of a table come and go -/
theorem Entry.erase {own : Nat} {b : Block} {v : AttrValue} {r : Nat} (h : Entry u q own ta v)
    (hb : u.heap.blocks r = some b) (ho : b.owner = none) : Entry (u.erase r) q own ta v := by
  refine h.frame fun r' c hc hown => ?_
  have hne : r' ≠ r := by
    rintro rfl
    rw [hb] at hc
    cases hc
    rw [ho] at hown
    cases hown
  rw [Utc.erase_blocks, if_neg hne]
  exact hc

theorem Entry.storeObj {own : Nat} {o o' : TeeObj} {v : AttrValue} {r : Nat}
    (h : Entry u q own ta v) (hb : u.heap.blocks r = some (.obj o)) :
    Entry (u.store r (.obj o')) q own ta v := by
  refine h.frame fun r' c hc hown => store_other hb hc ?_
  rintro rfl
  cases hown

theorem populated_initialized (x : TeeObj) (have_ size : Nat) :
    (x.populated have_ size).info.has teeHandleFlagInitialized = true := by
  show ((x.info.handleFlags ||| teeHandleFlagInitialized) &&& teeHandleFlagInitialized != 0) = true
  rw [Nat.and_or_distrib_right, bne_iff_ne]
  intro h0
  exact absurd (Nat.or_eq_zero_iff.mp h0).2 (by decide)

/-- the list that was supplied is in the object -/
theorem populateWith_supplied (hp : p.Reads) (hx : u.heap.blocks a = some (.obj x))
    (hok : ObjOk u.heap.blocks a x) (htp : teeSvcFindTypeProps x.info.objectType = some tp)
    (husage : x.info.objectUsage &&& teeUsageExtractable ≠ 0) :
    wlp (populateWith p mem a tp l) (fun r t => r = teeSuccess →
      ListOk .populate tp l ∧ ∃ x', Supplied t a x' tp mem l ∧ x'.info.objectType =
        x.info.objectType) u := by
  have hmem := List.mem_of_find?_eq_some htp
  obtain ⟨-, tp', z, htp', hb, hz⟩ := hok
  cases htp.symm.trans htp'
  rw [populateWith]
  by_cases hch : teeSvcCrypCheckAttr .populate tp l ≠ teeSuccess
  · rw [if_pos hch]
    exact fun h => absurd h hch
  have hlist : ListOk .populate tp l := by
    rcases checkAttr_rule (ids_nodup hmem) .populate l with ⟨hok, -⟩ | ⟨-, hno⟩
    · exact hok
    · exact absurd (hno ▸ not_not.mp hch) (by decide)
  rw [if_neg hch, wlp_bind, teeSvcCrypObjPopulateType, wlp_bind, wlp_objAt]
  intro o ho
  cases hx.symm.trans ho
  rw [wlp_bind]
  refine wlp_mono (wlp_and (populateAttrs_entries hp hmem hb hz hlist.once)
    populateAttrs_objs) ?_
  rintro r v ⟨hv, hobj, -⟩
  by_cases hr : r.1 ≠ teeSuccess
  · rw [if_pos hr, wlp_pure, if_pos hr]
    exact fun h => absurd h hr
  obtain ⟨hbits, hfill, -⟩ := hv (not_not.mp hr)
  have hxv : v.heap.blocks a = some (.obj x) := by
    rw [← Utc.obj_iff, hobj]
    exact Utc.obj_iff.mpr hx
  have hstores : ∀ o o' : TeeObj,
      Filled ((v.store a (.obj o)).store a (.obj o')) x.attr a tp mem l := by
    intro o o' f hf i ta hi hg
    have hao : (v.store a (.obj o)).heap.blocks a = some (.obj o) := by
      rw [Utc.store_blocks, if_pos rfl]
    exact ((hfill f hf i ta hi hg).storeObj hxv).storeObj hao
  rw [if_neg hr, wlp_bind, wlp_storeAt, wlp_pure, if_neg (not_not.mpr rfl), wlp_bind,
    setInitialized, wlp_bind, wlp_objAt]
  intro o ho
  rw [Utc.store_blocks, if_pos rfl] at ho
  cases ho
  refine fun _ => ⟨hlist, x.populated r.2.1 (countedBits x.info.objectType r.2.2),
    ⟨?_, populated_initialized _ _ _, husage, htp, fun i => ?_, hstores _ _⟩, rfl⟩
  · rw [store_obj_objs, Function.update_self]
    rfl
  · show r.2.1.testBit i = true ↔ _
    rw [hbits i, Nat.zero_testBit]
    simp

/-- A populate that succeeds is `populateWith` on a heap with one block more, the copied
attributes, which is released afterwards. -/
theorem uteeCrypObjPopulate_with {l : List UteeAttribute} {Q : Nat → Utc → Prop} (hc : Core p u)
    (hx : u.obj a = some x) (htp : teeSvcFindTypeProps x.info.objectType = some tp)
    (hfail : ∀ r t, r ≠ teeSuccess → Q r t)
    (hrun : ∀ v q, (∀ r c, u.heap.blocks r = some c → v.heap.blocks r = some c) →
      wlp (populateWith p mem a tp (copyInAttrs l)) (fun r t =>
        t.heap.blocks q = some (.attrs (copyInAttrs l)) → Q r (t.erase q)) v) :
    wlp (uteeCrypObjPopulate p mem a l) Q u := by
  have hbad : teeErrorBadParameters ≠ teeSuccess := by decide
  have hover : teeErrorOverflow ≠ teeSuccess := by decide
  have hmem : teeErrorOutOfMemory ≠ teeSuccess := by decide
  have hok := hc.objOk a x hx
  have hb := Utc.obj_iff.mp hx
  have ha : a ∈ u.objects := (hc.objMem a).mpr (by rw [hx]; rfl)
  have hper : ¬ (x.info.has teeHandleFlagPersistent = true) := by simp [hok.transient]
  apply wlp_of_wp
  rw [uteeCrypObjPopulate, wp_bind, wp_teeObjGet hc, if_pos ha, if_neg (not_not.mpr rfl), wp_bind,
    wp_objAt hb, if_neg hper]
  by_cases hini : x.info.has teeHandleFlagInitialized = true
  · rw [if_pos hini]
    exact hfail _ u hbad
  rw [if_neg hini, htp]
  dsimp only
  by_cases hov : 2 ^ 32 ≤ sizeofTeeAttribute * l.length
  · rw [if_pos hov]
    exact hfail _ u hover
  rw [if_neg hov, wp_bind, mallocAttrs]
  by_cases hl : l.length = 0
  · rw [if_pos hl, wp_pure, if_pos rfl]
    exact hfail _ u hmem
  rw [if_neg hl]
  refine alloc_cases (fun t _ _ => ?_) fun q t h0 hn _ hblocks => ?_
  · rw [if_pos rfl]
    exact hfail _ t hmem
  rw [if_neg h0, wp_bind, wp_storeAt, wp_bind]
  have hkeep : ∀ r c, u.heap.blocks r = some c →
      (t.store q (.attrs (copyInAttrs l))).heap.blocks r = some c := by
    intro r c hr
    have hne : r ≠ q := by
      rintro rfl
      rw [hn] at hr
      cases hr
    rw [Utc.store_blocks, if_neg hne, hblocks, if_neg hne]
    exact hr
  have hnew : (t.store q (.attrs (copyInAttrs l))).heap.blocks q =
      some (.attrs (copyInAttrs l)) := by
    rw [Utc.store_blocks, if_pos rfl]
  generalize t.store q (.attrs (copyInAttrs l)) = v at hkeep hnew
  have hkept : wp (populateWith p mem a tp (copyInAttrs l)) (fun _ t => Kept v t) v :=
    populateWith_kept (hkeep a _ hb) (hok.frame fun r c hr _ => hkeep r c hr) htp
  refine wp_mono (wp_and hkept (hrun v q hkeep)) ?_
  rintro r w ⟨hk, hw⟩
  obtain ⟨c, hc', hs⟩ := hk.block hnew
  cases hs
  rw [wp_bind, wp_teeFree h0 hc' (by rintro o ⟨⟩), wp_pure]
  exact hw hc'

/-- **A populate that goes through supplies its list**, and leaves the other objects. -/
theorem populate_supplied {l : List UteeAttribute} (hc : Core p u) (hp : p.Reads)
    (hx : u.obj a = some x) (htp : teeSvcFindTypeProps x.info.objectType = some tp)
    (husage : x.info.objectUsage &&& teeUsageExtractable ≠ 0) :
    wp (uteeCrypObjPopulate p mem a l) (fun r t => Core p t ∧ (∀ b, b ≠ a → t.obj b = u.obj b) ∧
      (r = teeSuccess → ListOk .populate tp (copyInAttrs l) ∧
        ∃ x', Supplied t a x' tp mem (copyInAttrs l) ∧
          x'.info.objectType = x.info.objectType)) u := by
  have hok := hc.objOk a x hx
  have hsup : wlp (uteeCrypObjPopulate p mem a l) (fun r t => r = teeSuccess →
      ListOk .populate tp (copyInAttrs l) ∧ ∃ x', Supplied t a x' tp mem (copyInAttrs l) ∧
        x'.info.objectType = x.info.objectType) u := by
    refine uteeCrypObjPopulate_with hc hx htp (fun r t hr h => absurd h hr) fun v q hkeep => ?_
    refine wlp_mono (populateWith_supplied hp (hkeep a _ (Utc.obj_iff.mp hx))
      (hok.frame fun r c hr _ => hkeep r c hr) htp husage) ?_
    intro r t ht hq hr
    obtain ⟨hlist, x', hs, hty⟩ := ht hr
    refine ⟨hlist, x', ⟨?_, hs.ready, hs.usage, hs.type, hs.mask, ?_⟩, hty⟩
    · rw [erase_objs hq id]
      exact hs.obj
    · exact fun f hf i ta hi hg => (hs.filled f hf i ta hi hg).erase hq rfl
  refine wp_mono (wp_and (wp_and (uteeCrypObjPopulate_kept hc)
    (wlp_of_wp (uteeCrypObjPopulate_objs hc))) hsup) ?_
  rintro r t ⟨⟨hk, hends⟩, hs⟩
  refine ⟨hc.kept hk, fun b hb => ?_, hs⟩
  rcases hends with ⟨x', tp', e, h, -, -, hobj⟩ | ⟨-, hobj | ⟨x', h, -, -, hobj⟩⟩
  · rw [hobj, Function.update_of_ne hb]
  · rw [hobj]
  · rw [hobj, Function.update_of_ne hb]

/-! ## copy -/

theorem copyFrom_entries (h0 : u.heap.blocks 0 = none) (hx : u.heap.blocks d = some (.obj x))
    (hxok : ObjOk u.heap.blocks d x) (hy : u.heap.blocks s = some (.obj y))
    (hyok : ObjOk u.heap.blocks s y) (hty : x.info.objectType = y.info.objectType)
    (hsd : s ≠ d) (htp : teeSvcFindTypeProps x.info.objectType = some tp) :
    wlp (teeObjAttrCopyFrom d s) (fun r t => r = teeSuccess →
      ∀ ta ∈ tp.typeAttrs, ∀ v, Entry u y.attr s ta v → Entry t x.attr d ta v) u := by
  have hmem := List.mem_of_find?_eq_some htp
  have hdata : x.info.objectType ≠ teeTypeData := by
    intro e
    rw [e] at htp
    cases htp
  obtain ⟨-, tp', z, htp', hb, hz⟩ := hxok
  cases htp.symm.trans htp'
  obtain ⟨-, tp', z', htp', hb', hz'⟩ := hyok
  rw [← hty] at htp'
  cases htp.symm.trans htp'
  rw [teeObjAttrCopyFrom, wlp_bind, wlp_objAt]
  intro o ho
  cases hx.symm.trans ho
  rw [wlp_bind, wlp_objAt]
  intro o ho
  cases hy.symm.trans ho
  rw [if_neg hdata, if_neg (ne_zero_of_null h0 hb), htp]
  show wlp (if x.info.objectType = y.info.objectType then _ else _) _ u
  rw [if_pos hty, wlp_bind]
  refine wlp_mono (wlp_and (copyAttrs_entries hb hz hb' hz' hsd (fun _ h => h) (raw_nodup hmem))
    (copyAttrs_objs fun ta t => attrFromObj_objs)) ?_
  rintro r t ⟨ht, hobj⟩
  by_cases hr : r ≠ teeSuccess
  · rw [if_pos hr]
    exact fun h => absurd h hr
  have hxt : t.heap.blocks d = some (.obj x) := by
    rw [← Utc.obj_iff, hobj]
    exact Utc.obj_iff.mpr hx
  rw [if_neg hr, wlp_bind, wlp_storeAt, wlp_pure]
  exact fun _ ta hta v hv => ((ht (not_not.mp hr)).1 ta hta v hv).storeObj hxt

/-- the objects that a chain can go through -/
def Unset (u : Utc) (objectType : Nat) (b : Nat) : Prop :=
  ∃ x, u.obj b = some x ∧ x.info.objectType = objectType ∧
    x.info.has teeHandleFlagInitialized = false

/-- **A copy into an unset object of the same type goes through, and the list is there too.** -/
theorem copy_supplied (hc : Core p u) (h : Supplied u s y tp mem l)
    (hd : Unset u y.info.objectType d) :
    wp (uteeCrypObjCopy d s) (fun r t => r = teeSuccess ∧ Core p t ∧
      (∀ b, b ≠ d → t.obj b = u.obj b) ∧ ∃ x', Supplied t d x' tp mem l ∧
        x'.info.objectType = y.info.objectType) u := by
  obtain ⟨x, hx, hty, hfresh⟩ := hd
  have hcopies : Copies u d s x y := ⟨hx, h.obj, h.ready, hfresh, hty⟩
  have hsd : s ≠ d := by
    rintro rfl
    cases hx.symm.trans h.obj
    rw [h.ready] at hfresh
    cases hfresh
  have hb := Utc.obj_iff.mp hx
  have hby := Utc.obj_iff.mp h.obj
  have hxok := hc.objOk d x hx
  have hyok := hc.objOk s y h.obj
  have hdm : d ∈ u.objects := (hc.objMem d).mpr (by rw [hx]; rfl)
  have hsm : s ∈ u.objects := (hc.objMem s).mpr (by rw [h.obj]; rfl)
  have hper : ¬ (x.info.has teeHandleFlagPersistent = true) := by simp [hxok.transient]
  have hentries : wp (uteeCrypObjCopy d s) (fun r t =>
      ∀ ta ∈ tp.typeAttrs, ∀ v, Entry u y.attr s ta v → Entry t x.attr d ta v) u := by
    rw [uteeCrypObjCopy, wp_bind, wp_teeObjGet hc, if_pos hdm, if_neg (not_not.mpr rfl), wp_bind,
      wp_teeObjGet hc, if_pos hsm, if_neg (not_not.mpr rfl), wp_bind, wp_objAt hb, wp_bind,
      wp_objAt hby, if_neg (by simp [h.ready]), if_neg hper, if_neg (by simp [hfresh]), wp_bind]
    refine wp_mono (wp_and (teeObjAttrCopyFrom_objs hc.null hb hxok hby hyok)
      (copyFrom_entries hc.null hb hxok hby hyok hty hsd (hty ▸ h.type))) ?_
    rintro r t ⟨⟨-, ⟨-, rfl, hobj⟩ | ⟨hne, -, -⟩⟩, ht⟩
    swap
    · exact absurd hty hne
    have hxt : t.heap.blocks d = some (.obj { x with haveAttrs := y.haveAttrs }) := by
      rw [← Utc.obj_iff, hobj, Function.update_self]
    have hyt : t.heap.blocks s = some (.obj y) := by
      rw [← Utc.obj_iff, hobj, Function.update_of_ne hsd]
      exact h.obj
    rw [if_neg (not_not.mpr rfl), wp_bind, wp_objAt hxt, wp_bind, wp_objAt hyt, wp_bind,
      wp_storeAt, wp_pure]
    exact fun ta hta v hv => (ht rfl ta hta v hv).storeObj hxt
  refine wp_mono (wp_and (wp_and (uteeCrypObjCopy_kept hc)
    (wlp_of_wp (uteeCrypObjCopy_objs hc))) (wlp_of_wp hentries)) ?_
  rintro r t ⟨⟨hk, hobjs⟩, hent⟩
  obtain ⟨x', y', hc', rfl, hobj⟩ | ⟨hno, -, -⟩ := hobjs
  swap
  · exact absurd hcopies (hno x y)
  cases hx.symm.trans hc'.dst
  cases h.obj.symm.trans hc'.src
  refine ⟨rfl, hc.kept hk, fun b hb => by rw [hobj, Function.update_of_ne hb], x.copied y,
    ⟨?_, copied_initialized x y, h.usage, ?_, h.mask, ?_⟩, hty⟩
  · rw [hobj, Function.update_self]
  · exact hty ▸ h.type
  · intro f hf i ta hi hg
    exact hent ta (List.mem_of_getElem? hg) _ (h.filled f hf i ta hi hg)

/-- the list is at the end of every chain -/
theorem copyChain_supplied {bs : List Nat} (hc : Core p u) (h : Supplied u a x tp mem l)
    (hbs : ∀ b ∈ bs, Unset u x.info.objectType b) (hnd : bs.Nodup) :
    wp (copyChain a bs) (fun r t => r.1 = teeSuccess ∧ Core p t ∧
      ∃ x', Supplied t r.2 x' tp mem l) u := by
  induction bs generalizing u a x with
  | nil => exact ⟨rfl, hc, x, h⟩
  | cons b bs ih =>
    obtain ⟨hnot, hnd⟩ := List.nodup_cons.mp hnd
    rw [copyChain, wp_bind]
    refine wp_mono (copy_supplied hc h (hbs b List.mem_cons_self)) ?_
    rintro r t ⟨rfl, hct, hsame, x', hs, hty⟩
    rw [if_neg (not_not.mpr rfl)]
    refine ih hct hs (fun c hc' => ?_) hnd
    have hcb : c ≠ b := fun e => hnot (e ▸ hc')
    obtain ⟨z, hz, hzty, hzf⟩ := hbs c (List.mem_cons_of_mem b hc')
    exact ⟨z, (hsame c hcb).trans hz, hzty.trans hty.symm, hzf⟩

/-- the only attribute that is a value is the curve of a key pair, and it is required -/
theorem value_iff (htp : teeSvcFindTypeProps x.info.objectType = some tp)
    (hl : ListOk .populate tp l) :
    (id ∈ ids l ∧ ∃ i ta, teeSvcCrypObjFindTypeAttrIdx id tp = some i ∧
      tp.typeAttrs[i]? = some ta ∧ ta.opsIndex = .value) ↔
      isEccKeypair x.info.objectType = true ∧ id = teeAttrEccCurve := by
  have hvalue : ∀ ta ∈ teeCrypObjEccKeypairAttrs, ta.opsIndex = .value →
      ta.attrId = teeAttrEccCurve := by decide
  have hnone : ∀ ta ∈ teeCrypObjSecretValueAttrs, ta.opsIndex ≠ .value := by decide
  constructor
  · rintro ⟨-, i, ta, hi, hg, hval⟩
    obtain ⟨tb, htb, hid⟩ := findIdx_get hi
    cases hg.symm.trans htb
    have hta := List.mem_of_getElem? hg
    obtain ⟨hty, ⟨hecc, hattrs⟩ | ⟨-, hattrs⟩⟩ := props_cases htp
    · rw [hattrs] at hta
      exact ⟨hty ▸ hecc, hid.symm.trans (hvalue ta hta hval)⟩
    · rw [hattrs] at hta
      exact absurd hval (hnone ta hta)
  · rintro ⟨hecc, rfl⟩
    obtain ⟨hty, ⟨-, hattrs⟩ | ⟨hsec, -⟩⟩ := props_cases htp
    · have hidx : teeSvcCrypObjFindTypeAttrIdx teeAttrEccCurve tp = some 3 := by
        rw [teeSvcCrypObjFindTypeAttrIdx, hattrs]
        rfl
      have hget : tp.typeAttrs[3]? = some ⟨teeAttrEccCurve, teeTypeAttrRequired, .value, .curve⟩ := by
        rw [hattrs]
        rfl
      have hreq : teeTypeAttrRequired &&& AttrUsage.populate.requiredFlag ≠ 0 := by decide
      exact ⟨hl.required _ ⟨List.mem_of_getElem? hget, hreq⟩, 3, _, hidx, hget, rfl⟩
    · rw [hty, hecc] at hsec
      cases hsec

end

/-- **The attributes that are read back.**  A list that populate accepts is found, whole, in the
last object of every chain of copies, except that asking for the value of a key pair, its curve,
faults. -/
theorem getAttr_iff {p : Provider} {e : BignumWriter} {u t : Utc} {a id s : Nat} {x : TeeObj}
    {tp : TypeProps} {mem : Nat → UInt8} {l : List UteeAttribute} {bs : List Nat}
    (hc : Core p u) (hp : p.Reads) (he : e.Writes) (hx : u.obj a = some x)
    (htp : teeSvcFindTypeProps x.info.objectType = some tp)
    (husage : x.info.objectUsage &&& teeUsageExtractable ≠ 0)
    (hpop : uteeCrypObjPopulate p mem a l u = .ok (teeSuccess, t))
    (hbs : ∀ b ∈ bs, Unset u x.info.objectType b) (hnd : (a :: bs).Nodup) :
    wp (copyChain a bs >>= fun r => uteeCrypObjGetAttr e r.2 id s >>= fun g => pure (r.1, g))
      (fun r _ => r.1 = teeSuccess ∧ Answered tp mem (copyInAttrs l) id s r.2) t ↔
      ¬ (isEccKeypair x.info.objectType = true ∧ id = teeAttrEccCurve) := by
  obtain ⟨hct, hsame, hsup⟩ := (wp_of_eq hpop).mp (populate_supplied hc hp hx htp husage)
  obtain ⟨hlist, x', hs, hty⟩ := hsup rfl
  obtain ⟨hnot, hnd⟩ := List.nodup_cons.mp hnd
  have hunset : ∀ b ∈ bs, Unset t x'.info.objectType b := by
    intro b hb
    obtain ⟨z, hz, hzty, hzf⟩ := hbs b hb
    have hba : b ≠ a := fun h => hnot (h ▸ hb)
    exact ⟨z, (hsame b hba).trans hz, hzty.trans hty.symm, hzf⟩
  obtain ⟨r, v, hchain, hr, hcv, y, hy⟩ := wp_iff.mp (copyChain_supplied hct hs hunset hnd)
  rw [wp_bind, wp_of_eq hchain, wp_bind, ← value_iff htp hlist, ← getAttr_answered hcv he hy hlist]
  constructor
  · exact fun h => wp_mono h fun _ _ h => h.2
  · exact fun h => wp_mono h fun _ _ h => ⟨hr, h⟩

/-! ## samples -/

/-- big endian digits, without leading zeros -/
def digitsWriter : BignumWriter where
  numBytes v := ((Nat.digits 256 v).map UInt8.ofNat).reverse.length
  bn2bin v := ((Nat.digits 256 v).map UInt8.ofNat).reverse

theorem digitsWriter_writes : digitsWriter.Writes :=
  ⟨fun v => Fields.number_bigEndian v, fun v => rfl⟩

theorem bigEndianProvider_reads : bigEndianProvider.Reads := fun _ _ _ => rfl

/-- a key pair: three numbers of one byte, and the curve -/
def sampleKeypair : List UteeAttribute :=
  [⟨0, 1, teeAttrEccPrivateValue⟩, ⟨1, 1, teeAttrEccPublicValueX⟩,
    ⟨2, 1, teeAttrEccPublicValueY⟩, ⟨3, 0, teeAttrEccCurve⟩]

/-- the memory of the TA -/
def sampleMem (i : Nat) : UInt8 := UInt8.ofNat (i + 7)

def populatedState : Utc :=
  match uteeCrypObjPopulate bigEndianProvider sampleMem 0x1000 sampleKeypair keypairState with
  | .ok (_, u) => u
  | .error _ => keypairState

theorem populatedState_eq :
    uteeCrypObjPopulate bigEndianProvider sampleMem 0x1000 sampleKeypair keypairState =
      .ok (teeSuccess, populatedState) := by rfl

/-- **The curve of a key pair cannot be read back.** -/
theorem getAttr_fails :
    uteeCrypObjGetAttr digitsWriter 0x1000 teeAttrEccCurve 8 populatedState =
      .error .nullPointer ∧
    ¬ ∀ (p : Provider) (e : BignumWriter) (u t : Utc) (a id s : Nat) (x : TeeObj) (tp : TypeProps)
      (mem : Nat → UInt8) (l : List UteeAttribute) (bs : List Nat), Core p u → p.Reads →
      e.Writes → u.obj a = some x → teeSvcFindTypeProps x.info.objectType = some tp →
      x.info.objectUsage &&& teeUsageExtractable ≠ 0 →
      uteeCrypObjPopulate p mem a l u = .ok (teeSuccess, t) →
      (∀ b ∈ bs, Unset u x.info.objectType b) → (a :: bs).Nodup →
      wp (copyChain a bs >>= fun r => uteeCrypObjGetAttr e r.2 id s >>= fun g => pure (r.1, g))
        (fun r _ => r.1 = teeSuccess ∧ Answered tp mem (copyInAttrs l) id s r.2) t := by
  have hnull : uteeCrypObjGetAttr digitsWriter 0x1000 teeAttrEccCurve 8 populatedState =
      .error .nullPointer := by rfl
  refine ⟨hnull, fun h => ?_⟩
  have hwp := h bigEndianProvider digitsWriter keypairState populatedState 0x1000 teeAttrEccCurve 8
    keypairObj eccKeypairProp sampleMem sampleKeypair [] (keypairState_core bigEndianProvider)
    bigEndianProvider_reads digitsWriter_writes keypairState_obj rfl (by decide)
    populatedState_eq (by simp) (List.nodup_singleton _)
  rw [wp_bind, copyChain, wp_pure, wp_bind] at hwp
  obtain ⟨r, t, he, -⟩ := wp_iff.mp hwp
  rw [hnull] at he
  cases he

/-- the private value is read back from a copy -/
theorem getAttr_iff_private : ∃ t,
    uteeCrypObjPopulate bigEndianProvider sampleMem 0x1000 sampleKeypair
      keypairState.withKeypair = .ok (teeSuccess, t) ∧
    wp (copyChain 0x1000 [0x1005] >>= fun r =>
        uteeCrypObjGetAttr digitsWriter r.2 teeAttrEccPrivateValue 8 >>= fun g => pure (r.1, g))
      (fun r _ => r.1 = teeSuccess ∧ Answered eccKeypairProp sampleMem
        (copyInAttrs sampleKeypair) teeAttrEccPrivateValue 8 r.2) t := by
  have hc := withKeypair_core (keypairState_core bigEndianProvider)
  have hx : keypairState.withKeypair.obj 0x1000 = some keypairObj := by decide
  have hunset : ∀ b ∈ [0x1005],
      Unset keypairState.withKeypair keypairObj.info.objectType b := by
    intro b hb
    obtain rfl := List.mem_singleton.mp hb
    exact ⟨{ keypairObj with attr := 0x1006 }, by decide, rfl, rfl⟩
  have hne : teeAttrEccPrivateValue ≠ teeAttrEccCurve := by decide
  obtain ⟨t, hpop⟩ : ∃ t, uteeCrypObjPopulate bigEndianProvider sampleMem 0x1000 sampleKeypair
      keypairState.withKeypair = .ok (teeSuccess, t) := ⟨_, rfl⟩
  exact ⟨t, hpop, (getAttr_iff hc bigEndianProvider_reads digitsWriter_writes hx rfl (by decide)
    hpop hunset (by decide)).mpr fun h => hne h.2⟩

end MTower.Cryp
