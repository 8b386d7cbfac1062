import MTower.Lib.Bits
import MTower.Cryp.Objects

/-!
# The check of an attribute list

`tee_svc_cryp_check_attr` compares three masks over the positions of a table of attributes.  Here
the masks are read back as sets of attributes.

* `ListOk`           the rule for the lists of a table;
* `checkAttr_exact`  the check accepts the lists that follow the rule, whatever their order.
-/

namespace MTower.Cryp
open Lib Kernel

def AttrUsage.requiredFlag : AttrUsage → Nat
  | .populate => teeTypeAttrRequired
  | .generateKey => teeTypeAttrGenKeyReq

def AttrUsage.optFlag : AttrUsage → Nat
  | .populate => teeTypeAttrOptionalGroup
  | .generateKey => teeTypeAttrGenKeyOpt

def ids (attrs : List TeeAttribute) : List Nat := attrs.map TeeAttribute.attributeID

def TypeProps.Required (tp : TypeProps) (usage : AttrUsage) (ta : TypeAttr) : Prop :=
  ta ∈ tp.typeAttrs ∧ ta.flags &&& usage.requiredFlag ≠ 0

/-- the attributes of the optional group that are not required anyway -/
def TypeProps.Optional (tp : TypeProps) (usage : AttrUsage) (ta : TypeAttr) : Prop :=
  ta ∈ tp.typeAttrs ∧ ta.flags &&& usage.requiredFlag = 0 ∧ ta.flags &&& usage.optFlag ≠ 0

/-- the lists that the table `tp` admits -/
structure ListOk (usage : AttrUsage) (tp : TypeProps) (attrs : List TeeAttribute) : Prop where
  known : ∀ t ∈ attrs, ∃ ta ∈ tp.typeAttrs, ta.attrId = t.attributeID
  once : (ids attrs).Nodup
  required : ∀ ta, tp.Required usage ta → ta.attrId ∈ ids attrs
  group : usage = .populate →
    (∀ ta, tp.Optional usage ta → ta.attrId ∈ ids attrs) ∨
      ∀ ta, tp.Optional usage ta → ta.attrId ∉ ids attrs

theorem ListOk.perm {usage : AttrUsage} {tp : TypeProps} {l l' : List TeeAttribute}
    (h : ListOk usage tp l) (hp : l.Perm l') : ListOk usage tp l' := by
  have hids : (ids l).Perm (ids l') := hp.map _
  constructor
  · exact fun t ht => h.known t (hp.mem_iff.mpr ht)
  · exact hids.nodup_iff.mp h.once
  · exact fun ta hta => hids.mem_iff.mp (h.required ta hta)
  · intro hu
    rcases h.group hu with hall | hnone
    · exact Or.inl fun ta hta => hids.mem_iff.mp (hall ta hta)
    · exact Or.inr fun ta hta hm => hnone ta hta (hids.mem_iff.mpr hm)

section
variable {tp : TypeProps}

/-! ## the positions of the table -/

theorem findIdx_get {id i : Nat} (h : teeSvcCrypObjFindTypeAttrIdx id tp = some i) :
    ∃ ta, tp.typeAttrs[i]? = some ta ∧ ta.attrId = id := by
  obtain ⟨hi, hta, -⟩ := List.findIdx?_eq_some_iff_getElem.mp h
  exact ⟨_, List.getElem?_eq_getElem hi, beq_iff_eq.mp hta⟩

theorem findIdx_none {id : Nat} (h : teeSvcCrypObjFindTypeAttrIdx id tp = none) :
    ∀ ta ∈ tp.typeAttrs, ta.attrId ≠ id := by
  intro ta hta he
  have hne := List.findIdx?_eq_none_iff.mp h ta hta
  rw [he, beq_self_eq_true] at hne
  cases hne

theorem findIdx_inj {id id' i : Nat} (h : teeSvcCrypObjFindTypeAttrIdx id tp = some i)
    (h' : teeSvcCrypObjFindTypeAttrIdx id' tp = some i) : id = id' := by
  obtain ⟨ta, hg, rfl⟩ := findIdx_get h
  obtain ⟨ta', hg', rfl⟩ := findIdx_get h'
  rw [Option.some.inj (hg.symm.trans hg')]

/-- with distinct identifiers an attribute is found where it stands -/
theorem findIdx_at (hids : (tp.typeAttrs.map TypeAttr.attrId).Nodup) {i : Nat} {ta : TypeAttr}
    (h : tp.typeAttrs[i]? = some ta) : teeSvcCrypObjFindTypeAttrIdx ta.attrId tp = some i := by
  cases hf : teeSvcCrypObjFindTypeAttrIdx ta.attrId tp with
  | none => exact absurd rfl (findIdx_none hf ta (List.mem_of_getElem? h))
  | some j =>
    obtain ⟨tb, hg, hid⟩ := findIdx_get hf
    obtain ⟨hi, rfl⟩ := List.getElem?_eq_some_iff.mp h
    obtain ⟨hj, rfl⟩ := List.getElem?_eq_some_iff.mp hg
    have hij : j = i := by
      apply (List.getElem?_inj (by rwa [List.length_map]) hids).mp
      rw [List.getElem?_map, List.getElem?_map, hg, h]
      exact congrArg some hid
    rw [hij]

/-! ## the masks -/

theorem attrMasks_marks (flag other : Nat) (l : List TypeAttr) (n : Nat) :
    Bits.Marks (fun ta => ta.flags &&& flag ≠ 0) l n (attrMasks flag other l n).1 ∧
    Bits.Marks (fun ta => ta.flags &&& flag = 0 ∧ ta.flags &&& other ≠ 0) l n
      (attrMasks flag other l n).2 := by
  induction l generalizing n with
  | nil => exact ⟨Bits.Marks.nil, Bits.Marks.nil⟩
  | cons ta l ih =>
    obtain ⟨h1, h2⟩ := ih (n + 1)
    rw [attrMasks]
    by_cases hf : ta.flags &&& flag ≠ 0
    · rw [if_pos hf]
      exact ⟨h1.cons_pos hf, h2.cons_neg fun h => hf h.1⟩
    · rw [if_neg hf]
      by_cases ho : ta.flags &&& other ≠ 0
      · rw [if_pos ho]
        exact ⟨h1.cons_neg hf, h2.cons_pos ⟨not_not.mp hf, ho⟩⟩
      · rw [if_neg ho]
        exact ⟨h1.cons_neg hf, h2.cons_neg fun h => ho h.2⟩

/-- what the second loop asks of a list when the positions of `found` are taken -/
structure Fresh (tp : TypeProps) (found : Nat) (l : List TeeAttribute) : Prop where
  known : ∀ t ∈ l, ∃ i, teeSvcCrypObjFindTypeAttrIdx t.attributeID tp = some i
  once : (ids l).Nodup
  free : ∀ t ∈ l, ∀ i, teeSvcCrypObjFindTypeAttrIdx t.attributeID tp = some i →
    ¬ found.testBit i = true

theorem fresh_cons {found i : Nat} {t : TeeAttribute} {l : List TeeAttribute}
    (hi : teeSvcCrypObjFindTypeAttrIdx t.attributeID tp = some i) :
    Fresh tp found (t :: l) ↔ ¬ found.testBit i = true ∧ Fresh tp (found ||| 1 <<< i) l := by
  constructor
  · intro h
    obtain ⟨hnot, hnd⟩ := List.nodup_cons.mp h.once
    refine ⟨h.free t List.mem_cons_self i hi, ?_, hnd, ?_⟩
    · exact fun t' ht' => h.known t' (List.mem_cons_of_mem t ht')
    · intro t' ht' j hj hb
      rcases (Bits.testBit_insert found i j).mp hb with hb | rfl
      · exact h.free t' (List.mem_cons_of_mem t ht') j hj hb
      · exact hnot (List.mem_map.mpr ⟨t', ht', findIdx_inj hj hi⟩)
  · rintro ⟨hfree, h⟩
    constructor
    · intro t' ht'
      rcases List.mem_cons.mp ht' with rfl | ht'
      · exact ⟨i, hi⟩
      · exact h.known t' ht'
    · refine List.nodup_cons.mpr ⟨fun hm => ?_, h.once⟩
      obtain ⟨t', ht', he⟩ := List.mem_map.mp hm
      rw [← he] at hi
      exact h.free t' ht' i hi ((Bits.testBit_insert found i i).mpr (Or.inr rfl))
    · intro t' ht' j hj hb
      rcases List.mem_cons.mp ht' with rfl | ht'
      · rw [hi] at hj
        exact hfree (Option.some.inj hj ▸ hb)
      · exact h.free t' ht' j hj ((Bits.testBit_insert found i j).mpr (Or.inl hb))

/-- the second loop goes through on the fresh lists and adds their positions -/
theorem attrsFound_spec (tp : TypeProps) (l : List TeeAttribute) (found : Nat) :
    match attrsFound tp l found with
    | none => ¬ Fresh tp found l
    | some f => Fresh tp found l ∧ ∀ i, f.testBit i = true ↔ found.testBit i = true ∨
        ∃ t ∈ l, teeSvcCrypObjFindTypeAttrIdx t.attributeID tp = some i := by
  induction l generalizing found with
  | nil =>
    refine ⟨⟨fun t ht => absurd ht List.not_mem_nil, List.nodup_nil,
      fun t ht => absurd ht List.not_mem_nil⟩, fun i => ?_⟩
    simp
  | cons t l ih =>
    rw [attrsFound]
    cases hi : teeSvcCrypObjFindTypeAttrIdx t.attributeID tp with
    | none =>
      intro h
      obtain ⟨i, hs⟩ := h.known t List.mem_cons_self
      rw [hi] at hs
      cases hs
    | some i =>
      dsimp only
      by_cases hb : found &&& 1 <<< i ≠ 0
      · rw [if_pos hb]
        exact fun h => ((fresh_cons hi).mp h).1 (Bits.and_bit.mp hb)
      · rw [if_neg hb]
        have hfree : ¬ found.testBit i = true := fun h => hb (Bits.and_bit.mpr h)
        have hl := ih (found ||| 1 <<< i)
        cases hf : attrsFound tp l (found ||| 1 <<< i) with
        | none =>
          rw [hf] at hl
          exact fun h => hl ((fresh_cons hi).mp h).2
        | some f =>
          rw [hf] at hl
          refine ⟨(fresh_cons hi).mpr ⟨hfree, hl.1⟩, fun j => ?_⟩
          rw [hl.2 j, Bits.testBit_insert, or_assoc, List.exists_mem_cons_iff, hi,
            Option.some_inj, eq_comm (a := j)]

theorem fresh_zero {l : List TeeAttribute} :
    Fresh tp 0 l ↔ (∀ t ∈ l, ∃ ta ∈ tp.typeAttrs, ta.attrId = t.attributeID) ∧ (ids l).Nodup := by
  constructor
  · intro h
    refine ⟨fun t ht => ?_, h.once⟩
    obtain ⟨i, hi⟩ := h.known t ht
    obtain ⟨ta, hg, hid⟩ := findIdx_get hi
    exact ⟨ta, List.mem_of_getElem? hg, hid⟩
  · rintro ⟨hk, hn⟩
    refine ⟨fun t ht => ?_, hn, fun t ht i hi hb => ?_⟩
    · obtain ⟨ta, hta, hid⟩ := hk t ht
      cases hf : teeSvcCrypObjFindTypeAttrIdx t.attributeID tp with
      | none => exact absurd hid (findIdx_none hf ta hta)
      | some i => exact ⟨i, rfl⟩
    · rw [Nat.zero_testBit] at hb
      cases hb

/-- the bit of an attribute is set when the list has the attribute -/
theorem found_iff (hids : (tp.typeAttrs.map TypeAttr.attrId).Nodup) {l : List TeeAttribute}
    {f k : Nat} {ta : TypeAttr} (hk : tp.typeAttrs[k]? = some ta)
    (hf : ∀ i, f.testBit i = true ↔ (0 : Nat).testBit i = true ∨
      ∃ t ∈ l, teeSvcCrypObjFindTypeAttrIdx t.attributeID tp = some i) :
    f.testBit k = true ↔ ta.attrId ∈ ids l := by
  rw [hf k, Nat.zero_testBit]
  constructor
  · rintro (h | ⟨t, ht, hi⟩)
    · cases h
    · obtain ⟨tb, hg, hid⟩ := findIdx_get hi
      have hab : ta = tb := Option.some.inj (hk.symm.trans hg)
      exact List.mem_map.mpr ⟨t, ht, by rw [hab, hid]⟩
  · intro h
    obtain ⟨t, ht, hid⟩ := List.mem_map.mp h
    exact Or.inr ⟨t, ht, by rw [hid]; exact findIdx_at hids hk⟩

/-- a mask of attributes is contained in what was found, or disjoint from it -/
theorem masked_iff (hids : (tp.typeAttrs.map TypeAttr.attrId).Nodup) {l : List TeeAttribute}
    {f m : Nat} {Q : TypeAttr → Prop} (hm : Bits.Marks Q tp.typeAttrs 0 m)
    (hf : ∀ i, f.testBit i = true ↔ (0 : Nat).testBit i = true ∨
      ∃ t ∈ l, teeSvcCrypObjFindTypeAttrIdx t.attributeID tp = some i) :
    (f &&& m = m ↔ ∀ ta, ta ∈ tp.typeAttrs ∧ Q ta → ta.attrId ∈ ids l) ∧
    (f &&& m = 0 ↔ ∀ ta, ta ∈ tp.typeAttrs ∧ Q ta → ta.attrId ∉ ids l) := by
  rw [hm.mask_iff, hm.zero_iff]
  constructor
  · constructor
    · rintro h ta ⟨hta, hq⟩
      obtain ⟨k, hk⟩ := List.mem_iff_getElem?.mp hta
      exact (found_iff hids hk hf).mp (h k ta hk hq)
    · intro h k ta hk hq
      exact (found_iff hids hk hf).mpr (h ta ⟨List.mem_of_getElem? hk, hq⟩)
  · constructor
    · rintro h ta ⟨hta, hq⟩
      obtain ⟨k, hk⟩ := List.mem_iff_getElem?.mp hta
      exact fun hm => h k ta hk hq ((found_iff hids hk hf).mpr hm)
    · intro h k ta hk hq hb
      exact h ta ⟨List.mem_of_getElem? hk, hq⟩ ((found_iff hids hk hf).mp hb)

/-- the masks of `usage` -/
def usageMasks (usage : AttrUsage) (tp : TypeProps) : Nat × Nat :=
  attrMasks usage.requiredFlag usage.optFlag tp.typeAttrs 0

theorem checkAttr_eq (usage : AttrUsage) (tp : TypeProps) (attrs : List TeeAttribute) :
    teeSvcCrypCheckAttr usage tp attrs = match attrsFound tp attrs 0 with
      | none => teeErrorItemNotFound
      | some found =>
        if found &&& (usageMasks usage tp).1 ≠ (usageMasks usage tp).1 then teeErrorItemNotFound
        else if usage = .populate ∧ found &&& (usageMasks usage tp).2 ≠ 0 ∧
            found &&& (usageMasks usage tp).2 ≠ (usageMasks usage tp).2 then teeErrorItemNotFound
        else teeSuccess := by
  cases usage <;> rfl

/-- the answer of the check, by the rule -/
theorem checkAttr_rule (hids : (tp.typeAttrs.map TypeAttr.attrId).Nodup) (usage : AttrUsage)
    (attrs : List TeeAttribute) :
    ListOk usage tp attrs ∧ teeSvcCrypCheckAttr usage tp attrs = teeSuccess ∨
      ¬ ListOk usage tp attrs ∧ teeSvcCrypCheckAttr usage tp attrs = teeErrorItemNotFound := by
  obtain ⟨hm1, hm2⟩ := attrMasks_marks usage.requiredFlag usage.optFlag tp.typeAttrs 0
  have hfound := attrsFound_spec tp attrs 0
  rw [checkAttr_eq]
  cases hf : attrsFound tp attrs 0 with
  | none =>
    rw [hf] at hfound
    exact Or.inr ⟨fun h => hfound (fresh_zero.mpr ⟨h.known, h.once⟩), rfl⟩
  | some f =>
    rw [hf] at hfound
    obtain ⟨hfresh, hbits⟩ := hfound
    obtain ⟨hknown, honce⟩ := fresh_zero.mp hfresh
    have hreq := (masked_iff hids hm1 hbits).1
    have hall := (masked_iff hids hm2 hbits).1
    have hnone := (masked_iff hids hm2 hbits).2
    dsimp only
    by_cases h1 : f &&& (usageMasks usage tp).1 ≠ (usageMasks usage tp).1
    · rw [if_pos h1]
      exact Or.inr ⟨fun h => h1 (hreq.mpr h.required), rfl⟩
    · rw [if_neg h1]
      by_cases h2 : usage = .populate ∧ f &&& (usageMasks usage tp).2 ≠ 0 ∧
          f &&& (usageMasks usage tp).2 ≠ (usageMasks usage tp).2
      · rw [if_pos h2]
        refine Or.inr ⟨fun h => ?_, rfl⟩
        rcases h.group h2.1 with ha | hn
        · exact h2.2.2 (hall.mpr ha)
        · exact h2.2.1 (hnone.mpr hn)
      · rw [if_neg h2]
        refine Or.inl ⟨⟨hknown, honce, hreq.mp (not_not.mp h1), fun hu => ?_⟩, rfl⟩
        by_cases h0 : f &&& (usageMasks usage tp).2 = 0
        · exact Or.inr (hnone.mp h0)
        · apply Or.inl
          apply hall.mp
          by_contra hne
          exact h2 ⟨hu, h0, hne⟩

/-- the masks of a table of at most 31 attributes are words whose sign bit is clear -/
theorem masks_lt (h31 : tp.typeAttrs.length ≤ 31) (usage : AttrUsage) :
    (usageMasks usage tp).1 < 2 ^ 31 ∧ (usageMasks usage tp).2 < 2 ^ 31 := by
  obtain ⟨hm1, hm2⟩ := attrMasks_marks usage.requiredFlag usage.optFlag tp.typeAttrs 0
  have hle : 2 ^ (0 + tp.typeAttrs.length) ≤ 2 ^ 31 :=
    Nat.pow_le_pow_right Nat.zero_lt_two (by omega)
  exact ⟨hm1.lt.trans_le hle, hm2.lt.trans_le hle⟩

theorem attrsFound_lt (h31 : tp.typeAttrs.length ≤ 31) {l : List TeeAttribute} {found f : Nat}
    (h : attrsFound tp l found = some f) (hlt : found < 2 ^ 31) : f < 2 ^ 31 := by
  induction l generalizing found with
  | nil =>
    cases h
    exact hlt
  | cons t l ih =>
    rw [attrsFound] at h
    cases hi : teeSvcCrypObjFindTypeAttrIdx t.attributeID tp with
    | none =>
      rw [hi] at h
      cases h
    | some i =>
      rw [hi] at h
      obtain ⟨ta, hg, -⟩ := findIdx_get hi
      have hlen : i < tp.typeAttrs.length := (List.getElem?_eq_some_iff.mp hg).1
      by_cases hb : found &&& 1 <<< i ≠ 0
      · dsimp only at h
        rw [if_pos hb] at h
        cases h
      · dsimp only at h
        rw [if_neg hb] at h
        exact ih h (Bits.insert_lt hlt (by omega))

/-- The check accepts exactly the lists that the table admits and answers
`TEE_ERROR_ITEM_NOT_FOUND` to the others.  The order of a list does not matter, and the three
masks stay words. -/
theorem checkAttr_exact (h31 : tp.typeAttrs.length ≤ 31)
    (hids : (tp.typeAttrs.map TypeAttr.attrId).Nodup) (usage : AttrUsage)
    (attrs : List TeeAttribute) :
    (teeSvcCrypCheckAttr usage tp attrs = teeSuccess ↔ ListOk usage tp attrs) ∧
    (¬ ListOk usage tp attrs → teeSvcCrypCheckAttr usage tp attrs = teeErrorItemNotFound) ∧
    (∀ attrs', attrs.Perm attrs' →
      teeSvcCrypCheckAttr usage tp attrs' = teeSvcCrypCheckAttr usage tp attrs) ∧
    (usageMasks usage tp).1 < 2 ^ 31 ∧ (usageMasks usage tp).2 < 2 ^ 31 ∧
    ∀ found, attrsFound tp attrs 0 = some found → found < 2 ^ 31 := by
  have hbad : teeErrorItemNotFound ≠ teeSuccess := by decide
  refine ⟨?_, ?_, ?_, (masks_lt h31 usage).1, (masks_lt h31 usage).2, ?_⟩
  · rcases checkAttr_rule hids usage attrs with ⟨hok, he⟩ | ⟨hno, he⟩
    · exact iff_of_true he hok
    · exact iff_of_false (fun h => hbad (he.symm.trans h)) hno
  · intro hno
    rcases checkAttr_rule hids usage attrs with ⟨hok, -⟩ | ⟨-, he⟩
    · exact absurd hok hno
    · exact he
  · intro attrs' hp
    rcases checkAttr_rule hids usage attrs with ⟨hok, he⟩ | ⟨hno, he⟩ <;>
      rcases checkAttr_rule hids usage attrs' with ⟨hok', he'⟩ | ⟨hno', he'⟩
    · rw [he, he']
    · exact absurd (hok.perm hp) hno'
    · exact absurd (hok'.perm hp.symm) hno
    · rw [he, he']
  · exact fun found h => attrsFound_lt h31 h (Nat.two_pow_pos 31)

def eccKeypairProp : TypeProps :=
  ⟨teeTypeEcdsaKeypair, 192, 521, sizeofEccKeypair, 1, teeCrypObjEccKeypairAttrs⟩

/-- the four attributes of an ECC key pair, last one first -/
def eccAttrs : List TeeAttribute :=
  teeCrypObjEccKeypairAttrs.reverse.map fun ta => ⟨ta.attrId, (0, 32)⟩

theorem checkAttr_exact_ecc : eccKeypairProp ∈ teeCrypObjProps ∧
    ListOk .populate eccKeypairProp eccAttrs ∧
    ¬ ListOk .populate eccKeypairProp eccAttrs.tail := by
  have hmem : eccKeypairProp ∈ teeCrypObjProps := by decide
  have h31 : eccKeypairProp.typeAttrs.length ≤ 31 := by decide
  have hids : (eccKeypairProp.typeAttrs.map TypeAttr.attrId).Nodup := by decide
  have hok : teeSvcCrypCheckAttr .populate eccKeypairProp eccAttrs = teeSuccess := by decide
  have hno : teeSvcCrypCheckAttr .populate eccKeypairProp eccAttrs.tail ≠ teeSuccess := by decide
  exact ⟨hmem, (checkAttr_exact h31 hids .populate eccAttrs).1.mp hok,
    fun h => hno ((checkAttr_exact h31 hids .populate eccAttrs.tail).1.mpr h)⟩

end
end MTower.Cryp
