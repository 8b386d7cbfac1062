import MTower.Cryp.GetAttr
import MTower.Cryp.Tidy
import MTower.Lib.Relate

/-!
# What an object that is not initialised hides

Two states are compared that differ in one object, which is not initialised: in the mask of its
attributes, in its bignums and in its curve.  No call reads these, and a call that initialises the
object writes all of them.

* `Hides`, `Veiled`         the difference, with the addresses where it may be;
* `Attr.cell`               the address that an attribute is written to;
* `rel_populateAttrs`, `rel_copyAttrs`  writing all attributes of a list removes the difference
                            from their addresses.
-/

set_option linter.unusedVariables false

namespace MTower.Cryp
open Lib Kernel

/-! ## the difference -/

/-- blocks of the object `a` that differ in what it hides; `q` is their address -/
inductive Hides (a : Nat) : Nat → Block → Block → Prop where
  | mask {x : TeeObj} {h : Nat} : Hides a a (.obj x) (.obj { x with haveAttrs := h })
  | curve {q d x y c c' : Nat} : Hides a q (.attr a (.ecc d x y c)) (.attr a (.ecc d x y c'))
  | bignum {q v w : Nat} {m : Member} : Hides a q (.bignum a m v) (.bignum a m w)

/-- the blocks at the addresses `D` differ in what the object `a` hides, all others are the same -/
structure Veiled (a : Nat) (D : Nat → Prop) (u v : Utc) : Prop extends SameLists u v where
  answers : v.heap.answers = u.heap.answers
  calls : v.heap.calls = u.heap.calls
  same : ∀ q, ¬ D q → v.heap.blocks q = u.heap.blocks q
  hidden : ∀ q, D q → ∃ b c, u.heap.blocks q = some b ∧ v.heap.blocks q = some c ∧ Hides a q b c

section
variable {p : Provider} {u v : Utc} {a b q : Nat} {D : Nat → Prop} {x y : TeeObj}

/-- the blocks of `a` are its own -/
theorem Hides.cases {c d : Block} (h : Hides a q c d) :
    (q = a ∧ ∃ x n, c = .obj x ∧ d = .obj { x with haveAttrs := n }) ∨ c.owner = some a := by
  cases h with
  | mask => exact .inl ⟨rfl, _, _, rfl, rfl⟩
  | curve => exact .inr rfl
  | bignum => exact .inr rfl

theorem Veiled.notMem (h : Veiled a D u v) {c : Block} (hc : u.heap.blocks q = some c)
    (hq : q ≠ a ∨ ∀ x, c ≠ .obj x) (ho : c.owner ≠ some a) : ¬ D q := by
  intro hD
  obtain ⟨b, d, hb, -, hh⟩ := h.hidden q hD
  cases hc.symm.trans hb
  obtain ⟨rfl, x, n, rfl, -⟩ | ho' := hh.cases
  · obtain hq | hq := hq
    · exact hq rfl
    · exact hq x rfl
  · exact ho ho'

theorem Veiled.free (h : Veiled a D u v) (hq : u.heap.blocks q = none) : ¬ D q := by
  intro hD
  obtain ⟨b, c, hb, -, -⟩ := h.hidden q hD
  cases hq.symm.trans hb

theorem Veiled.none_iff (h : Veiled a D u v) :
    v.heap.blocks q = none ↔ u.heap.blocks q = none := by
  by_cases hD : D q
  · obtain ⟨b, c, hb, hc, -⟩ := h.hidden q hD
    simp [hb, hc]
  · rw [h.same q hD]

/-- no difference is left -/
theorem Veiled.eq (h : Veiled a D u v) (hD : ∀ q, ¬ D q) : v = u := by
  have hb : v.heap.blocks = u.heap.blocks := funext fun q => h.same q (hD q)
  obtain ⟨⟨b1, a1, c1⟩, o1, s1, m1, f1⟩ := u
  obtain ⟨⟨b2, a2, c2⟩, o2, s2, m2, f2⟩ := v
  obtain ⟨⟨ho, hs, hm, hf⟩, ha, hc, -, -⟩ := h
  simp only at hb ho hs hm hf ha hc
  subst hb ho hs hm hf ha hc
  rfl

theorem Veiled.congr (h : Veiled a D u v) {D' : Nat → Prop} (hD : ∀ q, D' q ↔ D q) :
    Veiled a D' u v := by
  have e : D' = D := funext fun q => propext (hD q)
  rw [e]
  exact h

theorem Veiled.store (h : Veiled a D u v) (hq : ¬ D q) (c : Block) :
    Veiled a D (u.store q c) (v.store q c) where
  toSameLists := ⟨h.objects, h.crypStates, h.made, h.freed⟩
  answers := h.answers
  calls := h.calls
  same := by
    intro r hr
    rw [Utc.store_blocks, Utc.store_blocks, h.same r hr]
  hidden := by
    intro r hr
    have hne : r ≠ q := fun e => hq (e ▸ hr)
    rw [Utc.store_blocks, Utc.store_blocks, if_neg hne, if_neg hne]
    exact h.hidden r hr

/-- a block that is written differently -/
theorem Veiled.storeHidden (h : Veiled a D u v) (hq : D q) {c d : Block} (hcd : Hides a q c d) :
    Veiled a D (u.store q c) (v.store q d) where
  toSameLists := ⟨h.objects, h.crypStates, h.made, h.freed⟩
  answers := h.answers
  calls := h.calls
  same := by
    intro r hr
    have hne : r ≠ q := fun e => hr (e ▸ hq)
    rw [Utc.store_blocks, Utc.store_blocks, if_neg hne, if_neg hne, h.same r hr]
  hidden := by
    intro r hr
    rw [Utc.store_blocks, Utc.store_blocks]
    by_cases hrq : r = q
    · subst hrq
      exact ⟨c, d, if_pos rfl, if_pos rfl, hcd⟩
    · rw [if_neg hrq, if_neg hrq]
      exact h.hidden r hr

/-- a block that is written the same does not differ any more -/
theorem Veiled.settle (h : Veiled a D u v) (q : Nat) (c : Block) :
    Veiled a (fun r => D r ∧ r ≠ q) (u.store q c) (v.store q c) where
  toSameLists := ⟨h.objects, h.crypStates, h.made, h.freed⟩
  answers := h.answers
  calls := h.calls
  same := by
    intro r hr
    rw [Utc.store_blocks, Utc.store_blocks]
    by_cases hrq : r = q
    · rw [if_pos hrq, if_pos hrq]
    · rw [if_neg hrq, if_neg hrq, h.same r fun hD => hr ⟨hD, hrq⟩]
  hidden := by
    intro r hr
    rw [Utc.store_blocks, Utc.store_blocks, if_neg hr.2, if_neg hr.2]
    exact h.hidden r hr.1

theorem Veiled.erase (h : Veiled a D u v) (hq : ¬ D q) : Veiled a D (u.erase q) (v.erase q) where
  toSameLists := ⟨h.objects, h.crypStates, h.made, h.freed⟩
  answers := h.answers
  calls := h.calls
  same := by
    intro r hr
    rw [Utc.erase_blocks, Utc.erase_blocks, h.same r hr]
  hidden := by
    intro r hr
    have hne : r ≠ q := fun e => hq (e ▸ hr)
    rw [Utc.erase_blocks, Utc.erase_blocks, if_neg hne, if_neg hne]
    exact h.hidden r hr

/-! ## reading -/

theorem rel_blockAt {R : Block → Block → Utc → Utc → Prop}
    (hq : v.heap.blocks q = u.heap.blocks q)
    (hR : ∀ c, u.heap.blocks q = some c → R c c u v) : rel (blockAt q) (blockAt q) R u v := by
  unfold blockAt
  apply rel_bind
  rw [rel_get, hq]
  cases hu : u.heap.blocks q with
  | none => exact rel_throw.mpr rfl
  | some c => exact rel_pure.mpr (hR c hu)

theorem rel_blockAt_of {R : Block → Block → Utc → Utc → Prop} {c d : Block}
    (hc : u.heap.blocks q = some c) (hd : v.heap.blocks q = some d) (hR : R c d u v) :
    rel (blockAt q) (blockAt q) R u v := by
  unfold blockAt
  apply rel_bind
  rw [rel_get, hc, hd]
  exact rel_pure.mpr hR

theorem rel_objAt {R : TeeObj → TeeObj → Utc → Utc → Prop} (h : Veiled a D u v)
    (hR : ∀ x y, u.heap.blocks q = some (.obj x) → v.heap.blocks q = some (.obj y) →
      (q ≠ a → y = x) → y = { x with haveAttrs := y.haveAttrs } → R x y u v) :
    rel (objAt q) (objAt q) R u v := by
  have hf : rel (throw .danglingPointer : C TeeObj) (throw .danglingPointer : C TeeObj) R u v :=
    rel_throw.mpr rfl
  unfold objAt
  apply rel_bind
  by_cases hq : D q
  · obtain ⟨c, d, hc, hd, hcd⟩ := h.hidden q hq
    apply rel_blockAt_of hc hd
    cases hcd with
    | mask => exact hR _ _ hc hd (fun e => absurd rfl e) rfl
    | curve => exact hf
    | bignum => exact hf
  · have hs := h.same q hq
    apply rel_blockAt hs
    intro c hc
    cases c with
    | obj x => exact hR x x hc (hs.trans hc) (fun _ => rfl) rfl
    | _ => exact hf

theorem rel_stateAt {R : CrypState → CrypState → Utc → Utc → Prop} (h : Veiled a D u v)
    (hR : ∀ cs, u.heap.blocks q = some (.state cs) → R cs cs u v) :
    rel (stateAt q) (stateAt q) R u v := by
  have hf : rel (throw .danglingPointer : C CrypState) (throw .danglingPointer : C CrypState) R u v :=
    rel_throw.mpr rfl
  unfold stateAt
  apply rel_bind
  by_cases hq : D q
  · obtain ⟨c, d, hc, hd, hcd⟩ := h.hidden q hq
    apply rel_blockAt_of hc hd
    cases hcd <;> exact hf
  · apply rel_blockAt (h.same q hq)
    intro c hc
    cases c with
    | state cs => exact hR cs hc
    | _ => exact hf

/-- a queue is walked in both states alike -/
theorem rel_lookup {α : Type} {read : Nat → C α} {id : Nat} {l : List Nat}
    (hread : ∀ q, rel (read q) (read q) (fun _ _ s t => s = u ∧ t = v) u v) :
    rel (lookup read id l) (lookup read id l) (fun r r' s t => r = r' ∧ s = u ∧ t = v) u v := by
  induction l with
  | nil => exact ⟨rfl, rfl, rfl⟩
  | cons q l ih =>
    unfold lookup
    by_cases hq : id = q
    · rw [if_pos hq]
      exact ⟨rfl, rfl, rfl⟩
    · rw [if_neg hq]
      apply rel_bind
      apply rel_mono (hread q)
      rintro _ _ _ _ ⟨rfl, rfl⟩
      exact ih

theorem rel_teeObjGet {R : Nat → Nat → Utc → Utc → Prop} (h : Veiled a D u v) (id : Nat)
    (hR : ∀ r, R r r u v) : rel (teeObjGet id) (teeObjGet id) R u v := by
  unfold teeObjGet
  apply rel_bind
  rw [rel_get, h.objects]
  apply rel_bind
  apply rel_mono (rel_lookup fun q => rel_objAt h fun _ _ _ _ _ _ => ⟨rfl, rfl⟩)
  rintro r _ _ _ ⟨rfl, rfl, rfl⟩
  exact hR _

theorem rel_getState {R : Nat → Nat → Utc → Utc → Prop} (h : Veiled a D u v) (id : Nat)
    (hR : ∀ r, R r r u v) : rel (teeSvcCrypGetState id) (teeSvcCrypGetState id) R u v := by
  unfold teeSvcCrypGetState
  apply rel_bind
  rw [rel_get, h.crypStates]
  apply rel_bind
  apply rel_mono (rel_lookup fun q => rel_stateAt h fun _ _ => ⟨rfl, rfl⟩)
  rintro r _ _ _ ⟨rfl, rfl, rfl⟩
  exact hR _

/-- an allocation has the same answer in both states -/
theorem rel_teeMalloc {R : Nat → Nat → Utc → Utc → Prop} (h : Veiled a D u v) (c : Block)
    (hR : ∀ q u' v', Veiled a D u' v' → (q = 0 ∧ u'.heap.blocks = u.heap.blocks ∨
      q ≠ 0 ∧ u.heap.blocks q = none ∧
        ∀ r, u'.heap.blocks r = if r = q then some c else u.heap.blocks r) → SameLists u u' →
      R q q u' v') : rel (teeMalloc c) (teeMalloc c) R u v := by
  have hfull : v.heap.Full ↔ u.heap.Full := by
    unfold Heap.Full
    rw [h.answers, h.calls, Option.isSome_iff_ne_none, Option.isSome_iff_ne_none, Ne, Ne, h.none_iff]
  show R (u.heap.alloc c).1 (v.heap.alloc c).1 { u with heap := (u.heap.alloc c).2 }
    { v with heap := (v.heap.alloc c).2 }
  by_cases hf : u.heap.Full
  · rw [Heap.alloc_full c hf, Heap.alloc_full c (hfull.mpr hf)]
    refine hR 0 _ _ ⟨⟨h.objects, h.crypStates, h.made, h.freed⟩, h.answers, ?_, h.same, h.hidden⟩
      (.inl ⟨rfl, rfl⟩) ⟨rfl, rfl, rfl, rfl⟩
    exact congrArg (· + 1) h.calls
  · have hf' : ¬ v.heap.Full := fun e => hf (hfull.mp e)
    obtain ⟨h0, -, hn⟩ := Heap.not_full_iff.mp hf
    rw [Heap.alloc_not_full c hf, Heap.alloc_not_full c hf', h.answers, h.calls]
    have hst := h.store (h.free hn) c
    refine hR _ _ _ ⟨⟨h.objects, h.crypStates, h.made, h.freed⟩, h.answers, ?_, hst.same,
      hst.hidden⟩ (.inr ⟨h0, hn, fun r => ?_⟩) ⟨rfl, rfl, rfl, rfl⟩
    · rfl
    · exact Utc.store_blocks c r

end

/-! ## attributes -/

/-- `crypto_bignum_bin2bn` does not look at the number that it overwrites -/
def Provider.Overwrites (p : Provider) : Prop :=
  ∀ b v w, (p.bin2bn b v).1 = (p.bin2bn b w).1 ∧
    ((p.bin2bn b v).1 = true → (p.bin2bn b v).2 = (p.bin2bn b w).2)

/-- the address whose block an attribute of the block `y` at `q` is written to, for what an object
hides -/
def Attr.cell (q : Nat) (y : Attr) (ta : TypeAttr) : Option Nat :=
  match ta.opsIndex with
  | .secret => none
  | .bignum => y.get? ta.raw
  | .value => some q

section
variable {p : Provider} {u v : Utc} {a b q q' : Nat} {D : Nat → Prop} {y z : Attr}
  {tp : TypeProps} {ta : TypeAttr} {m : Member}

@[simp] theorem rel_storeAt {c d : Block} {R : Unit → Unit → Utc → Utc → Prop} :
    rel (storeAt q c) (storeAt q d) R u v ↔ R () () (u.store q c) (v.store q d) := Iff.rfl

theorem AttrOk.bignum_raw {bl : Blocks} (hy : AttrOk bl b tp y) (hta : ta ∈ tp.typeAttrs)
    (hi : ta.opsIndex = .bignum) : ta.raw ≠ .curve := by
  have hall : ∀ l ∈ [teeCrypObjSecretValueAttrs, teeCrypObjEccKeypairAttrs], ∀ ta ∈ l,
      ta.opsIndex = .bignum → ta.raw ≠ .curve := by decide
  cases y with
  | secret k n data =>
    rw [hy.1] at hta
    exact hall _ (by simp) ta hta hi
  | ecc d e f c =>
    rw [hy.1] at hta
    exact hall _ (by simp) ta hta hi

/-- the attribute block in the other state -/
theorem Veiled.attr (h : Veiled a D u v) (hq : u.heap.blocks q = some (.attr b y)) :
    v.heap.blocks q = some (.attr b y) ∨
      D q ∧ b = a ∧ ∃ d e f c c', y = .ecc d e f c ∧ v.heap.blocks q = some (.attr b (.ecc d e f c')) := by
  by_cases hD : D q
  · obtain ⟨c, d, hc, hd, hcd⟩ := h.hidden q hD
    cases hq.symm.trans hc
    cases hcd
    exact .inr ⟨hD, rfl, _, _, _, _, _, rfl, hd⟩
  · exact .inl ((h.same q hD).trans hq)

theorem Veiled.bignum (h : Veiled a D u v) {w : Nat} (hq : u.heap.blocks q = some (.bignum b m w)) :
    ∃ w', v.heap.blocks q = some (.bignum b m w') ∧ (¬ D q → w' = w) ∧ (D q → b = a) := by
  by_cases hD : D q
  · obtain ⟨c, d, hc, hd, hcd⟩ := h.hidden q hD
    cases hq.symm.trans hc
    cases hcd
    exact ⟨_, hd, fun hn => absurd hD hn, fun _ => rfl⟩
  · exact ⟨w, (h.same q hD).trans hq, fun _ => rfl, fun hD' => absurd hD' hD⟩

theorem memberAt_eq {w : Nat} (hq : u.heap.blocks q = some (.attr b y)) (hw : y.get? m = some w) :
    memberAt q m u = .ok (w, u) := by
  obtain ⟨n, t, e, rfl, rfl⟩ :=
    wp_iff.mp ((wp_memberAt (Q := fun n t => n = w ∧ t = u) hq hw).mpr ⟨rfl, rfl⟩)
  exact e

theorem rel_memberAt {R : Nat → Nat → Utc → Utc → Prop} {w : Nat} (h : Veiled a D u v)
    (hq : u.heap.blocks q = some (.attr b y)) (hw : y.get? m = some w) (hm : m ≠ .curve)
    (hR : R w w u v) : rel (memberAt q m) (memberAt q m) R u v := by
  obtain hv | ⟨-, -, d, e, f, c, c', rfl, hv⟩ := h.attr hq
  · exact (rel_of_ok (memberAt_eq hq hw) (memberAt_eq hv hw)).mpr hR
  · have hw' : (Attr.ecc d e f c').get? m = some w := by
      cases m with
      | curve => exact absurd rfl hm
      | _ => exact hw
    exact (rel_of_ok (memberAt_eq hq hw) (memberAt_eq hv hw')).mpr hR

/-- a bignum is written with numbers that may only differ where the states do -/
theorem rel_setBignum {R : Unit → Unit → Utc → Utc → Prop} {w n n' : Nat} (h : Veiled a D u v)
    (hq : u.heap.blocks q = some (.bignum b m w)) (hn : ¬ D q → n = n')
    (hR : ∀ s t, Veiled a D s t → (n = n' → Veiled a (fun r => D r ∧ r ≠ q) s t) → R () () s t) :
    rel (setBignum q n) (setBignum q n') R u v := by
  obtain ⟨w', hv, -, hba⟩ := h.bignum hq
  unfold setBignum
  apply rel_bind
  apply rel_blockAt_of hq hv
  apply rel_storeAt.mpr
  apply hR
  · by_cases hD : D q
    · rw [hba hD]
      exact h.storeHidden hD .bignum
    · rw [hn hD]
      exact h.store hD _
  · rintro rfl
    exact h.settle q _

/-- the curve is written -/
theorem rel_setCurve {R : Unit → Unit → Utc → Utc → Prop} {d e f c n : Nat} (h : Veiled a D u v)
    (hq : u.heap.blocks q = some (.attr b (.ecc d e f c)))
    (hR : ∀ s t, Veiled a D s t → Veiled a (fun r => D r ∧ r ≠ q) s t → R () () s t) :
    rel (setMember q .curve n) (setMember q .curve n) R u v := by
  unfold setMember
  apply rel_bind
  obtain hv | ⟨hD, rfl, d', e', f', c1, c', hy, hv⟩ := h.attr hq
  · apply rel_blockAt_of hq hv
    apply rel_storeAt.mpr
    refine hR _ _ ?_ (h.settle q _)
    by_cases hD : D q
    · obtain ⟨c1, d1, hc, -, hcd⟩ := h.hidden q hD
      cases hq.symm.trans hc
      cases hcd
      exact h.storeHidden hD .curve
    · exact h.store hD _
  · cases hy
    apply rel_blockAt_of hq hv
    exact hR _ _ (h.storeHidden hD .curve) (h.settle q _)

/-- what a write of an attribute does to the difference -/
def Written (a : Nat) (D : Nat → Prop) (cell : Option Nat) (r r' : Nat) (s t : Utc) : Prop :=
  r = r' ∧ Veiled a D s t ∧ (r = teeSuccess → Veiled a (fun z => D z ∧ cell ≠ some z) s t)

theorem Veiled.written {cell : Option Nat} {r : Nat} (h : Veiled a D u v)
    (hr : r ≠ teeSuccess) : Written a D cell r r u v := ⟨rfl, h, fun e => absurd e hr⟩

theorem written_none {r : Nat} (h : Veiled a D u v) : Written a D none r r u v :=
  ⟨rfl, h, fun _ => h.congr fun z => and_iff_left (by simp)⟩

theorem written_some {r : Nat} (h : Veiled a D u v) (h' : Veiled a (fun z => D z ∧ z ≠ q) u v) :
    Written a D (some q) r r u v := by
  refine ⟨rfl, h, fun _ => h'.congr fun z => ?_⟩
  rw [Ne, Option.some_inj, eq_comm]

/-- **The value of the TA is written alike.** -/
theorem rel_attrFromUser (hp : p.Overwrites) (h : Veiled a D u v)
    (hq : u.heap.blocks q = some (.attr b y)) (hy : AttrOk u.heap.blocks b tp y)
    (hta : ta ∈ tp.typeAttrs) (buffer : List UInt8) :
    rel (attrFromUser p q ta buffer) (attrFromUser p q ta buffer)
      (Written a D (y.cell q ta)) u v := by
  have hsec : teeErrorSecurity ≠ teeSuccess := by decide
  have hgen : teeErrorGeneric ≠ teeSuccess := by decide
  have hraw := hy.bignum_raw hta
  obtain ⟨hi, k, n, data, rfl, -, -⟩ | ⟨hi, bn, hg, w, hw⟩ | ⟨hi, hr, d, e, f, c, rfl⟩ := hy.ops hta
  · have hv : v.heap.blocks q = some (.attr b (.secret k n data)) := by
      obtain hv | ⟨-, -, d, e, f, c, c', hc, -⟩ := h.attr hq
      · exact hv
      · cases hc
    have hD : ¬ D q := by
      intro hD
      obtain ⟨c, d, hc, -, hcd⟩ := h.hidden q hD
      cases hq.symm.trans hc
      cases hcd
    have hcell : (Attr.secret k n data).cell q ta = none := by rw [Attr.cell, hi]
    rw [hcell, attrFromUser, hi]
    show rel (opAttrSecretValueFromUser q buffer) (opAttrSecretValueFromUser q buffer) _ u v
    unfold opAttrSecretValueFromUser
    apply rel_bind
    apply rel_blockAt_of hq hv
    apply rel_ite Iff.rfl
    · intro _
      exact h.written hsec
    intro _
    apply rel_ite Iff.rfl
    · intro _
      exact rel_throw.mpr rfl
    intro _
    apply rel_bind
    apply rel_storeAt.mpr
    exact written_none (h.store hD _)
  · have hcell : y.cell q ta = some bn := by rw [Attr.cell, hi, hg]
    rw [hcell, attrFromUser, hi]
    show rel (opAttrBignumFromUser p q ta.raw buffer) (opAttrBignumFromUser p q ta.raw buffer) _ u v
    unfold opAttrBignumFromUser
    apply rel_bind
    apply rel_memberAt h hq hg (hraw hi)
    apply rel_bind
    obtain ⟨w', hw', hsame, -⟩ := h.bignum hw
    unfold bignumAt
    apply rel_bind
    apply rel_blockAt_of hw hw'
    apply rel_pure.mpr
    obtain ⟨h1, h2⟩ := hp buffer w w'
    apply rel_bind
    apply rel_setBignum h hw
    · intro hD
      rw [hsame hD]
    intro s t hs ht
    rw [← h1]
    by_cases hok : (p.bin2bn buffer w).1 = true
    · exact written_some hs (ht (h2 hok))
    · rw [if_neg hok]
      exact hs.written (by decide)
  · have hcell : (Attr.ecc d e f c).cell q ta = some q := by rw [Attr.cell, hi]
    rw [hcell, attrFromUser, hi, hr]
    show rel (opAttrValueFromUser q .curve buffer) (opAttrValueFromUser q .curve buffer) _ u v
    unfold opAttrValueFromUser
    apply rel_ite Iff.rfl
    · intro _
      exact h.written hgen
    intro _
    apply rel_bind
    apply rel_setCurve h hq
    intro s t hs ht
    exact written_some hs ht

/-- **An attribute of another object is written alike.** -/
theorem rel_attrFromObj {b' : Nat} (h : Veiled a D u v) (hq : u.heap.blocks q = some (.attr b y))
    (hy : AttrOk u.heap.blocks b tp y) (hq' : u.heap.blocks q' = some (.attr b' z))
    (hz : AttrOk u.heap.blocks b' tp z) (hne : b' ≠ a) (hta : ta ∈ tp.typeAttrs) :
    rel (attrFromObj q q' ta ta) (attrFromObj q q' ta ta) (Written a D (y.cell q ta)) u v := by
  have hbad : teeErrorBadState ≠ teeSuccess := by decide
  have hraw := hy.bignum_raw hta
  have hown : ∀ {r c}, u.heap.blocks r = some c → c.owner = some b' → ¬ D r := by
    intro r c hc ho
    refine h.notMem hc (.inr fun x e => ?_) (ho ▸ fun e => hne (Option.some_inj.mp e))
    rw [e] at ho
    cases ho
  have hsrc : v.heap.blocks q' = some (.attr b' z) := (h.same q' (hown hq' rfl)).trans hq'
  have hops := hz.ops hta
  obtain ⟨hi, k, n, data, rfl, -, -⟩ | ⟨hi, bn, hg, w, hw⟩ | ⟨hi, hr, d, e, f, c, rfl⟩ := hy.ops hta
  · have hv : v.heap.blocks q = some (.attr b (.secret k n data)) := by
      obtain hv | ⟨-, -, d, e, f, c, c', hc, -⟩ := h.attr hq
      · exact hv
      · cases hc
    have hD : ¬ D q := by
      intro hD
      obtain ⟨c, d, hc, -, hcd⟩ := h.hidden q hD
      cases hq.symm.trans hc
      cases hcd
    obtain ⟨-, k', n', data', rfl, -, -⟩ | ⟨hi', -⟩ | ⟨hi', -⟩ := hops
    · have hcell : (Attr.secret k n data).cell q ta = none := by rw [Attr.cell, hi]
      rw [hcell, attrFromObj, hi]
      show rel (opAttrSecretValueFromObj q q') (opAttrSecretValueFromObj q q') _ u v
      unfold opAttrSecretValueFromObj
      apply rel_bind
      apply rel_blockAt_of hq' hsrc
      show rel (blockAt q >>= _) (blockAt q >>= _) _ u v
      apply rel_bind
      apply rel_blockAt_of hq hv
      apply rel_ite Iff.rfl
      · intro _
        exact h.written hbad
      intro _
      apply rel_ite Iff.rfl
      · intro _
        exact rel_throw.mpr rfl
      intro _
      apply rel_bind
      apply rel_storeAt.mpr
      exact written_none (h.store hD _)
    · rw [hi] at hi'
      cases hi'
    · rw [hi] at hi'
      cases hi'
  · obtain ⟨hi', -⟩ | ⟨-, src, hg', w', hw'⟩ | ⟨hi', -⟩ := hops
    · rw [hi] at hi'
      cases hi'
    · have hcell : y.cell q ta = some bn := by rw [Attr.cell, hi, hg]
      rw [hcell, attrFromObj, hi]
      show rel (opAttrBignumFromObj q q' ta.raw ta.raw) (opAttrBignumFromObj q q' ta.raw ta.raw) _ u v
      unfold opAttrBignumFromObj
      apply rel_bind
      apply rel_memberAt h hq hg (hraw hi)
      apply rel_bind
      apply rel_memberAt h hq' hg' (hraw hi)
      apply rel_bind
      unfold bignumAt
      apply rel_bind
      apply rel_blockAt_of hw' ((h.same src (hown hw' rfl)).trans hw')
      apply rel_pure.mpr
      apply rel_bind
      apply rel_setBignum h hw
      · intro _
        rfl
      intro s t hs ht
      exact written_some hs (ht rfl)
    · rw [hi] at hi'
      cases hi'
  · obtain ⟨hi', -⟩ | ⟨hi', -⟩ | ⟨-, -, d', e', f', c', rfl⟩ := hops
    · rw [hi] at hi'
      cases hi'
    · rw [hi] at hi'
      cases hi'
    · have hcell : (Attr.ecc d e f c).cell q ta = some q := by rw [Attr.cell, hi]
      rw [hcell, attrFromObj, hi, hr]
      show rel (opAttrValueFromObj q q' .curve .curve) (opAttrValueFromObj q q' .curve .curve) _ u v
      unfold opAttrValueFromObj
      apply rel_bind
      unfold memberAt
      apply rel_bind
      apply rel_blockAt_of hq' hsrc
      show rel (pure c' : C Nat) (pure c' : C Nat) _ u v
      apply rel_pure.mpr
      apply rel_bind
      apply rel_setCurve h hq
      intro s t hs ht
      exact written_some hs ht

end

section
variable {p : Provider} {u v t : Utc} {a b q q' : Nat} {D : Nat → Prop} {y z : Attr}
  {tp : TypeProps} {ta : TypeAttr} {mem : Nat → UInt8}

/-- the addresses of the attributes do not change -/
theorem Kept.cells (h : Kept u t) (hq : u.heap.blocks q = some (.attr b y))
    (hy : AttrOk u.heap.blocks b tp y) : ∃ y', t.heap.blocks q = some (.attr b y') ∧
      AttrOk t.heap.blocks b tp y' ∧ ∀ ta ∈ tp.typeAttrs, y'.cell q ta = y.cell q ta := by
  obtain ⟨y', hq', hy'⟩ := h.attrOk hy hq
  refine ⟨y', hq', hy', fun ta hta => ?_⟩
  obtain ⟨c, hc, hcs⟩ := h.block hq
  cases hq'.symm.trans hc
  cases hcs with
  | refl => rfl
  | secret => rfl
  | ecc =>
    have hraw := hy.bignum_raw hta
    unfold Attr.cell
    cases hi : ta.opsIndex with
    | secret => rfl
    | value => rfl
    | bignum =>
      cases hr : ta.raw with
      | curve => exact absurd hr (hraw hi)
      | _ => rfl

/-- the values of a list, up to the first one that is refused -/
theorem rel_populateAttrs (hp : p.Overwrites) (h : Veiled a D u v)
    (hq : u.heap.blocks q = some (.attr b y)) (hy : AttrOk u.heap.blocks b tp y)
    (l : List TeeAttribute) (have_ size : Nat) :
    rel (populateAttrs p mem q tp l have_ size) (populateAttrs p mem q tp l have_ size)
      (fun r r' s t => r = r' ∧ Veiled a D s t ∧ (r.1 = teeSuccess → Veiled a (fun z => D z ∧
        ∀ e ∈ l, ∀ i ta, teeSvcCrypObjFindTypeAttrIdx e.attributeID tp = some i →
          tp.typeAttrs[i]? = some ta → y.cell q ta ≠ some z) s t)) u v := by
  induction l generalizing u v D y have_ size with
  | nil => exact ⟨rfl, h, fun _ => h.congr fun z => and_iff_left nofun⟩
  | cons e l ih =>
    have hinf : teeErrorItemNotFound ≠ teeSuccess := by decide
    rw [populateAttrs]
    cases hi : teeSvcCrypObjFindTypeAttrIdx e.attributeID tp with
    | none => exact ⟨rfl, h, fun hr => absurd hr hinf⟩
    | some i =>
      obtain ⟨ta, hg, hta⟩ := findIdx_mem hi
      simp only [hg]
      apply rel_bind
      apply rel_mono (rel_wlp (rel_attrFromUser hp h hq hy hta _)
        (wlp_of_wp (attrFromUser_kept hq hy hta _)))
      rintro r _ s t ⟨⟨rfl, hs, hset⟩, hk⟩
      apply rel_ite Iff.rfl
      · intro hr
        exact ⟨rfl, hs, fun hr' => absurd hr' hr⟩
      intro hr
      obtain ⟨y', hq', hy', hcell⟩ := hk.cells hq hy
      apply rel_mono (rel_and (ih hs hq' hy' _ _) (ih (hset (not_not.mp hr)) hq' hy' _ _))
      rintro r r' s t ⟨⟨rfl, hs, -⟩, -, -, hset⟩
      refine ⟨rfl, hs, fun hr => (hset hr).congr fun z => ?_⟩
      rw [and_assoc, List.forall_mem_cons]
      refine and_congr_right fun _ => and_congr ?_ (forall₂_congr fun e he => ?_)
      · constructor
        · intro hz
          exact hz i ta hi hg
        · intro hz i' ta' hi' hg'
          cases hi.symm.trans hi'
          cases hg.symm.trans hg'
          exact hz
      · refine forall₂_congr fun i' ta' => forall₂_congr fun hi' hg' => ?_
        rw [hcell ta' (List.mem_of_getElem? hg')]

/-- the attributes of a list, from another object -/
theorem rel_copyAttrs {b' : Nat} (h : Veiled a D u v) (hq : u.heap.blocks q = some (.attr b y))
    (hy : AttrOk u.heap.blocks b tp y) (hq' : u.heap.blocks q' = some (.attr b' z))
    (hz : AttrOk u.heap.blocks b' tp z) (hne : b' ≠ a) {l : List TypeAttr}
    (hl : ∀ ta ∈ l, ta ∈ tp.typeAttrs) :
    rel (copyAttrs (fun ta => attrFromObj q q' ta ta) l)
      (copyAttrs (fun ta => attrFromObj q q' ta ta) l)
      (fun r r' s t => r = r' ∧ Veiled a D s t ∧ (r = teeSuccess →
        Veiled a (fun z => D z ∧ ∀ ta ∈ l, y.cell q ta ≠ some z) s t)) u v := by
  induction l generalizing u v D y z with
  | nil => exact ⟨rfl, h, fun _ => h.congr fun z => and_iff_left nofun⟩
  | cons ta l ih =>
    have hta := hl ta List.mem_cons_self
    have hl' : ∀ tb ∈ l, tb ∈ tp.typeAttrs := fun tb hb => hl tb (List.mem_cons_of_mem ta hb)
    rw [copyAttrs]
    apply rel_bind
    apply rel_mono (rel_wlp (rel_attrFromObj h hq hy hq' hz hne hta)
      (wlp_of_wp (attrFromObj_kept hq hy hq' hz hta)))
    rintro r _ s t ⟨⟨rfl, hs, hset⟩, hk⟩
    apply rel_ite Iff.rfl
    · intro hr
      exact ⟨rfl, hs, fun hr' => absurd hr' hr⟩
    intro hr
    obtain ⟨y', hq1, hy', hcell⟩ := hk.cells hq hy
    obtain ⟨z', hq2, hz', -⟩ := hk.cells hq' hz
    apply rel_mono (rel_and (ih hs hq1 hy' hq2 hz' hl')
      (ih (hset (not_not.mp hr)) hq1 hy' hq2 hz' hl'))
    rintro r r' s t ⟨⟨rfl, hs, -⟩, -, -, hset⟩
    refine ⟨rfl, hs, fun hr => (hset hr).congr fun z => ?_⟩
    rw [and_assoc, List.forall_mem_cons]
    refine and_congr_right fun _ => and_congr_right fun _ => forall₂_congr fun tb hb => ?_
    rw [hcell tb (hl' tb hb)]

end

end MTower.Cryp
