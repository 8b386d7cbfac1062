import MTower.Cryp.Rules

/-!
# Allocating and releasing objects and states

The calls that change the two queues, over states in which `Core` holds.

* `Around`         the same blocks up to one object and what was allocated for it;
* `teeObjClose_spec`, `uteeCrypObjAlloc_spec`  one object less, one object more;
* `crypStateFree_spec`, `stateAlloc_spec`      the states and their keys;
* `userTaCtxDestroy_spec`                      nothing is left.
-/

set_option linter.unusedVariables false

namespace MTower.Cryp
open Lib Kernel

/-! ## one object and its blocks -/

/-- no block, or a block that was allocated for `o` -/
def OwnedBy (o : Nat) (x : Option Block) : Prop := ∀ c, x = some c → c.owner = some o

/-- apart from the block of `o` and the blocks allocated for `o`, nothing differs -/
def Around (o : Nat) (b b' : Blocks) : Prop :=
  ∀ q, q ≠ o → b' q = b q ∨ q ≠ 0 ∧ OwnedBy o (b q) ∧ OwnedBy o (b' q)

section
variable {p : Provider} {u t v : Utc} {o : Nat} {b b' b'' : Blocks}

theorem Around.refl (o : Nat) (b : Blocks) : Around o b b := fun _ _ => .inl rfl

theorem Around.trans (h : Around o b b') (h' : Around o b' b'') : Around o b b'' := by
  intro q hq
  rcases h q hq with e | ⟨h0, h1, h2⟩ <;> rcases h' q hq with e' | ⟨h0', h1', h2'⟩
  · exact .inl (e'.trans e)
  · exact .inr ⟨h0', e ▸ h1', h2'⟩
  · exact .inr ⟨h0, h1, e' ▸ h2⟩
  · exact .inr ⟨h0, h1, h2'⟩

theorem OwnedBy.none (o : Nat) : OwnedBy o none := by
  intro c hc
  cases hc

theorem OwnedBy.some {c : Block} (hc : c.owner = some o) : OwnedBy o (some c) := by
  intro c' e
  cases e
  exact hc

/-- the block at `q`, an address of `o`, is written or released -/
theorem Around.of_eq {q : Nat} (h0 : q ≠ 0) (hb : OwnedBy o (b q)) (hb' : OwnedBy o (b' q))
    (h : ∀ r, r ≠ q → r ≠ o → b' r = b r) : Around o b b' := by
  intro r hr
  by_cases hq : r = q
  · subst hq
    exact .inr ⟨h0, hb, hb'⟩
  · exact .inl (h r hq hr)

theorem OwnedBy.obj_eq_none {q : Nat} (h : OwnedBy o (u.heap.blocks q)) : u.obj q = Option.none := by
  cases e : u.obj q with
  | none => rfl
  | some x => cases h _ (Utc.obj_iff.mp e)

theorem OwnedBy.st_eq_none {q : Nat} (h : OwnedBy o (u.heap.blocks q)) : u.st q = Option.none := by
  cases e : u.st q with
  | none => rfl
  | some x => cases h _ (Utc.st_iff.mp e)

theorem Around.obj (h : Around o u.heap.blocks t.heap.blocks) {q : Nat} (hq : q ≠ o) :
    t.obj q = u.obj q := by
  rcases h q hq with e | ⟨-, h1, h2⟩
  · unfold Utc.obj
    rw [e]
  · rw [h1.obj_eq_none, h2.obj_eq_none]

theorem Around.st (h : Around o u.heap.blocks t.heap.blocks) {q : Nat} (hq : q ≠ o) :
    t.st q = u.st q := by
  rcases h q hq with e | ⟨-, h1, h2⟩
  · unfold Utc.st
    rw [e]
  · rw [h1.st_eq_none, h2.st_eq_none]

theorem Around.st_eq (h : Around o u.heap.blocks t.heap.blocks) (hu : u.st o = none)
    (ht : t.st o = none) : t.st = u.st := by
  funext q
  by_cases hq : q = o
  · rw [hq, hu, ht]
  · exact h.st hq

/-- the blocks of another object or state are kept -/
theorem Around.other (h : Around o b b') (ho : ∀ c, b o = some c → c.owner = none) {a q : Nat}
    (ha : a ≠ o) {c : Block} (hc : b q = some c) (hown : c.owner = some a) : b' q = some c := by
  have hq : q ≠ o := by
    rintro rfl
    rw [ho c hc] at hown
    cases hown
  rcases h q hq with e | ⟨-, h1, -⟩
  · rw [e, hc]
  · have := h1 c hc
    rw [hown, Option.some_inj] at this
    exact absurd this ha

theorem Core.around (hc : Core p u) (h0 : o ≠ 0) (h : Around o u.heap.blocks t.heap.blocks)
    (hown : ∀ c, u.heap.blocks o = some c → c.owner = none) (hlist : t.crypStates = u.crypStates)
    (hu : u.st o = none) (ht : t.st o = none) (hnd : t.objects.Nodup)
    (hmem : ∀ a, a ∈ t.objects ↔ (t.obj a).isSome)
    (hok : ∀ x, t.obj o = some x → ObjOk t.heap.blocks o x)
    (hcount : ∀ a, t.made a = t.freed a + if (t.obj a).isSome then 1 else 0) : Core p t where
  null := by
    rcases h 0 h0.symm with e | ⟨hne, -⟩
    · rw [e, hc.null]
    · exact absurd rfl hne
  objNodup := hnd
  objMem := hmem
  stNodup := by rw [hlist]; exact hc.stNodup
  stMem := by
    intro s
    rw [hlist, h.st_eq hu ht]
    exact hc.stMem s
  objOk := by
    intro a x hx
    by_cases ha : a = o
    · subst ha
      exact hok x hx
    · rw [h.obj ha] at hx
      exact (hc.objOk a x hx).frame fun q c hq hqo => h.other hown ha hq hqo
  stOk := by
    intro s cs hs
    rw [h.st_eq hu ht] at hs
    have hso : s ≠ o := by
      rintro rfl
      rw [hu] at hs
      cases hs
    exact (hc.stOk s cs hs).frame fun q c hq hqo => h.other hown hso hq hqo
  count := hcount

/-! ## closing an object -/

/-- blocks allocated for the object `a` were written or released -/
structure Drops (a : Nat) (u t : Utc) : Prop extends SameLists u t where
  around : Around a u.heap.blocks t.heap.blocks
  self : t.heap.blocks a = u.heap.blocks a

theorem Drops.refl (a : Nat) (u : Utc) : Drops a u u := ⟨SameLists.refl u, Around.refl a _, rfl⟩

theorem Drops.trans {a : Nat} (h : Drops a u t) (h' : Drops a t v) : Drops a u v :=
  ⟨h.toSameLists.trans h'.toSameLists, h.around.trans h'.around, h'.self.trans h.self⟩

theorem Drops.null {a : Nat} (h : Drops a u t) (h0 : u.heap.blocks 0 = none) :
    t.heap.blocks 0 = none := by
  by_cases ha : (0 : Nat) = a
  · rw [ha, h.self, ← ha, h0]
  · rcases h.around 0 ha with e | ⟨hne, -⟩
    · rw [e, h0]
    · exact absurd rfl hne

section
variable {a q : Nat} {x : TeeObj} {c c' : Block}

theorem ne_of_owner (ha : u.heap.blocks a = some (.obj x)) (hc : u.heap.blocks q = some c)
    (ho : c.owner = some a) : a ≠ q := by
  rintro rfl
  rw [ha, Option.some_inj] at hc
  subst hc
  cases ho

theorem ne_zero_of_null (h0 : u.heap.blocks 0 = none) (hc : u.heap.blocks q = some c) : q ≠ 0 := by
  rintro rfl
  rw [h0] at hc
  cases hc

theorem Drops.store (h0 : u.heap.blocks 0 = none) (ha : u.heap.blocks a = some (.obj x))
    (hc : u.heap.blocks q = some c) (ho : c.owner = some a) (ho' : c'.owner = some a) :
    Drops a u (u.store q c') := by
  refine ⟨⟨rfl, rfl, rfl, rfl⟩, Around.of_eq (ne_zero_of_null h0 hc) ?_ ?_ ?_, ?_⟩
  · rw [hc]
    exact .some ho
  · rw [Utc.store_blocks, if_pos rfl]
    exact .some ho'
  · intro r hr _
    rw [Utc.store_blocks, if_neg hr]
  · rw [Utc.store_blocks, if_neg (ne_of_owner ha hc ho)]

theorem Drops.erase (h0 : u.heap.blocks 0 = none) (ha : u.heap.blocks a = some (.obj x))
    (hc : u.heap.blocks q = some c) (ho : c.owner = some a) : Drops a u (u.erase q) := by
  refine ⟨⟨rfl, rfl, rfl, rfl⟩, Around.of_eq (ne_zero_of_null h0 hc) ?_ ?_ ?_, ?_⟩
  · rw [hc]
    exact .some ho
  · rw [Utc.erase_blocks, if_pos rfl]
    exact .none a
  · intro r hr _
    rw [Utc.erase_blocks, if_neg hr]
  · rw [Utc.erase_blocks, if_neg (ne_of_owner ha hc ho)]

/-- a bignum is released and its member cleared; the other bignums stay -/
theorem bignumFree_spec {y : Attr} {m : Member} {bn : Nat} (h0 : u.heap.blocks 0 = none)
    (ha : u.heap.blocks a = some (.obj x)) (hq : u.heap.blocks q = some (.attr a y))
    (hg : y.get? m = some bn) (hbn : IsBignum u.heap.blocks a m bn) :
    wp (opAttrBignumFree q m) (fun _ t => Drops a u t ∧
      t.heap.blocks q = some (.attr a (y.put m 0)) ∧
      ∀ m' r, m' ≠ m → IsBignum u.heap.blocks a m' r → IsBignum t.heap.blocks a m' r) u := by
  obtain ⟨w, hw⟩ := hbn
  have hne : q ≠ bn := by
    rintro rfl
    rw [hq] at hw
    cases hw
  have hq' : (u.erase bn).heap.blocks q = some (.attr a y) := by
    rw [Utc.erase_blocks, if_neg hne, hq]
  have hd := Drops.erase h0 ha hw rfl
  have ha' : (u.erase bn).heap.blocks a = some (.obj x) := hd.self.trans ha
  rw [opAttrBignumFree, wp_bind, wp_memberAt hq hg, wp_bind,
    wp_teeFree (ne_zero_of_null h0 hw) hw (by rintro o ⟨⟩), wp_setMember hq']
  refine ⟨hd.trans (Drops.store (hd.null h0) ha' hq' rfl rfl), ?_, ?_⟩
  · rw [Utc.store_blocks, if_pos rfl]
  · rintro m' r hm ⟨z, hz⟩
    refine ⟨z, ?_⟩
    have hrq : r ≠ q := by
      rintro rfl
      rw [hq] at hz
      cases hz
    have hrb : r ≠ bn := by
      rintro rfl
      rw [hw] at hz
      cases hz
      exact hm rfl
    rw [Utc.store_blocks, if_neg hrq, Utc.erase_blocks, if_neg hrb, hz]

theorem teeObjAttrFree_spec (h0 : u.heap.blocks 0 = none) (ha : u.heap.blocks a = some (.obj x))
    (hok : ObjOk u.heap.blocks a x) : wp (teeObjAttrFree a) (fun _ t => Drops a u t) u := by
  obtain ⟨-, tp, y, htp, hq, hy⟩ := hok
  rw [teeObjAttrFree, onAttrs, wp_bind, wp_objAt ha, if_neg (ne_zero_of_null h0 hq), htp]
  show wp (forAttrs (attrFree x.attr) tp.typeAttrs) _ u
  cases y with
  | secret k n data =>
    obtain ⟨hty, -, hk, hl⟩ := hy
    have hn : ¬ data.length < n := by omega
    rw [hty]
    simp only [teeCrypObjSecretValueAttrs, forAttrs, attrFree, opAttrSecretValueClear, wp_bind,
      wp_blockAt hq, if_neg hn, wp_storeAt, wp_pure]
    exact Drops.store h0 ha hq rfl rfl
  | ecc d e f cv =>
    obtain ⟨hty, hd, he, hf⟩ := hy
    rw [hty]
    simp only [teeCrypObjEccKeypairAttrs, forAttrs, attrFree, opAttrValueClear, wp_bind]
    refine wp_mono (bignumFree_spec h0 ha hq rfl hd) fun _ t1 ht1 => ?_
    obtain ⟨h1, hq1, hb1⟩ := ht1
    have ha1 := h1.self.trans ha
    have he1 := hb1 _ _ (by decide) he
    have hf1 := hb1 _ _ (by decide) hf
    rw [wp_bind]
    refine wp_mono (bignumFree_spec (h1.null h0) ha1 hq1 rfl he1) fun _ t2 ht2 => ?_
    obtain ⟨h2, hq2, hb2⟩ := ht2
    have h12 := h1.trans h2
    have ha2 := h2.self.trans ha1
    have hf2 := hb2 _ _ (by decide) hf1
    rw [wp_bind]
    refine wp_mono (bignumFree_spec (h12.null h0) ha2 hq2 rfl hf2) fun _ t3 ht3 => ?_
    obtain ⟨h3, hq3, -⟩ := ht3
    have h13 := h12.trans h3
    rw [wp_bind, wp_setMember hq3]
    exact h13.trans (Drops.store (h13.null h0) (h3.self.trans ha2) hq3 rfl rfl)

/-- the object `a` was released with what was allocated for it, the attribute block apart -/
structure Gone (a : Nat) (u t : Utc) : Prop where
  objects : t.objects = u.objects
  crypStates : t.crypStates = u.crypStates
  made : t.made = u.made
  freed : t.freed = Function.update u.freed a (u.freed a + 1)
  around : Around a u.heap.blocks t.heap.blocks
  self : t.heap.blocks a = none

theorem Drops.gone (h : Drops a u t) : Gone a u (t.eraseObj a) := by
  refine ⟨h.objects, h.crypStates, h.made, ?_, h.around.trans ?_, ?_⟩
  · show Function.update t.freed a (t.freed a + 1) = _
    rw [h.freed]
  · intro q hq
    rw [Utc.eraseObj_blocks, if_neg hq]
    exact .inl rfl
  · rw [Utc.eraseObj_blocks, if_pos rfl]

theorem teeObjFree_spec (h0 : u.heap.blocks 0 = none) (ha : u.heap.blocks a = some (.obj x))
    (hok : ObjOk u.heap.blocks a x) : wp (teeObjFree a) (fun _ t => Gone a u t) u := by
  have hne := ne_zero_of_null h0 ha
  rw [teeObjFree, if_neg hne, wp_bind]
  refine wp_mono (teeObjAttrFree_spec h0 ha hok) fun _ t ht => ?_
  rw [wp_teeFree_obj hne (ht.self.trans ha)]
  exact ht.gone

/-- what is left of the objects once `a` is closed -/
structure Closed (p : Provider) (a : Nat) (u t : Utc) : Prop where
  core : Core p t
  objects : t.objects = u.objects.erase a
  crypStates : t.crypStates = u.crypStates
  obj : ∀ q, t.obj q = if q = a then none else u.obj q
  st : t.st = u.st
  made : t.made = u.made

theorem Gone.obj_self (h : Gone a u t) : t.obj a = none := by
  unfold Utc.obj
  rw [h.self]

theorem Gone.st_self (h : Gone a u t) : t.st a = none := by
  unfold Utc.st
  rw [h.self]

theorem Gone.obj (h : Gone a u t) (q : Nat) : t.obj q = if q = a then none else u.obj q := by
  by_cases hq : q = a
  · rw [if_pos hq, hq, h.obj_self]
  · rw [if_neg hq, h.around.obj hq]

theorem st_of_obj (ha : u.heap.blocks a = some (.obj x)) : u.st a = none := by
  unfold Utc.st
  rw [ha]

theorem obj_of_st {cs : CrypState} (ha : u.heap.blocks a = some (.state cs)) : u.obj a = none := by
  unfold Utc.obj
  rw [ha]

theorem teeObjClose_spec (hc : Core p u) (ha : a ∈ u.objects) :
    wp (teeObjClose a) (fun _ t => Closed p a u t) u := by
  obtain ⟨x, hx⟩ := hc.objBlock ha
  have hxo := Utc.obj_iff.mpr hx
  have hok := hc.objOk a x hxo
  have htr : ¬ (x.info.has teeHandleFlagPersistent = true) := by simp [hok.transient]
  have hx' : ({ u with objects := u.objects.erase a } : Utc).heap.blocks a = some (.obj x) := hx
  rw [teeObjClose, wp_bind, wp_removeObj hc ha, wp_bind, wp_objAt hx', if_neg htr]
  refine wp_mono (teeObjFree_spec hc.null hx' hok) fun _ t ht => ?_
  have hst : t.st = u.st := ht.around.st_eq (u := { u with objects := u.objects.erase a })
    (st_of_obj hx') ht.st_self
  have hobj : ∀ q, t.obj q = if q = a then none else u.obj q := ht.obj
  refine ⟨?_, ht.objects, ht.crypStates, hobj, hst, ht.made⟩
  refine hc.around (hc.live_ne_null hx) ht.around ?_ ht.crypStates (st_of_obj hx) ht.st_self ?_ ?_
    ?_ ?_
  · intro c hcb
    rw [hx, Option.some_inj] at hcb
    subst hcb
    rfl
  · rw [ht.objects]
    exact hc.objNodup.erase a
  · intro q
    rw [ht.objects, hobj]
    show q ∈ u.objects.erase a ↔ _
    rw [hc.objNodup.mem_erase_iff, hc.objMem]
    by_cases hq : q = a <;> simp [hq]
  · intro y hy
    rw [ht.obj_self] at hy
    cases hy
  · intro q
    rw [ht.made, ht.freed, hobj]
    show u.made q = Function.update u.freed a (u.freed a + 1) q + _
    have hcq := hc.count q
    by_cases hq : q = a
    · subst hq
      rw [hxo] at hcq
      simp only [Function.update_self, if_true, Option.isSome_none]
      simpa using hcq
    · rw [Function.update_of_ne hq, if_neg hq]
      exact hcq

/-! ## allocating an object -/

theorem props_cases {ty : Nat} {tp : TypeProps} (h : teeSvcFindTypeProps ty = some tp) :
    tp.objType = ty ∧ (isEccKeypair tp.objType = true ∧ tp.typeAttrs = teeCrypObjEccKeypairAttrs ∨
      isEccKeypair tp.objType = false ∧ tp.typeAttrs = teeCrypObjSecretValueAttrs) := by
  have htab : ∀ tp ∈ teeCrypObjProps,
      isEccKeypair tp.objType = true ∧ tp.typeAttrs = teeCrypObjEccKeypairAttrs ∨
      isEccKeypair tp.objType = false ∧ tp.typeAttrs = teeCrypObjSecretValueAttrs := by decide
  refine ⟨?_, htab tp (List.mem_of_find?_eq_some h)⟩
  simpa using List.find?_some h

/-- a fresh block for the object `a` -/
theorem Drops.alloc (hself : t.heap.blocks a = some (.obj x)) (h0 : q ≠ 0)
    (hq : t.heap.blocks q = none) (ho : c.owner = some a) (hl : SameLists t v)
    (hb : ∀ r, v.heap.blocks r = if r = q then some c else t.heap.blocks r) : Drops a t v := by
  have hne : a ≠ q := by
    rintro rfl
    rw [hself] at hq
    cases hq
  refine ⟨hl, Around.of_eq h0 ?_ ?_ ?_, ?_⟩
  · rw [hq]
    exact .none a
  · rw [hb, if_pos rfl]
    exact .some ho
  · intro r hr _
    rw [hb, if_neg hr]
  · rw [hb, if_neg hne]

theorem Drops.of_blocks_eq (hl : SameLists t v) (hb : v.heap.blocks = t.heap.blocks) :
    Drops a t v := ⟨hl, by rw [hb]; exact Around.refl a _, by rw [hb]⟩

theorem bnAllocMax_spec {y : Attr} {m : Member} (h0 : t.heap.blocks 0 = none)
    (ha : t.heap.blocks a = some (.obj x)) (hq : t.heap.blocks q = some (.attr a y)) :
    wp (bnAllocMax a q m) (fun ok v => Drops a t v ∧ ∃ bn, v.heap.blocks q = some (.attr a (y.put m bn)) ∧
      (ok = true → IsBignum v.heap.blocks a m bn) ∧ (ok = false → bn = 0) ∧
      ∀ m' r, IsBignum t.heap.blocks a m' r → IsBignum v.heap.blocks a m' r) t := by
  rw [bnAllocMax, wp_bind]
  apply alloc_cases
  · intro v hl hb
    have hd : Drops a t v := .of_blocks_eq hl hb
    have hq' : v.heap.blocks q = some (.attr a y) := by rw [hb, hq]
    rw [wp_bind, wp_setMember hq']
    refine ⟨hd.trans (Drops.store (hd.null h0) (hd.self.trans ha) hq' rfl rfl), 0, ?_, ?_, ?_, ?_⟩
    · rw [Utc.store_blocks, if_pos rfl]
    · intro h; simp at h
    · intro _; rfl
    · rintro m' r ⟨w, hw⟩
      have hr : r ≠ q := by
        rintro rfl
        rw [hq] at hw
        cases hw
      exact ⟨w, by rw [Utc.store_blocks, if_neg hr, hb, hw]⟩
  · intro bn v hbn0 hbn hl hb
    have hd : Drops a t v := .alloc (c := .bignum a m 0) ha hbn0 hbn rfl hl hb
    have hne : q ≠ bn := by
      rintro rfl
      rw [hq] at hbn
      cases hbn
    have hq' : v.heap.blocks q = some (.attr a y) := by rw [hb, if_neg hne, hq]
    rw [wp_bind, wp_setMember hq']
    refine ⟨hd.trans (Drops.store (hd.null h0) (hd.self.trans ha) hq' rfl rfl), bn, ?_, ?_, ?_, ?_⟩
    · rw [Utc.store_blocks, if_pos rfl]
    · intro _
      exact ⟨0, by rw [Utc.store_blocks, if_neg hne.symm, hb, if_pos rfl]⟩
    · intro h; simp [hbn0] at h
    · rintro m' r ⟨w, hw⟩
      have hr : r ≠ q := by
        rintro rfl
        rw [hq] at hw
        cases hw
      have hrb : r ≠ bn := by
        rintro rfl
        rw [hbn] at hw
        cases hw
      exact ⟨w, by rw [Utc.store_blocks, if_neg hr, hb, if_neg hrb, hw]⟩

/-- a member that is `NULL` or a bignum of the object can be released -/
theorem freeBignum_spec {m : Member} {bn : Nat} (h0 : t.heap.blocks 0 = none)
    (ha : t.heap.blocks a = some (.obj x)) (hbn : bn = 0 ∨ IsBignum t.heap.blocks a m bn) :
    wp (teeFree bn) (fun _ v => Drops a t v ∧
      ∀ r c, t.heap.blocks r = some c → (∀ w, c ≠ .bignum a m w) → v.heap.blocks r = some c) t := by
  rcases hbn with rfl | ⟨w, hw⟩
  · rw [wp_teeFree_null]
    exact ⟨Drops.refl a t, fun r c hr _ => hr⟩
  · rw [wp_teeFree (ne_zero_of_null h0 hw) hw (by rintro o ⟨⟩)]
    refine ⟨Drops.erase h0 ha hw rfl, fun r c hr hc => ?_⟩
    rw [Utc.erase_blocks, if_neg, hr]
    rintro rfl
    rw [hw, Option.some_inj] at hr
    exact hc w hr.symm

theorem dropEccKeypair_spec {d e f cv : Nat} (h0 : t.heap.blocks 0 = none)
    (ha : t.heap.blocks a = some (.obj x)) (hq : t.heap.blocks q = some (.attr a (.ecc d e f cv)))
    (hd : d = 0 ∨ IsBignum t.heap.blocks a .d d) (he : e = 0 ∨ IsBignum t.heap.blocks a .x e) :
    wp (dropEccKeypair q) (fun res v => res = teeErrorOutOfMemory ∧ Drops a t v) t := by
  rw [dropEccKeypair, wp_bind, wp_memberAt (w := d) hq rfl, wp_bind]
  refine wp_mono (freeBignum_spec h0 ha hd) fun _ v ⟨hv, hkeep⟩ => ?_
  have hq' := hkeep q _ hq (by rintro w ⟨⟩)
  have he' : e = 0 ∨ IsBignum v.heap.blocks a .x e := by
    rcases he with rfl | ⟨w, hw⟩
    · exact .inl rfl
    · exact .inr ⟨w, hkeep e _ hw (by rintro z ⟨⟩)⟩
  rw [wp_bind, wp_memberAt (w := e) hq' rfl, wp_bind]
  refine wp_mono (freeBignum_spec (hv.null h0) (hv.self.trans ha) he') fun _ v' ⟨hv', _⟩ => ?_
  exact ⟨rfl, hv.trans hv'⟩

/-- the block of an ECC key, or the error of an allocation -/
theorem allocEccKeypair_spec {y : Attr} (h0 : t.heap.blocks 0 = none)
    (ha : t.heap.blocks a = some (.obj x)) (hq : t.heap.blocks q = some (.attr a y)) :
    wp (cryptoAcipherAllocEccKeypair a q) (fun res v => Drops a t v ∧ (res = teeSuccess →
      ∃ d e f cv, v.heap.blocks q = some (.attr a (.ecc d e f cv)) ∧
        IsBignum v.heap.blocks a .d d ∧ IsBignum v.heap.blocks a .x e ∧
        IsBignum v.heap.blocks a .y f)) t := by
  have herr : teeErrorOutOfMemory ≠ teeSuccess := by decide
  have hd0 : Drops a t (t.store q (.attr a (.ecc 0 0 0 0))) := .store h0 ha hq rfl rfl
  have hq0 : (t.store q (.attr a (.ecc 0 0 0 0))).heap.blocks q =
      some (.attr a (.ecc 0 0 0 0)) := by rw [Utc.store_blocks, if_pos rfl]
  rw [cryptoAcipherAllocEccKeypair, wp_bind, wp_storeAt, wp_bind]
  refine wp_mono (bnAllocMax_spec (hd0.null h0) (hd0.self.trans ha) hq0) ?_
  rintro okd t1 ⟨hd1, d, hq1, hokd, hnod, -⟩
  have h1 := hd0.trans hd1
  have ha1 := h1.self.trans ha
  cases okd with
  | false =>
    obtain rfl := hnod rfl
    refine wp_mono (dropEccKeypair_spec (h1.null h0) ha1 hq1 (.inl rfl) (.inl rfl)) ?_
    rintro res v ⟨rfl, hv⟩
    exact ⟨h1.trans hv, fun h => absurd h herr⟩
  | true =>
    rw [if_pos rfl, wp_bind]
    refine wp_mono (bnAllocMax_spec (h1.null h0) ha1 hq1) ?_
    rintro oke t2 ⟨hd2, e, hq2, hoke, hnoe, hkeep2⟩
    have h2 := h1.trans hd2
    have ha2 := h2.self.trans ha
    have hbd2 := hkeep2 _ _ (hokd rfl)
    cases oke with
    | false =>
      obtain rfl := hnoe rfl
      refine wp_mono (dropEccKeypair_spec (h2.null h0) ha2 hq2 (.inr hbd2) (.inl rfl)) ?_
      rintro res v ⟨rfl, hv⟩
      exact ⟨h2.trans hv, fun h => absurd h herr⟩
    | true =>
      rw [if_pos rfl, wp_bind]
      refine wp_mono (bnAllocMax_spec (h2.null h0) ha2 hq2) ?_
      rintro okf t3 ⟨hd3, f, hq3, hokf, -, hkeep3⟩
      have h3 := h2.trans hd3
      have hbd3 := hkeep3 _ _ hbd2
      have hbe3 := hkeep3 _ _ (hoke rfl)
      cases okf with
      | false =>
        refine wp_mono (dropEccKeypair_spec (h3.null h0) (h3.self.trans ha) hq3 (.inr hbd3)
          (.inr hbe3)) ?_
        rintro res v ⟨rfl, hv⟩
        exact ⟨h3.trans hv, fun h => absurd h herr⟩
      | true =>
        rw [if_pos rfl]
        exact ⟨h3, fun _ => ⟨d, e, f, 0, hq3, hbd3, hbe3, hokf rfl⟩⟩

theorem prepareAttr_spec {ty : Nat} {tp : TypeProps} (htp : teeSvcFindTypeProps ty = some tp)
    (h0 : t.heap.blocks 0 = none) (ha : t.heap.blocks a = some (.obj x))
    (hq : t.heap.blocks q = some (.attr a (zeroAttr tp))) :
    wp (prepareAttr a q tp) (fun res v => Drops a t v ∧ (res = teeSuccess →
      ∃ y, v.heap.blocks q = some (.attr a y) ∧ AttrOk v.heap.blocks a tp y)) t := by
  obtain ⟨-, ⟨hecc, hty⟩ | ⟨hecc, hty⟩⟩ := props_cases htp
  · rw [prepareAttr, if_pos hecc]
    refine wp_mono (allocEccKeypair_spec h0 ha hq) ?_
    rintro res v ⟨hd, hres⟩
    refine ⟨hd, fun h => ?_⟩
    obtain ⟨d, e, f, cv, hv, h1, h2, h3⟩ := hres h
    exact ⟨_, hv, hty, h1, h2, h3⟩
  · have hne : ¬ (isEccKeypair tp.objType = true) := by simp [hecc]
    rw [zeroAttr, if_neg hne] at hq
    rw [prepareAttr, if_neg hne]
    simp only [wp_bind, wp_blockAt hq, wp_storeAt, wp_pure]
    refine ⟨.store h0 ha hq rfl rfl, fun _ => ⟨.secret 0 (tp.allocSize - sizeofSecret)
      (List.replicate (tp.allocSize - sizeofSecret) 0), ?_, hty, rfl, Nat.zero_le _, ?_⟩⟩
    · rw [Utc.store_blocks, if_pos rfl]
    · exact List.length_replicate

/-- `t` is `u` with an object `x` at `a` that is in no queue yet -/
structure Building (a : Nat) (x : TeeObj) (u t : Utc) : Prop where
  objects : t.objects = u.objects
  crypStates : t.crypStates = u.crypStates
  made : t.made = Function.update u.made a (u.made a + 1)
  freed : t.freed = u.freed
  around : Around a u.heap.blocks t.heap.blocks
  self : t.heap.blocks a = some (.obj x)

theorem Building.drops (h : Building a x u t) (hd : Drops a t v) : Building a x u v :=
  ⟨hd.objects.trans h.objects, hd.crypStates.trans h.crypStates, hd.made.trans h.made,
    hd.freed.trans h.freed, h.around.trans hd.around, hd.self.trans h.self⟩

theorem Building.store (h : Building a x u t) (x' : TeeObj) :
    Building a x' u (t.store a (.obj x')) := by
  refine ⟨h.objects, h.crypStates, h.made, h.freed, h.around.trans fun r hr => ?_, ?_⟩
  · rw [Utc.store_blocks, if_neg hr]
    exact .inl rfl
  · rw [Utc.store_blocks, if_pos rfl]

theorem Building.null (h : Building a x u t) (ha : a ≠ 0) (h0 : u.heap.blocks 0 = none) :
    t.heap.blocks 0 = none := by
  rcases h.around 0 ha.symm with e | ⟨hne, -⟩
  · rw [e, h0]
  · exact absurd rfl hne

theorem teeObjAlloc_spec : wp teeObjAlloc (fun a t =>
      a = 0 ∧ SameLists u t ∧ t.heap.blocks = u.heap.blocks ∨
      a ≠ 0 ∧ u.heap.blocks a = none ∧ Building a ⟨⟨0, 0, 0, 0, 0⟩, false, 0, 0⟩ u t) u := by
  rw [teeObjAlloc, wp_bind]
  apply alloc_cases
  · intro t hl hb
    exact .inl ⟨rfl, hl, hb⟩
  · intro a t h0 hn hl hb
    rw [if_neg h0]
    refine .inr ⟨h0, hn, hl.objects, hl.crypStates, ?_, hl.freed, ?_, ?_⟩
    · show Function.update t.made a (t.made a + 1) = _
      rw [hl.made]
    · intro r hr
      left
      show t.heap.blocks r = _
      rw [hb, if_neg hr]
    · show t.heap.blocks a = _
      rw [hb, if_pos rfl]

theorem setTypeInfo_spec {ty n : Nat} {Q : Nat → Utc → Prop} (h : t.heap.blocks a = some (.obj x)) :
    wp (setTypeInfo a ty n) Q t ↔ Q teeSuccess (t.store a (.obj { x with info := { x.info with
      objectType := ty, maxKeySize := n, objectUsage := teeUsageDefault } })) := by
  simp only [setTypeInfo, wp_bind, wp_objAt h, wp_storeAt, wp_pure]

/-- what `tee_obj_set_type` puts into a new object, and the sizes it accepts -/
structure Typed (ty n : Nat) (info : ObjectInfo) : Prop where
  eq : info = ⟨ty, 0, n, teeUsageDefault, 0⟩
  sizes : ∃ tp, teeSvcFindTypeProps ty = some tp ∧ n % tp.quanta = 0 ∧ tp.minSize ≤ n ∧
    n ≤ tp.maxSize

/-- A new object gets a type with the blocks of that type, or stays without one. -/
theorem teeObjSetType_spec {ty n : Nat} (hty : ty ≠ teeTypeData) (ha : a ≠ 0)
    (h0 : u.heap.blocks 0 = none) (h : Building a ⟨⟨0, 0, 0, 0, 0⟩, false, 0, 0⟩ u t) :
    wp (teeObjSetType a ty n) (fun res v => ∃ x, Building a x u v ∧ x.busy = false ∧
      (res = teeSuccess → ObjOk v.heap.blocks a x ∧ Typed ty n x.info) ∧
      (res ≠ teeSuccess → x.info.objectType = 0)) t := by
  have hfail : ∀ e, e ≠ teeSuccess → ∀ v, Building a ⟨⟨0, 0, 0, 0, 0⟩, false, 0, 0⟩ u v →
      ∃ x, Building a x u v ∧ x.busy = false ∧
        (e = teeSuccess → ObjOk v.heap.blocks a x ∧ Typed ty n x.info) ∧
        (e ≠ teeSuccess → x.info.objectType = 0) :=
    fun e he v hv => ⟨_, hv, rfl, fun h => absurd h he, fun _ => rfl⟩
  have hns : teeErrorNotSupported ≠ teeSuccess := by decide
  rw [teeObjSetType, wp_bind, wp_objAt h.self, if_neg (not_not.mpr rfl), if_neg hty]
  cases htp : teeSvcFindTypeProps ty with
  | none => exact hfail _ hns t h
  | some tp =>
    dsimp only
    by_cases h1 : n % tp.quanta ≠ 0
    · rw [if_pos h1]
      exact hfail _ hns t h
    by_cases h2 : n < tp.minSize
    · rw [if_neg h1, if_pos h2]
      exact hfail _ hns t h
    by_cases h3 : tp.maxSize < n
    · rw [if_neg h1, if_neg h2, if_pos h3]
      exact hfail _ hns t h
    rw [if_neg h1, if_neg h2, if_neg h3, wp_bind]
    apply alloc_cases
    · intro v hl hb
      have hv := (h.drops (.of_blocks_eq hl hb)).store ⟨⟨0, 0, 0, 0, 0⟩, false, 0, 0⟩
      rw [wp_bind, wp_storeAt, if_pos rfl]
      exact hfail _ (by decide) _ hv
    · intro q v hq0 hqn hl hb
      have hd : Drops a t v := .alloc (c := .attr a (zeroAttr tp)) h.self hq0 hqn rfl hl hb
      have hne : q ≠ a := by
        rintro rfl
        rw [h.self] at hqn
        cases hqn
      have hv := (h.drops hd).store ⟨⟨0, 0, 0, 0, 0⟩, false, 0, q⟩
      have hq' : (v.store a (.obj ⟨⟨0, 0, 0, 0, 0⟩, false, 0, q⟩)).heap.blocks q =
          some (.attr a (zeroAttr tp)) := by
        rw [Utc.store_blocks, if_neg hne, hb, if_pos rfl]
      rw [wp_bind, wp_storeAt, if_neg hq0, wp_bind]
      refine wp_mono (prepareAttr_spec htp (hv.null ha h0) hv.self hq') ?_
      rintro res w ⟨hdw, hres⟩
      have hw := hv.drops hdw
      by_cases hr : res ≠ teeSuccess
      · rw [if_pos hr]
        exact ⟨_, hw, rfl, fun h => absurd h hr, fun _ => rfl⟩
      · obtain ⟨y, hy, hyok⟩ := hres (not_not.mp hr)
        rw [if_neg hr, setTypeInfo_spec hw.self]
        refine ⟨_, hw.store _, rfl, fun _ => ?_, fun h => absurd rfl h⟩
        have hok : ObjOk w.heap.blocks a ⟨⟨ty, 0, n, teeUsageDefault, 0⟩, false, 0, q⟩ :=
          ⟨has_eq_false.mpr (Nat.zero_and _), tp, y, htp, hy, hyok⟩
        refine ⟨hok.frame fun r c hr hro => ?_, rfl, tp, htp, by omega, by omega, by omega⟩
        rw [Utc.store_blocks, if_neg, hr]
        rintro rfl
        rw [hw.self, Option.some_inj] at hr
        subst hr
        cases hro

theorem teeObjFree_untyped (h0 : t.heap.blocks 0 = none) (ha : t.heap.blocks a = some (.obj x))
    (hx : x.info.objectType = 0) {Q : Unit → Utc → Prop} :
    wp (teeObjFree a) Q t ↔ Q () (t.eraseObj a) := by
  have hne := ne_zero_of_null h0 ha
  have hnone : teeSvcFindTypeProps x.info.objectType = none := by
    rw [hx]
    decide
  have hattr : ∀ R : Unit → Utc → Prop, wp (teeObjAttrFree a) R t ↔ R () t := by
    intro R
    rw [teeObjAttrFree, onAttrs, wp_bind, wp_objAt ha, hnone]
    split <;> exact Iff.rfl
  rw [teeObjFree, if_neg hne, wp_bind, hattr, wp_teeFree_obj hne ha]

/-- nothing of the queues and of the views changed -/
structure Unchanged (p : Provider) (u t : Utc) : Prop where
  core : Core p t
  objects : t.objects = u.objects
  crypStates : t.crypStates = u.crypStates
  obj : t.obj = u.obj
  st : t.st = u.st

/-- one object `x` at `a` more -/
structure Added (p : Provider) (a : Nat) (x : TeeObj) (u t : Utc) : Prop where
  core : Core p t
  ne_zero : a ≠ 0
  fresh : u.heap.blocks a = none
  objects : t.objects = a :: u.objects
  crypStates : t.crypStates = u.crypStates
  obj : t.obj = Function.update u.obj a (some x)
  st : t.st = u.st

theorem Core.unchanged (hc : Core p u) (hl : SameLists u t)
    (hb : t.heap.blocks = u.heap.blocks) : Unchanged p u t := by
  have hobj : t.obj = u.obj := by
    funext q
    unfold Utc.obj
    rw [hb]
  have hst : t.st = u.st := by
    funext q
    unfold Utc.st
    rw [hb]
  refine ⟨⟨?_, ?_, ?_, ?_, ?_, ?_, ?_, ?_⟩, hl.objects, hl.crypStates, hobj, hst⟩
  · rw [hb]; exact hc.null
  · rw [hl.objects]; exact hc.objNodup
  · rw [hl.objects, hobj]; exact hc.objMem
  · rw [hl.crypStates]; exact hc.stNodup
  · rw [hl.crypStates, hst]; exact hc.stMem
  · rw [hobj, hb]; exact hc.objOk
  · rw [hst, hb]; exact hc.stOk
  · rw [hl.made, hl.freed, hobj]; exact hc.count

theorem obj_of_none (h : u.heap.blocks a = none) : u.obj a = none := by
  unfold Utc.obj
  rw [h]

theorem st_of_none (h : u.heap.blocks a = none) : u.st a = none := by
  unfold Utc.st
  rw [h]

/-- the object is given up: what stays behind is in no view -/
theorem Building.undone (hc : Core p u) (ha : a ≠ 0) (hn : u.heap.blocks a = none)
    (h : Building a x u t) : Unchanged p u (t.eraseObj a) := by
  have har : Around a u.heap.blocks (t.eraseObj a).heap.blocks := by
    refine h.around.trans fun q hq => .inl ?_
    rw [Utc.eraseObj_blocks, if_neg hq]
  have hself : (t.eraseObj a).heap.blocks a = none := by rw [Utc.eraseObj_blocks, if_pos rfl]
  have hobj : (t.eraseObj a).obj = u.obj := by
    funext q
    by_cases hq : q = a
    · rw [hq, obj_of_none hself, obj_of_none hn]
    · exact har.obj hq
  refine ⟨hc.around ha har ?_ h.crypStates (st_of_none hn) (st_of_none hself) ?_ ?_ ?_ ?_,
    h.objects, h.crypStates, hobj, har.st_eq (st_of_none hn) (st_of_none hself)⟩
  · intro c hcb
    rw [hn] at hcb
    cases hcb
  · show t.objects.Nodup
    rw [h.objects]
    exact hc.objNodup
  · intro q
    show q ∈ t.objects ↔ _
    rw [h.objects, hobj]
    exact hc.objMem q
  · intro y hy
    rw [obj_of_none hself] at hy
    cases hy
  · intro q
    rw [hobj]
    show t.made q = Function.update t.freed a (t.freed a + 1) q + _
    rw [h.made, h.freed]
    have hcq := hc.count q
    by_cases hq : q = a
    · subst hq
      rw [Function.update_self, Function.update_self, hcq, obj_of_none hn]
      rfl
    · rw [Function.update_of_ne hq, Function.update_of_ne hq, hcq]

theorem Building.added (hc : Core p u) (ha : a ≠ 0) (hn : u.heap.blocks a = none)
    (h : Building a x u t) (hok : ObjOk t.heap.blocks a x) :
    Added p a x u { t with objects := a :: t.objects } := by
  have hself := Utc.obj_iff.mpr h.self
  have hobj : t.obj = Function.update u.obj a (some x) := by
    funext q
    by_cases hq : q = a
    · rw [hq, hself, Function.update_self]
    · rw [h.around.obj hq, Function.update_of_ne hq]
  have hst : t.st = u.st := h.around.st_eq (st_of_none hn) (st_of_obj h.self)
  have hmem : a ∉ u.objects := by
    intro hmem
    obtain ⟨y, hy⟩ := hc.objBlock hmem
    rw [hn] at hy
    cases hy
  refine ⟨hc.around ha h.around ?_ h.crypStates (st_of_none hn) (st_of_obj h.self) ?_ ?_ ?_ ?_,
    ha, hn, by rw [h.objects], h.crypStates, hobj, hst⟩
  · intro c hcb
    rw [hn] at hcb
    cases hcb
  · show (a :: t.objects).Nodup
    rw [h.objects]
    exact List.nodup_cons.mpr ⟨hmem, hc.objNodup⟩
  · intro q
    show q ∈ a :: t.objects ↔ (t.obj q).isSome
    rw [h.objects, hobj, List.mem_cons, hc.objMem q]
    by_cases hq : q = a
    · simp [hq]
    · rw [Function.update_of_ne hq]
      simp [hq]
  · intro y hy
    have hy' : t.obj a = some y := hy
    rw [hself, Option.some_inj] at hy'
    subst hy'
    exact hok
  · intro q
    show t.made q = t.freed q + if (t.obj q).isSome then 1 else 0
    rw [h.made, h.freed, hobj]
    have hcq := hc.count q
    by_cases hq : q = a
    · subst hq
      rw [Function.update_self, Function.update_self, hcq, obj_of_none hn]
      simp
    · rw [Function.update_of_ne hq, Function.update_of_ne hq, hcq]

/-- **An allocation adds one object, or leaves the objects as they were.** -/
theorem uteeCrypObjAlloc_spec (hc : Core p u) {ty n : Nat} :
    wp (uteeCrypObjAlloc ty n) (fun r t => r.1 ≠ teeSuccess ∧ Unchanged p u t ∨
      r.1 = teeSuccess ∧ ∃ x, x.busy = false ∧ Added p r.2 x u t ∧ Typed ty n x.info) u := by
  rw [uteeCrypObjAlloc]
  by_cases hty : ty = teeTypeData
  · rw [if_pos hty]
    exact .inl ⟨by decide, hc.unchanged (SameLists.refl u) rfl⟩
  rw [if_neg hty, wp_bind]
  refine wp_mono teeObjAlloc_spec ?_
  rintro a t (⟨rfl, hl, hb⟩ | ⟨ha, hn, hbd⟩)
  · exact .inl ⟨by decide, hc.unchanged hl hb⟩
  · rw [if_neg ha, wp_bind]
    refine wp_mono (teeObjSetType_spec hty ha hc.null hbd) ?_
    rintro res v ⟨x, hv, hbusy, hok, hun⟩
    by_cases hr : res ≠ teeSuccess
    · rw [if_pos hr, wp_bind, teeObjFree_untyped (hv.null ha hc.null) hv.self (hun hr)]
      exact .inl ⟨hr, hv.undone hc ha hn⟩
    · have hread : Readable objAt (v.objects.take 1) v := by
        intro q hq
        rw [hv.objects] at hq
        obtain ⟨y, hy⟩ := hc.objBlock (List.mem_of_mem_take hq)
        have hqa : q ≠ a := by
          rintro rfl
          rw [hn] at hy
          cases hy
        refine ⟨y, objAt_eq (Utc.obj_iff.mp ?_)⟩
        rw [hv.around.obj hqa]
        exact Utc.obj_iff.mpr hy
      rw [if_neg hr, wp_bind, teeObjAdd, wp_bind, wp_get, wp_bind, wp_touch hread, wp_modify]
      obtain ⟨hobj, htyped⟩ := hok (not_not.mp hr)
      exact .inr ⟨rfl, x, hbusy, hv.added hc ha hn hobj, htyped⟩

end

end

/-! ## states -/

section
variable {p : Provider} {u t v : Utc} {s : Nat} {cs : CrypState}

theorem Around.obj_eq (h : Around s u.heap.blocks t.heap.blocks) (hu : u.obj s = none)
    (ht : t.obj s = none) : t.obj = u.obj := by
  funext q
  by_cases hq : q = s
  · rw [hq, hu, ht]
  · exact h.obj hq

/-- `Core.around`, for a state in the place of an object -/
theorem Core.aroundState (hc : Core p u) (h0 : s ≠ 0) (h : Around s u.heap.blocks t.heap.blocks)
    (hown : ∀ c, u.heap.blocks s = some c → c.owner = none) (hobjs : t.objects = u.objects)
    (hmade : t.made = u.made) (hfreed : t.freed = u.freed) (hu : u.obj s = none)
    (ht : t.obj s = none) (hnd : t.crypStates.Nodup)
    (hmem : ∀ a, a ∈ t.crypStates ↔ (t.st a).isSome)
    (hok : ∀ cs, t.st s = some cs → StateOk p t.heap.blocks s cs) : Core p t where
  null := by
    rcases h 0 h0.symm with e | ⟨hne, -⟩
    · rw [e, hc.null]
    · exact absurd rfl hne
  objNodup := by rw [hobjs]; exact hc.objNodup
  objMem := by
    intro a
    rw [hobjs, h.obj_eq hu ht]
    exact hc.objMem a
  stNodup := hnd
  stMem := hmem
  objOk := by
    intro a x hx
    rw [h.obj_eq hu ht] at hx
    have has : a ≠ s := by
      rintro rfl
      rw [hu] at hx
      cases hx
    exact (hc.objOk a x hx).frame fun q c hq hqo => h.other hown has hq hqo
  stOk := by
    intro r cs hr
    by_cases hrs : r = s
    · subst hrs
      exact hok cs hr
    · rw [h.st hrs] at hr
      exact (hc.stOk r cs hr).frame fun q c hq hqo => h.other hown hrs hq hqo
  count := by
    intro a
    rw [hmade, hfreed, h.obj_eq hu ht]
    exact hc.count a

theorem Core.storeObj (hc : Core p u) {a : Nat} {x x' : TeeObj}
    (ha : u.heap.blocks a = some (.obj x)) (hattr : x'.attr = x.attr) (hinfo : x'.info = x.info) :
    Core p (u.store a (.obj x')) := by
  have har : Around a u.heap.blocks (u.store a (.obj x')).heap.blocks := by
    intro q hq
    rw [Utc.store_blocks, if_neg hq]
    exact .inl rfl
  have hself : (u.store a (.obj x')).heap.blocks a = some (.obj x') := by
    rw [Utc.store_blocks, if_pos rfl]
  have hsome : ∀ q, ((u.store a (.obj x')).obj q).isSome = (u.obj q).isSome := by
    intro q
    by_cases hq : q = a
    · rw [hq, Utc.obj_iff.mpr hself, Utc.obj_iff.mpr ha]
      rfl
    · rw [har.obj hq]
  refine hc.around (hc.live_ne_null ha) har ?_ rfl (st_of_obj ha) (st_of_obj hself) hc.objNodup
    ?_ ?_ ?_
  · intro c hcb
    rw [ha, Option.some_inj] at hcb
    subst hcb
    rfl
  · intro q
    rw [hsome]
    exact hc.objMem q
  · intro y hy
    rw [Utc.obj_iff.mpr hself, Option.some_inj] at hy
    subst hy
    obtain ⟨htr, tp, z, htp, hz, hzok⟩ := hc.objOk a x (Utc.obj_iff.mpr ha)
    have hok : ObjOk u.heap.blocks a x' :=
      ⟨by rw [hinfo]; exact htr, tp, z, by rw [hinfo]; exact htp, by rw [hattr]; exact hz, hzok⟩
    refine hok.frame fun r c hr hro => ?_
    rw [Utc.store_blocks, if_neg, hr]
    rintro rfl
    rw [ha, Option.some_inj] at hr
    subst hr
    cases hro
  · intro q
    rw [hsome]
    exact hc.count q

theorem releaseKey_absent (hc : Core p u) {k : Nat} (hk : k ∉ u.objects) {Q : Unit → Utc → Prop} :
    wp (releaseKey k) Q u ↔ Q () u := by
  have hne : ¬ (teeErrorBadParameters = teeSuccess) := by decide
  rw [releaseKey, wp_bind, wp_teeObjGet hc, if_neg hk, if_neg hne, wp_pure]

theorem releaseKey_spec (hc : Core p u) (k : Nat) :
    wp (releaseKey k) (fun _ t => Closed p k u t) u := by
  by_cases hk : k ∈ u.objects
  · rw [releaseKey, wp_bind, wp_teeObjGet hc, if_pos hk, if_pos rfl]
    exact teeObjClose_spec hc hk
  · have hnone : u.obj k = none := by
      cases e : u.obj k with
      | none => rfl
      | some x => exact absurd ((hc.objMem k).mpr (by rw [e]; rfl)) hk
    rw [releaseKey_absent hc hk]
    refine ⟨hc, (List.erase_of_not_mem hk).symm, rfl, fun q => ?_, rfl, rfl⟩
    by_cases hq : q = k
    · rw [if_pos hq, hq, hnone]
    · rw [if_neg hq]

/-- the state `s` is unlinked and released with its context -/
def Utc.dropState (u : Utc) (s ctx : Nat) : Utc :=
  { u with crypStates := u.crypStates.erase s
           heap := (if ctx = 0 then u.heap else u.heap.erase ctx).erase s }

theorem wp_freeCtx {Q : Unit → Utc → Prop} (h0 : u.heap.blocks 0 = none)
    (hok : StateOk p u.heap.blocks s cs) :
    wp (freeCtx p cs.ctx cs.algo) Q u ↔ Q () (if cs.ctx = 0 then u else u.erase cs.ctx) := by
  rcases hok.ctx with hz | ⟨hb, hk⟩
  · have hn : ¬ (cs.ctx ≠ 0 ∧ ctxKnown p cs.algo = false) := fun h => h.1 hz
    rw [freeCtx, if_neg hn, if_pos hz, hz, wp_teeFree_null]
  · have hn : ¬ (cs.ctx ≠ 0 ∧ ctxKnown p cs.algo = false) := by
      rintro ⟨-, h⟩
      rw [hk] at h
      cases h
    have hne := ne_zero_of_null h0 hb
    rw [freeCtx, if_neg hn, if_neg hne, wp_teeFree hne hb (by rintro o ⟨⟩)]

theorem wp_crypStateFree_tail (hc : Core p u) (hs : u.st s = some cs) {Q : Unit → Utc → Prop} :
    wp (do removeState s; finalizeCtx cs; freeCtx p cs.ctx cs.algo; teeFree s) Q u ↔
      Q () (u.dropState s cs.ctx) := by
  have hb := Utc.st_iff.mp hs
  have hok := hc.stOk s cs hs
  have hmem : s ∈ u.crypStates := (hc.stMem s).mpr (by rw [hs]; rfl)
  have hfin : ∀ R : Unit → Utc → Prop,
      wp (finalizeCtx cs) R { u with crypStates := u.crypStates.erase s } ↔
        R () { u with crypStates := u.crypStates.erase s } := by
    intro R
    rw [finalizeCtx]
    by_cases hf : cs.ctxFinalize = true
    · obtain ⟨hctx, -⟩ := hok.ctx.resolve_left (hok.finalize hf)
      rw [if_pos hf, wp_bind]
      exact wp_blockAt (u := { u with crypStates := u.crypStates.erase s }) hctx
    · rw [if_neg hf, wp_pure]
  rw [wp_bind, wp_removeState hc hmem, wp_bind, hfin, wp_bind, wp_freeCtx (u := { u with crypStates := u.crypStates.erase s }) hc.null hok]
  have hne : cs.ctx ≠ 0 → s ≠ cs.ctx := by
    rintro hz rfl
    rcases hok.ctx with h | ⟨h, -⟩
    · exact hz h
    · rw [hb] at h
      cases h
  by_cases hz : cs.ctx = 0
  · simp only [if_pos hz, Utc.dropState]
    rw [wp_teeFree (u := { u with crypStates := u.crypStates.erase s }) (hc.live_ne_null hb) hb
      (by rintro o ⟨⟩)]
    exact Iff.rfl
  · simp only [if_neg hz, Utc.dropState]
    rw [wp_teeFree (b := .state cs) (hc.live_ne_null hb) ?_ (by rintro o ⟨⟩)]
    · exact Iff.rfl
    · rw [Utc.erase_blocks, if_neg (hne hz)]
      exact hb

theorem dropState_blocks (q ctx : Nat) : (u.dropState s ctx).heap.blocks q =
    if q = s ∨ ctx ≠ 0 ∧ q = ctx then none else u.heap.blocks q := by
  unfold Utc.dropState
  by_cases hz : ctx = 0
  · simp [hz, Heap.erase, Function.update_apply]
  · by_cases hs : q = s
    · simp [hz, hs, Heap.erase]
    · by_cases hq : q = ctx <;> simp [hz, hs, hq, Heap.erase, Function.update_apply]

/-- the state `s` is gone with its context -/
structure DroppedState (p : Provider) (s : Nat) (u t : Utc) : Prop where
  core : Core p t
  objects : t.objects = u.objects
  crypStates : t.crypStates = u.crypStates.erase s
  obj : t.obj = u.obj
  st : ∀ q, t.st q = if q = s then none else u.st q
  made : t.made = u.made

theorem dropState_spec (hc : Core p u) (hs : u.st s = some cs) :
    DroppedState p s u (u.dropState s cs.ctx) := by
  have hb := Utc.st_iff.mp hs
  have hok := hc.stOk s cs hs
  have har : Around s u.heap.blocks (u.dropState s cs.ctx).heap.blocks := by
    intro q hq
    rw [dropState_blocks]
    by_cases hctx : cs.ctx ≠ 0 ∧ q = cs.ctx
    · right
      rcases hok.ctx with h | ⟨h, -⟩
      · exact absurd h hctx.1
      · rw [if_pos (.inr hctx), hctx.2, h]
        exact ⟨hctx.1, .some rfl, .none s⟩
    · left
      rw [if_neg]
      rintro (h | h)
      · exact hq h
      · exact hctx h
  have hself : (u.dropState s cs.ctx).heap.blocks s = none := by
    rw [dropState_blocks, if_pos (.inl rfl)]
  have hst : ∀ q, (u.dropState s cs.ctx).st q = if q = s then none else u.st q := by
    intro q
    by_cases hq : q = s
    · rw [if_pos hq, hq, st_of_none hself]
    · rw [if_neg hq, har.st hq]
  refine ⟨hc.aroundState (hc.live_ne_null hb) har ?_ rfl rfl rfl (obj_of_st hb) (obj_of_none hself)
    (hc.stNodup.erase s) ?_ ?_, rfl, rfl, har.obj_eq (obj_of_st hb) (obj_of_none hself), hst, rfl⟩
  · intro c hcb
    rw [hb, Option.some_inj] at hcb
    subst hcb
    rfl
  · intro q
    show q ∈ u.crypStates.erase s ↔ _
    rw [hc.stNodup.mem_erase_iff, hc.stMem, hst]
    by_cases hq : q = s <;> simp [hq]
  · intro y hy
    rw [st_of_none hself] at hy
    cases hy

/-- what is left once the state `s` with the fields `cs` is freed -/
structure FreedState (p : Provider) (s : Nat) (cs : CrypState) (u t : Utc) : Prop where
  core : Core p t
  objects : t.objects = (u.objects.erase cs.key1).erase cs.key2
  crypStates : t.crypStates = u.crypStates.erase s
  obj : ∀ q, t.obj q = if q = cs.key1 ∨ q = cs.key2 then none else u.obj q
  st : ∀ q, t.st q = if q = s then none else u.st q
  made : t.made = u.made

/-- **Freeing a state closes its keys and nothing else.** -/
theorem crypStateFree_spec (hc : Core p u) (hs : u.st s = some cs) :
    wp (crypStateFree p s) (fun _ t => FreedState p s cs u t) u := by
  rw [crypStateFree, wp_bind, wp_stateAt (Utc.st_iff.mp hs), wp_bind]
  refine wp_mono (releaseKey_spec hc cs.key1) fun _ t1 h1 => ?_
  rw [wp_bind]
  refine wp_mono (releaseKey_spec h1.core cs.key2) fun _ t2 h2 => ?_
  have hs2 : t2.st s = some cs := by rw [h2.st, h1.st, hs]
  rw [wp_crypStateFree_tail h2.core hs2]
  have hd := dropState_spec h2.core hs2
  refine ⟨hd.core, ?_, ?_, fun q => ?_, fun q => ?_, ?_⟩
  · rw [hd.objects, h2.objects, h1.objects]
  · rw [hd.crypStates, h2.crypStates, h1.crypStates]
  · rw [hd.obj, h2.obj, h1.obj]
    by_cases hq2 : q = cs.key2
    · rw [if_pos hq2, if_pos (.inr hq2)]
    · rw [if_neg hq2]
      by_cases hq1 : q = cs.key1
      · rw [if_pos hq1, if_pos (.inl hq1)]
      · rw [if_neg hq1, if_neg (by rintro (h | h) <;> contradiction)]
  · rw [hd.st, h2.st, h1.st]
  · rw [hd.made, h2.made, h1.made]

end

/-! ## allocating a state -/

section
variable {p : Provider} {u t v : Utc} {s : Nat} {cs : CrypState} {algo mode key1 key2 : Nat}

/-- `k` is no key, or an object that no state uses and that fits the algorithm -/
def KeyFree (u : Utc) (algo mode k : Nat) : Prop :=
  k = 0 ∨ ∃ x, u.obj k = some x ∧ x.busy = false ∧ teeSvcCrypCheckKeyType x algo mode = teeSuccess

theorem checkKey_spec (hc : Core p u) (k : Nat) :
    wp (checkKey algo mode k)
      (fun r t => u = t ∧ (r = teeSuccess → KeyFree u algo mode k)) u := by
  have hne : teeErrorBadParameters ≠ teeSuccess := by decide
  rw [checkKey]
  by_cases hk : k = 0
  · rw [if_pos hk]
    exact ⟨rfl, fun _ => .inl hk⟩
  rw [if_neg hk, wp_bind, wp_teeObjGet hc]
  by_cases hm : k ∈ u.objects
  · obtain ⟨x, hx⟩ := hc.objBlock hm
    rw [if_pos hm, if_neg (not_not.mpr rfl), wp_bind, wp_objAt hx]
    cases hb : x.busy with
    | true =>
      rw [if_pos rfl]
      exact ⟨rfl, fun h => absurd h hne⟩
    | false =>
      rw [if_neg (by simp)]
      exact ⟨rfl, fun h => .inr ⟨x, Utc.obj_iff.mpr hx, hb, h⟩⟩
  · rw [if_neg hm, if_pos hne]
    exact ⟨rfl, fun h => absurd h hne⟩

/-- `t` is `u` with a state `cs` at `s`, at the head of the queue -/
structure WithState (p : Provider) (s : Nat) (cs : CrypState) (u t : Utc) : Prop where
  core : Core p t
  objects : t.objects = u.objects
  crypStates : t.crypStates = s :: u.crypStates
  made : t.made = u.made
  freed : t.freed = u.freed
  around : Around s u.heap.blocks t.heap.blocks
  self : t.heap.blocks s = some (.state cs)

theorem WithState.st (h : WithState p s cs u t) : t.st = Function.update u.st s (some cs) := by
  funext q
  by_cases hq : q = s
  · rw [hq, Function.update_self]
    exact Utc.st_iff.mpr h.self
  · rw [Function.update_of_ne hq, h.around.st hq]

theorem WithState.obj (hn : u.heap.blocks s = none) (h : WithState p s cs u t) : t.obj = u.obj :=
  h.around.obj_eq (obj_of_none hn) (obj_of_st h.self)

theorem withState_of (hc : Core p u) (h0 : s ≠ 0) (hn : u.heap.blocks s = none)
    (hobjs : t.objects = u.objects) (hsts : t.crypStates = s :: u.crypStates)
    (hmade : t.made = u.made) (hfreed : t.freed = u.freed)
    (har : Around s u.heap.blocks t.heap.blocks) (hself : t.heap.blocks s = some (.state cs))
    (hok : StateOk p t.heap.blocks s cs) : WithState p s cs u t := by
  have hst : t.st s = some cs := Utc.st_iff.mpr hself
  have hmem : s ∉ u.crypStates := by
    intro hm
    obtain ⟨cs', hcs'⟩ := hc.stBlock hm
    rw [hn] at hcs'
    cases hcs'
  refine ⟨hc.aroundState h0 har ?_ hobjs hmade hfreed (obj_of_none hn) (obj_of_st hself) ?_ ?_ ?_,
    hobjs, hsts, hmade, hfreed, har, hself⟩
  · intro c hcb
    rw [hn] at hcb
    cases hcb
  · rw [hsts]
    exact List.nodup_cons.mpr ⟨hmem, hc.stNodup⟩
  · intro q
    rw [hsts, List.mem_cons, hc.stMem q]
    by_cases hq : q = s
    · simp [hq, hst]
    · rw [har.st hq]
      simp [hq]
  · intro cs' hcs'
    rw [hst, Option.some_inj] at hcs'
    subst hcs'
    exact hok

/-- what the switch of `utee_cryp_state_alloc` does to a new state: on an error it only asked the
allocator, on success it may have given the state a context -/
def Prepared (p : Provider) (s algo : Nat) (cs : CrypState) (t : Utc) (res : Nat) (v : Utc) :
    Prop :=
  (res ≠ teeSuccess ∧ SameLists t v ∧ v.heap.blocks = t.heap.blocks) ∨
  (res = teeSuccess ∧ SameLists t v ∧ ∃ ctx, Around s t.heap.blocks v.heap.blocks ∧
    v.heap.blocks s = some (.state { cs with ctx := ctx }) ∧
    (ctx = 0 ∨ v.heap.blocks ctx = some (.ctx s) ∧ ctxKnown p algo = true))

theorem prepared_fail {cs : CrypState} {e : Nat} (he : e ≠ teeSuccess) :
    Prepared p s algo cs t e t := .inl ⟨he, SameLists.refl t, rfl⟩

theorem prepared_bare {cs : CrypState} (hs : t.heap.blocks s = some (.state cs))
    (hz : cs.ctx = 0) : Prepared p s algo cs t teeSuccess t := by
  refine .inr ⟨rfl, SameLists.refl t, 0, Around.refl s _, ?_, .inl rfl⟩
  rw [← hz]
  exact hs

theorem allocCtx_spec {known : Nat → Bool} {cs : CrypState} (h0 : t.heap.blocks 0 = none)
    (hs : t.heap.blocks s = some (.state cs)) (hk : known algo = true → ctxKnown p algo = true) :
    wp (allocCtx known s algo) (fun res v => Prepared p s algo cs t res v) t := by
  rw [allocCtx]
  by_cases hkn : known algo = false
  · rw [if_pos hkn]
    exact prepared_fail (by decide)
  rw [if_neg hkn, wp_bind]
  apply alloc_cases
  · intro v hl hb
    rw [if_pos rfl]
    exact .inl ⟨by decide, hl, hb⟩
  · intro q v hq0 hqn hl hb
    have hne : s ≠ q := by
      rintro rfl
      rw [hs] at hqn
      cases hqn
    have hsv : v.heap.blocks s = some (.state cs) := by rw [hb, if_neg hne, hs]
    rw [if_neg hq0, wp_bind, wp_stateAt hsv, wp_bind, wp_storeAt]
    refine .inr ⟨rfl, ⟨hl.objects, hl.crypStates, hl.made, hl.freed⟩, q, ?_, ?_, .inr ⟨?_, ?_⟩⟩
    · refine Around.of_eq hq0 (by rw [hqn]; exact .none s) ?_ ?_
      · rw [Utc.store_blocks, if_neg hne.symm, hb, if_pos rfl]
        exact .some rfl
      · intro r hr hrs
        rw [Utc.store_blocks, if_neg hrs, hb, if_neg hr]
    · rw [Utc.store_blocks, if_pos rfl]
    · rw [Utc.store_blocks, if_neg hne.symm, hb, if_pos rfl]
    · exact hk (by simpa using hkn)

theorem prepareState_spec {cs : CrypState} (h0 : t.heap.blocks 0 = none)
    (hs : t.heap.blocks s = some (.state cs)) (hz : cs.ctx = 0) :
    wp (prepareState p s algo key1 key2) (fun res v => Prepared p s algo cs t res v) t := by
  have hbad : teeErrorBadParameters ≠ teeSuccess := by decide
  have hns : teeErrorNotSupported ≠ teeSuccess := by decide
  rw [prepareState]
  by_cases h1 : teeAlgGetClass algo = teeOperationCipher
  · rw [if_pos h1]
    split
    · exact prepared_fail hbad
    · refine allocCtx_spec h0 hs fun hk => ?_
      rw [ctxKnown, if_pos h1, hk]
  rw [if_neg h1]
  by_cases h2 : teeAlgGetClass algo = teeOperationAe
  · rw [if_pos h2]
    split
    · exact prepared_fail hbad
    · exact prepared_bare hs hz
  rw [if_neg h2]
  by_cases h3 : teeAlgGetClass algo = teeOperationMac
  · have h5 : ¬ teeAlgGetClass algo = teeOperationDigest := by
      rw [h3]
      decide
    rw [if_pos h3]
    split
    · exact prepared_fail hbad
    · refine allocCtx_spec h0 hs fun hk => ?_
      rw [ctxKnown, if_neg h1, if_neg h5, if_pos h3, hk]
  rw [if_neg h3]
  by_cases h5 : teeAlgGetClass algo = teeOperationDigest
  · rw [if_pos h5]
    split
    · exact prepared_fail hbad
    · refine allocCtx_spec h0 hs fun hk => ?_
      rw [ctxKnown, if_neg h1, if_pos h5, hk]
  rw [if_neg h5]
  split
  · split
    · exact prepared_fail hbad
    · exact prepared_bare hs hz
  · split
    · split
      · exact prepared_fail hbad
      · exact prepared_bare hs hz
    · exact prepared_fail hns

/-- `busy` set on the objects `key1` and `key2` -/
def busied (key1 key2 : Nat) (obj : Nat → Option TeeObj) (q : Nat) : Option TeeObj :=
  if q = key1 ∨ q = key2 then (obj q).map fun x => { x with busy := true } else obj q

/-- one state more, with its keys -/
structure Registered (p : Provider) (s algo mode key1 key2 : Nat) (u t : Utc) : Prop where
  core : Core p t
  ne_zero : s ≠ 0
  fresh : u.heap.blocks s = none
  free1 : KeyFree u algo mode key1
  free2 : KeyFree u algo mode key2
  objects : t.objects = u.objects
  crypStates : t.crypStates = s :: u.crypStates
  made : t.made = u.made
  freed : t.freed = u.freed
  obj : t.obj = busied key1 key2 u.obj
  st : ∃ ctx, t.st = Function.update u.st s (some ⟨algo, mode, key1, key2, ctx, false⟩)

/-- `t` is `u` with other objects in the places of objects -/
structure Marked (p : Provider) (f : Nat → Option TeeObj) (u t : Utc) : Prop extends SameLists u t where
  core : Core p t
  obj : t.obj = f
  st : t.st = u.st

theorem setBusy_spec (hc : Core p u) {k : Nat} (hk : k = 0 ∨ ∃ x, u.obj k = some x) :
    wp (setBusy k) (fun _ t => Marked p (busied k k u.obj) u t) u := by
  have h0 : u.obj 0 = none := obj_of_none hc.null
  rw [setBusy]
  by_cases hz : k = 0
  · subst hz
    rw [if_pos rfl]
    refine ⟨SameLists.refl u, hc, ?_, rfl⟩
    funext q
    by_cases hq : q = 0
    · rw [busied, if_pos (.inl hq), hq, h0]
      rfl
    · rw [busied, if_neg (by rintro (h | h) <;> exact hq h)]
  · obtain ⟨x, hx⟩ := hk.resolve_left hz
    have hb := Utc.obj_iff.mp hx
    rw [if_neg hz, wp_bind, wp_objAt hb, wp_storeAt]
    have hself : (u.store k (.obj { x with busy := true })).heap.blocks k =
        some (.obj { x with busy := true }) := by rw [Utc.store_blocks, if_pos rfl]
    have har : Around k u.heap.blocks (u.store k (.obj { x with busy := true })).heap.blocks := by
      intro q hq
      rw [Utc.store_blocks, if_neg hq]
      exact .inl rfl
    refine ⟨⟨rfl, rfl, rfl, rfl⟩, hc.storeObj hb rfl rfl, ?_,
      har.st_eq (st_of_obj hb) (st_of_obj hself)⟩
    funext q
    by_cases hq : q = k
    · rw [busied, if_pos (.inl hq), hq, hx, Utc.obj_iff.mpr hself]
      rfl
    · rw [busied, if_neg (by rintro (h | h) <;> exact hq h), har.obj hq]

theorem busied_busied (key1 key2 : Nat) (obj : Nat → Option TeeObj) :
    busied key2 key2 (busied key1 key1 obj) = busied key1 key2 obj := by
  funext q
  simp only [busied, or_self]
  cases obj q with
  | none => simp
  | some x =>
    by_cases h1 : q = key1
    · rw [if_pos h1, if_pos (Or.inl h1)]
      split <;> rfl
    · rw [if_neg h1]
      by_cases h2 : q = key2
      · rw [if_pos h2, if_pos (Or.inr h2)]
      · rw [if_neg h2, if_neg (by rintro (h | h) <;> contradiction)]

theorem KeyFree.exists_obj {k : Nat} (h : KeyFree u algo mode k) :
    k = 0 ∨ ∃ x, u.obj k = some x := by
  rcases h with h | ⟨x, hx, -⟩
  · exact .inl h
  · exact .inr ⟨x, hx⟩

theorem registerKeys_spec {ctx : Nat} (h0 : s ≠ 0) (hn : u.heap.blocks s = none)
    (h : WithState p s ⟨algo, mode, 0, 0, ctx, false⟩ u t) (h1 : KeyFree u algo mode key1)
    (h2 : KeyFree u algo mode key2) :
    wp (registerKeys s key1 key2) (fun _ v => Registered p s algo mode key1 key2 u v) t := by
  have hobj := h.obj hn
  rw [registerKeys, wp_bind]
  refine wp_mono (setBusy_spec h.core (by rw [hobj]; exact h1.exists_obj)) fun _ t1 m1 => ?_
  have hk2 : key2 = 0 ∨ ∃ x, t1.obj key2 = some x := by
    rcases h2.exists_obj with hz | ⟨x, hx⟩
    · exact .inl hz
    · right
      rw [m1.obj, hobj, busied, hx]
      split
      · exact ⟨_, rfl⟩
      · exact ⟨_, rfl⟩
  rw [wp_bind]
  refine wp_mono (setBusy_spec m1.core hk2) fun _ t2 m2 => ?_
  have hst2 : t2.st = Function.update u.st s (some ⟨algo, mode, 0, 0, ctx, false⟩) := by
    rw [m2.st, m1.st, h.st]
  have hs2 : t2.st s = some ⟨algo, mode, 0, 0, ctx, false⟩ := by rw [hst2, Function.update_self]
  have hb2 := Utc.st_iff.mp hs2
  rw [wp_bind, wp_stateAt hb2, wp_storeAt]
  have hself : (t2.store s (.state ⟨algo, mode, key1, key2, ctx, false⟩)).heap.blocks s =
      some (.state ⟨algo, mode, key1, key2, ctx, false⟩) := by rw [Utc.store_blocks, if_pos rfl]
  have har : Around s t2.heap.blocks
      (t2.store s (.state ⟨algo, mode, key1, key2, ctx, false⟩)).heap.blocks := by
    intro q hq
    rw [Utc.store_blocks, if_neg hq]
    exact .inl rfl
  have hobj2 : t2.obj = busied key1 key2 u.obj := by
    rw [m2.obj, m1.obj, hobj, busied_busied]
  refine ⟨?_, h0, hn, h1, h2, ?_, ?_, ?_, ?_, ?_, ctx, ?_⟩
  · refine m2.core.aroundState h0 har ?_ rfl rfl rfl (obj_of_st hb2) (obj_of_st hself)
      m2.core.stNodup ?_ ?_
    · intro c hcb
      rw [hb2, Option.some_inj] at hcb
      subst hcb
      rfl
    · intro q
      show q ∈ t2.crypStates ↔ _
      rw [m2.core.stMem]
      by_cases hq : q = s
      · rw [hq, hs2, Utc.st_iff.mpr hself]
        rfl
      · rw [har.st hq]
    · intro cs hcs
      rw [Utc.st_iff.mpr hself, Option.some_inj] at hcs
      subst hcs
      have hok := m2.core.stOk s _ hs2
      have hok' : StateOk p t2.heap.blocks s ⟨algo, mode, key1, key2, ctx, false⟩ :=
        ⟨hok.ctx, hok.finalize⟩
      refine hok'.frame fun q c hq hqo => ?_
      rw [Utc.store_blocks, if_neg, hq]
      rintro rfl
      rw [hb2, Option.some_inj] at hq
      subst hq
      cases hqo
  · exact m2.objects.trans (m1.objects.trans h.objects)
  · exact m2.crypStates.trans (m1.crypStates.trans h.crypStates)
  · exact m2.made.trans (m1.made.trans h.made)
  · exact m2.freed.trans (m1.freed.trans h.freed)
  · rw [har.obj_eq (obj_of_st hb2) (obj_of_st hself), hobj2]
  · funext q
    by_cases hq : q = s
    · rw [hq, Function.update_self]
      exact Utc.st_iff.mpr hself
    · rw [har.st hq, hst2, Function.update_of_ne hq, Function.update_of_ne hq]

/-- a new state without keys is freed again: the heap is what it was -/
theorem stateAlloc_undone {t : Utc} (hc : Core p u) (h0 : s ≠ 0) (hn : u.heap.blocks s = none)
    (h : WithState p s ⟨algo, mode, 0, 0, 0, false⟩ u t)
    (hother : ∀ q, q ≠ s → t.heap.blocks q = u.heap.blocks q) (hl : SameLists t v)
    (hb : v.heap.blocks = t.heap.blocks) :
    wp (crypStateFree p s) (fun _ v' => SameLists u v' ∧ v'.heap.blocks = u.heap.blocks) v := by
  have hcv := (h.core.unchanged hl hb).core
  have hself : v.heap.blocks s = some (.state ⟨algo, mode, 0, 0, 0, false⟩) := by rw [hb, h.self]
  rw [crypStateFree, wp_bind, wp_stateAt hself, wp_bind, releaseKey_absent hcv hcv.zero_notMem,
    wp_bind, releaseKey_absent hcv hcv.zero_notMem,
    wp_crypStateFree_tail hcv (Utc.st_iff.mpr hself)]
  refine ⟨⟨hl.objects.trans h.objects, ?_, hl.made.trans h.made, hl.freed.trans h.freed⟩, ?_⟩
  · show v.crypStates.erase s = _
    rw [hl.crypStates, h.crypStates, List.erase_cons_head]
  · funext q
    rw [dropState_blocks]
    by_cases hq : q = s
    · rw [if_pos (.inl hq), hq, hn]
    · rw [if_neg, hb, hother q hq]
      rintro (e | ⟨e, -⟩)
      · exact hq e
      · exact e rfl

/-- **A failed allocation leaves no trace, a successful one registers the keys.** -/
theorem uteeCrypStateAlloc_spec (hc : Core p u) :
    wp (uteeCrypStateAlloc p algo mode key1 key2) (fun r t =>
      r.1 ≠ teeSuccess ∧ SameLists u t ∧ t.heap.blocks = u.heap.blocks ∨
      r.1 = teeSuccess ∧ Registered p r.2 algo mode key1 key2 u t) u := by
  rw [uteeCrypStateAlloc, wp_bind]
  refine wp_mono (checkKey_spec hc key1) ?_
  rintro r1 t1 ⟨rfl, hf1⟩
  by_cases hr1 : r1 ≠ teeSuccess
  · rw [if_pos hr1]
    exact .inl ⟨hr1, SameLists.refl _, rfl⟩
  rw [if_neg hr1, wp_bind]
  refine wp_mono (checkKey_spec hc key2) ?_
  rintro r2 t2 ⟨rfl, hf2⟩
  by_cases hr2 : r2 ≠ teeSuccess
  · rw [if_pos hr2]
    exact .inl ⟨hr2, SameLists.refl _, rfl⟩
  have hk1 := hf1 (not_not.mp hr1)
  have hk2 := hf2 (not_not.mp hr2)
  rw [if_neg hr2, wp_bind]
  apply alloc_cases
  · intro t hl hb
    rw [if_pos rfl]
    exact .inl ⟨by decide, hl, hb⟩
  intro s t h0 hn hl hb
  rw [if_neg h0]
  have hread : Readable stateAt (t.crypStates.take 1) t := by
    intro q hq
    rw [hl.crypStates] at hq
    obtain ⟨cs, hcs⟩ := hc.stBlock (List.mem_of_mem_take hq)
    refine ⟨cs, stateAt_eq ?_⟩
    rw [hb, if_neg, hcs]
    rintro rfl
    rw [hn] at hcs
    cases hcs
  rw [wp_bind, insertState, wp_bind, wp_get, wp_bind, wp_touch hread, wp_modify, wp_bind, wp_storeAt,
    wp_bind]
  -- the new state is in the queue, without keys and without a context
  have hother : ∀ q, q ≠ s → (({ t with crypStates := s :: t.crypStates } : Utc).store s
      (.state ⟨algo, mode, 0, 0, 0, false⟩)).heap.blocks q = u.heap.blocks q := by
    intro q hq
    rw [Utc.store_blocks, if_neg hq]
    show t.heap.blocks q = _
    rw [hb, if_neg hq]
  have hw : WithState p s ⟨algo, mode, 0, 0, 0, false⟩ u
      (({ t with crypStates := s :: t.crypStates } : Utc).store s
        (.state ⟨algo, mode, 0, 0, 0, false⟩)) := by
    refine withState_of hc h0 hn hl.objects ?_ hl.made hl.freed ?_ ?_ ⟨.inl rfl, nofun⟩
    · show s :: t.crypStates = _
      rw [hl.crypStates]
    · exact fun q hq => .inl (hother q hq)
    · rw [Utc.store_blocks, if_pos rfl]
  refine wp_mono (prepareState_spec hw.core.null hw.self rfl) ?_
  rintro res v (⟨hr, hlv, hbv⟩ | ⟨rfl, hlv, ctx, harv, hsv, hctx⟩)
  · rw [if_pos hr, wp_bind]
    refine wp_mono (stateAlloc_undone hc h0 hn hw hother hlv hbv) fun _ v' hv' => ?_
    exact .inl ⟨hr, hv'⟩
  · rw [if_neg (not_not.mpr rfl), wp_bind]
    have hv : WithState p s ⟨algo, mode, 0, 0, ctx, false⟩ u v :=
      withState_of hc h0 hn (hlv.objects.trans hw.objects) (hlv.crypStates.trans hw.crypStates)
        (hlv.made.trans hw.made) (hlv.freed.trans hw.freed) (hw.around.trans harv) hsv ⟨hctx, nofun⟩
    exact wp_mono (registerKeys_spec h0 hn hv hk1 hk2) fun _ v' hv' => .inr ⟨rfl, hv'⟩

end

/-! ## the end of the context -/

section
variable {p : Provider} {u : Utc}

theorem freeFirst_spec (hc : Core p u) {n : Nat} (hn : u.crypStates.length = n) :
    wp (freeFirst p n) (fun _ t => Core p t ∧ t.crypStates = [] ∧ t.made = u.made) u := by
  induction n generalizing u with
  | zero =>
    have he : u.crypStates = [] := List.length_eq_zero_iff.mp hn
    rw [freeFirst, wp_bind, wp_get, if_pos he]
    exact ⟨hc, he, rfl⟩
  | succ n ih =>
    rw [freeFirst, wp_bind, wp_get]
    cases he : u.crypStates with
    | nil =>
      rw [he] at hn
      cases hn
    | cons s l =>
      obtain ⟨cs, hcs⟩ := hc.stBlock (s := s) (by rw [he]; exact List.mem_cons_self)
      show wp (crypStateFree p s >>= fun _ => freeFirst p n) _ u
      rw [wp_bind]
      refine wp_mono (crypStateFree_spec hc (Utc.st_iff.mpr hcs)) fun _ t ht => ?_
      have hlen : t.crypStates.length = n := by
        rw [ht.crypStates, he, List.erase_cons_head]
        rw [he, List.length_cons] at hn
        omega
      refine wp_mono (ih ht.core hlen) fun _ v hv => ?_
      exact ⟨hv.1, hv.2.1, hv.2.2.trans ht.made⟩

theorem closeFirst_spec (hc : Core p u) {n : Nat} (hn : u.objects.length = n) :
    wp (closeFirst n) (fun _ t => Core p t ∧ t.objects = [] ∧ t.crypStates = u.crypStates ∧
      t.made = u.made) u := by
  induction n generalizing u with
  | zero =>
    have he : u.objects = [] := List.length_eq_zero_iff.mp hn
    rw [closeFirst, wp_bind, wp_get, if_pos he]
    exact ⟨hc, he, rfl, rfl⟩
  | succ n ih =>
    rw [closeFirst, wp_bind, wp_get]
    cases he : u.objects with
    | nil =>
      rw [he] at hn
      cases hn
    | cons a l =>
      show wp (teeObjClose a >>= fun _ => closeFirst n) _ u
      rw [wp_bind]
      refine wp_mono (teeObjClose_spec hc (a := a) (by rw [he]; exact List.mem_cons_self))
        fun _ t ht => ?_
      have hlen : t.objects.length = n := by
        rw [ht.objects, he, List.erase_cons_head]
        rw [he, List.length_cons] at hn
        omega
      refine wp_mono (ih ht.core hlen) fun _ v hv => ?_
      exact ⟨hv.1, hv.2.1, hv.2.2.1.trans ht.crypStates, hv.2.2.2.trans ht.made⟩

/-- nothing is left, and every object that was made was released once -/
structure Swept (u t : Utc) : Prop where
  objects : t.objects = []
  crypStates : t.crypStates = []
  obj : ∀ a, t.obj a = none
  st : ∀ s, t.st s = none
  made : t.made = u.made
  freed : t.freed = t.made

/-- **The sweep runs to its end.** -/
theorem userTaCtxDestroy_spec (hc : Core p u) :
    wp (userTaCtxDestroy p) (fun _ t => Swept u t) u := by
  rw [userTaCtxDestroy, wp_bind, teeSvcCrypFreeStates, wp_bind, wp_get]
  refine wp_mono (freeFirst_spec hc rfl) fun _ t ht => ?_
  obtain ⟨hct, hst, hmt⟩ := ht
  rw [teeObjCloseAll, wp_bind, wp_get]
  refine wp_mono (closeFirst_spec hct rfl) fun _ v hv => ?_
  obtain ⟨hcv, hov, hsv, hmv⟩ := hv
  have hstates : v.crypStates = [] := hsv.trans hst
  have hobj : ∀ a, v.obj a = none := by
    intro a
    have hm := hcv.objMem a
    rw [hov] at hm
    simpa using hm
  refine ⟨hov, hstates, hobj, fun s => ?_, hmv.trans hmt, ?_⟩
  · have hm := hcv.stMem s
    rw [hstates] at hm
    simpa using hm
  · funext a
    rw [hcv.count a, hobj a]
    rfl

end

end MTower.Cryp
