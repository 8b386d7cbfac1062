import MTower.Cryp.States

/-!
# What the calls on objects do to the heap

One lemma for each operation of `Objects.lean` and `States.lean`, over states in which the two
queues list exactly the blocks of their kind.

* `Core`           the queues, the blocks of an object and of a state, the two counters;
* `Kept`           the same blocks up to the data that populate, copy and reset write;
* `uteeCrypObjPopulate_kept`, `uteeCrypObjCopy_kept`, `uteeCrypObjReset_kept`  the calls.
-/

set_option linter.unusedVariables false

namespace MTower.Cryp
open Lib Kernel

/-! ## memory -/

section
variable {u : Utc} {a : Nat} {α : Type}

theorem Utc.obj_iff {o : TeeObj} : u.obj a = some o ↔ u.heap.blocks a = some (.obj o) := by
  unfold Utc.obj
  split <;> simp_all

theorem Utc.st_iff {cs : CrypState} : u.st a = some cs ↔ u.heap.blocks a = some (.state cs) := by
  unfold Utc.st
  split <;> simp_all

theorem wp_blockAt {b : Block} {Q : Block → Utc → Prop} (h : u.heap.blocks a = some b) :
    wp (blockAt a) Q u ↔ Q b u := by
  simp only [blockAt, wp_bind, wp_get, h, wp_pure]

theorem wp_objAt {o : TeeObj} {Q : TeeObj → Utc → Prop} (h : u.heap.blocks a = some (.obj o)) :
    wp (objAt a) Q u ↔ Q o u := by
  simp only [objAt, wp_bind, wp_blockAt h, wp_pure]

theorem wp_stateAt {cs : CrypState} {Q : CrypState → Utc → Prop}
    (h : u.heap.blocks a = some (.state cs)) : wp (stateAt a) Q u ↔ Q cs u := by
  simp only [stateAt, wp_bind, wp_blockAt h, wp_pure]

@[simp] theorem wp_storeAt {b : Block} {Q : Unit → Utc → Prop} :
    wp (storeAt a b) Q u ↔ Q () (u.store a b) := Iff.rfl

@[simp] theorem wp_teeMalloc {b : Block} {Q : Nat → Utc → Prop} :
    wp (teeMalloc b) Q u ↔ Q (u.heap.alloc b).1 { u with heap := (u.heap.alloc b).2 } := Iff.rfl

theorem wp_teeFree_null {Q : Unit → Utc → Prop} : wp (teeFree 0) Q u ↔ Q () u := by
  simp only [teeFree, wp_bind, wp_get, if_true, wp_pure]

theorem wp_teeFree_obj {o : TeeObj} {Q : Unit → Utc → Prop} (h0 : a ≠ 0)
    (h : u.heap.blocks a = some (.obj o)) : wp (teeFree a) Q u ↔ Q () (u.eraseObj a) := by
  simp only [teeFree, wp_bind, wp_get, if_neg h0, h, wp_set]

theorem wp_teeFree {b : Block} {Q : Unit → Utc → Prop} (h0 : a ≠ 0)
    (h : u.heap.blocks a = some b) (hb : ∀ o, b ≠ .obj o) :
    wp (teeFree a) Q u ↔ Q () (u.erase a) := by
  cases b with
  | obj o => exact absurd rfl (hb o)
  | _ => simp only [teeFree, wp_bind, wp_get, if_neg h0, h, wp_set]

@[simp] theorem Utc.store_blocks (b : Block) (q : Nat) :
    (u.store a b).heap.blocks q = if q = a then some b else u.heap.blocks q := by
  simp only [Utc.store, Heap.store, Function.update_apply]

@[simp] theorem Utc.erase_blocks (q : Nat) :
    (u.erase a).heap.blocks q = if q = a then none else u.heap.blocks q := by
  simp only [Utc.erase, Heap.erase, Function.update_apply]

@[simp] theorem Utc.eraseObj_blocks (q : Nat) :
    (u.eraseObj a).heap.blocks q = if q = a then none else u.heap.blocks q := Utc.erase_blocks q

/-- the two states differ in the heap only -/
structure SameLists (u t : Utc) : Prop where
  objects : t.objects = u.objects
  crypStates : t.crypStates = u.crypStates
  made : t.made = u.made
  freed : t.freed = u.freed

theorem SameLists.refl (u : Utc) : SameLists u u := ⟨rfl, rfl, rfl, rfl⟩

theorem SameLists.trans {u t v : Utc} (h : SameLists u t) (h' : SameLists t v) : SameLists u v :=
  ⟨h'.objects.trans h.objects, h'.crypStates.trans h.crypStates, h'.made.trans h.made,
    h'.freed.trans h.freed⟩

/-- What one allocation can do. -/
theorem alloc_cases {b : Block} {Q : Nat → Utc → Prop}
    (hfull : ∀ t, SameLists u t → t.heap.blocks = u.heap.blocks → Q 0 t)
    (hok : ∀ q t, q ≠ 0 → u.heap.blocks q = none → SameLists u t →
      (∀ r, t.heap.blocks r = if r = q then some b else u.heap.blocks r) → Q q t) :
    wp (teeMalloc b) Q u := by
  rw [wp_teeMalloc]
  obtain ⟨-, h0, hb⟩ | ⟨-, h0, hn, hb⟩ := u.heap.alloc_cases b
  · rw [h0]
    exact hfull _ ⟨rfl, rfl, rfl, rfl⟩ hb
  · refine hok _ _ h0 hn ⟨rfl, rfl, rfl, rfl⟩ fun r => ?_
    show (u.heap.alloc b).2.blocks r = _
    rw [hb, Function.update_apply]

/-! ## queues -/

/-- every element of `l` can be read, and reading it changes nothing -/
def Readable (read : Nat → C α) (l : List Nat) (u : Utc) : Prop :=
  ∀ a ∈ l, ∃ x, read a u = .ok (x, u)

theorem wp_touch {read : Nat → C α} {l : List Nat} {Q : Unit → Utc → Prop}
    (h : Readable read l u) : wp (touch read l) Q u ↔ Q () u := by
  induction l with
  | nil => exact Iff.rfl
  | cons a l ih =>
    obtain ⟨x, hx⟩ := h a List.mem_cons_self
    rw [touch, wp_bind, wp_of_eq hx]
    exact ih fun b hb => h b (List.mem_cons_of_mem a hb)

theorem wp_lookup {read : Nat → C α} {id : Nat} {l : List Nat} {Q : Bool → Utc → Prop}
    (h : Readable read l u) : wp (lookup read id l) Q u ↔ Q (decide (id ∈ l)) u := by
  induction l with
  | nil => exact Iff.rfl
  | cons a l ih =>
    obtain ⟨x, hx⟩ := h a List.mem_cons_self
    have ih := ih fun b hb => h b (List.mem_cons_of_mem a hb)
    by_cases hid : id = a
    · subst hid
      simp [lookup]
    · rw [lookup, if_neg hid, wp_bind, wp_of_eq hx, ih]
      simp [hid]

theorem neighbours_subset {a b : Nat} {l : List Nat} (h : b ∈ neighbours a l) : b ∈ l := by
  fun_induction neighbours a l with
  | case1 => cases h
  | case2 => cases h
  | case3 c l => simp_all
  | case4 x l hne =>
    rw [List.mem_cons] at h
    rcases h with rfl | h
    · exact List.mem_cons_self
    · exact List.mem_cons_of_mem _ (List.mem_cons_of_mem _ (List.mem_of_mem_take h))
  | case5 x c l h1 h2 ih => exact List.mem_cons_of_mem _ (ih h)

theorem Readable.of_mem {read : Nat → C α} {l m : List Nat} (h : Readable read l u)
    (hm : ∀ a ∈ m, a ∈ l) : Readable read m u := fun a ha => h a (hm a ha)

end

/-! ## well-formed states -/

abbrev Blocks := Nat → Option Block

/-- the object or the state a block was allocated for -/
def Block.owner : Block → Option Nat
  | .attr a _ => some a
  | .bignum a _ _ => some a
  | .ctx a => some a
  | _ => none

def IsBignum (b : Blocks) (a : Nat) (m : Member) (q : Nat) : Prop :=
  ∃ v, b q = some (.bignum a m v)

/-- the attribute block of the object `a` holds what its type says -/
def AttrOk (b : Blocks) (a : Nat) (tp : TypeProps) : Attr → Prop
  | .secret k n data => tp.typeAttrs = teeCrypObjSecretValueAttrs ∧
      n = tp.allocSize - sizeofSecret ∧ k ≤ n ∧ data.length = n
  | .ecc d x y _ => tp.typeAttrs = teeCrypObjEccKeypairAttrs ∧
      IsBignum b a .d d ∧ IsBignum b a .x x ∧ IsBignum b a .y y

structure ObjOk (b : Blocks) (a : Nat) (o : TeeObj) : Prop where
  transient : o.info.has teeHandleFlagPersistent = false
  attr : ∃ tp x, teeSvcFindTypeProps o.info.objectType = some tp ∧
    b o.attr = some (.attr a x) ∧ AttrOk b a tp x

structure StateOk (p : Provider) (b : Blocks) (s : Nat) (cs : CrypState) : Prop where
  ctx : cs.ctx = 0 ∨ b cs.ctx = some (.ctx s) ∧ ctxKnown p cs.algo = true
  finalize : cs.ctxFinalize = true → cs.ctx ≠ 0

structure Core (p : Provider) (u : Utc) : Prop where
  null : u.heap.blocks 0 = none
  objNodup : u.objects.Nodup
  objMem : ∀ a, a ∈ u.objects ↔ (u.obj a).isSome
  stNodup : u.crypStates.Nodup
  stMem : ∀ s, s ∈ u.crypStates ↔ (u.st s).isSome
  objOk : ∀ a o, u.obj a = some o → ObjOk u.heap.blocks a o
  stOk : ∀ s cs, u.st s = some cs → StateOk p u.heap.blocks s cs
  count : ∀ a, u.made a = u.freed a + if (u.obj a).isSome then 1 else 0

section
variable {p : Provider} {u t : Utc} {a : Nat}

/-- an object depends on the blocks that were allocated for it -/
theorem ObjOk.frame {b b' : Blocks} {o : TeeObj} (h : ObjOk b a o)
    (hb : ∀ q c, b q = some c → c.owner = some a → b' q = some c) : ObjOk b' a o := by
  obtain ⟨htr, tp, x, htp, hx, hok⟩ := h
  refine ⟨htr, tp, x, htp, hb _ _ hx rfl, ?_⟩
  have hbn : ∀ m q, IsBignum b a m q → IsBignum b' a m q := by
    rintro m q ⟨v, hv⟩
    exact ⟨v, hb _ _ hv rfl⟩
  cases x with
  | secret k n data => exact hok
  | ecc d x y c =>
    obtain ⟨h1, h2, h3, h4⟩ := hok
    exact ⟨h1, hbn _ _ h2, hbn _ _ h3, hbn _ _ h4⟩

theorem StateOk.frame {b b' : Blocks} {cs : CrypState} (h : StateOk p b a cs)
    (hb : ∀ q c, b q = some c → c.owner = some a → b' q = some c) : StateOk p b' a cs := by
  obtain ⟨hctx, hfin⟩ := h
  refine ⟨?_, hfin⟩
  rcases hctx with h0 | ⟨hq, hk⟩
  · exact .inl h0
  · exact .inr ⟨hb _ _ hq rfl, hk⟩

theorem Core.empty (answers : Nat → Nat) : Core p (Utc.empty answers) where
  null := rfl
  objNodup := List.nodup_nil
  objMem := by intro a; simp [Utc.empty, Utc.obj, Heap.empty]
  stNodup := List.nodup_nil
  stMem := by intro s; simp [Utc.empty, Utc.st, Heap.empty]
  objOk := by intro a o h; simp [Utc.empty, Utc.obj, Heap.empty] at h
  stOk := by intro a o h; simp [Utc.empty, Utc.st, Heap.empty] at h
  count := by intro a; simp [Utc.empty, Utc.obj, Heap.empty]

theorem Core.objBlock (h : Core p u) (ha : a ∈ u.objects) :
    ∃ o, u.heap.blocks a = some (.obj o) := by
  obtain ⟨o, ho⟩ := Option.isSome_iff_exists.mp ((h.objMem a).mp ha)
  exact ⟨o, Utc.obj_iff.mp ho⟩

theorem Core.stBlock (h : Core p u) {s : Nat} (hs : s ∈ u.crypStates) :
    ∃ cs, u.heap.blocks s = some (.state cs) := by
  obtain ⟨cs, hcs⟩ := Option.isSome_iff_exists.mp ((h.stMem s).mp hs)
  exact ⟨cs, Utc.st_iff.mp hcs⟩

theorem Core.live_ne_null (h : Core p u) {b : Block} (ha : u.heap.blocks a = some b) : a ≠ 0 := by
  rintro rfl
  rw [h.null] at ha
  cases ha

theorem Core.zero_notMem (h : Core p u) : 0 ∉ u.objects := by
  intro h0
  obtain ⟨o, ho⟩ := h.objBlock h0
  exact h.live_ne_null ho rfl

theorem objAt_eq {o : TeeObj} (h : u.heap.blocks a = some (.obj o)) : objAt a u = .ok (o, u) := by
  obtain ⟨x, t, e, rfl, rfl⟩ :=
    wp_iff.mp ((wp_objAt (Q := fun x t => x = o ∧ t = u) h).mpr ⟨rfl, rfl⟩)
  exact e

theorem stateAt_eq {cs : CrypState} (h : u.heap.blocks a = some (.state cs)) :
    stateAt a u = .ok (cs, u) := by
  obtain ⟨x, t, e, rfl, rfl⟩ :=
    wp_iff.mp ((wp_stateAt (Q := fun x t => x = cs ∧ t = u) h).mpr ⟨rfl, rfl⟩)
  exact e

theorem Core.readObjs (h : Core p u) : Readable objAt u.objects u := by
  intro a ha
  obtain ⟨o, ho⟩ := h.objBlock ha
  exact ⟨o, objAt_eq ho⟩

theorem Core.readStates (h : Core p u) : Readable stateAt u.crypStates u := by
  intro s hs
  obtain ⟨cs, hcs⟩ := h.stBlock hs
  exact ⟨cs, stateAt_eq hcs⟩

theorem wp_teeObjGet (h : Core p u) {id : Nat} {Q : Nat → Utc → Prop} :
    wp (teeObjGet id) Q u ↔
      Q (if id ∈ u.objects then teeSuccess else teeErrorBadParameters) u := by
  simp only [teeObjGet, wp_bind, wp_get, wp_lookup h.readObjs, wp_pure, decide_eq_true_eq]

theorem wp_teeSvcCrypGetState (h : Core p u) {id : Nat} {Q : Nat → Utc → Prop} :
    wp (teeSvcCrypGetState id) Q u ↔
      Q (if id ∈ u.crypStates then teeSuccess else teeErrorBadParameters) u := by
  simp only [teeSvcCrypGetState, wp_bind, wp_get, wp_lookup h.readStates, wp_pure,
    decide_eq_true_eq]

theorem wp_removeObj (h : Core p u) (ha : a ∈ u.objects) {Q : Unit → Utc → Prop} :
    wp (removeObj a) Q u ↔ Q () { u with objects := u.objects.erase a } := by
  have hr : Readable objAt (a :: neighbours a u.objects) u := by
    refine h.readObjs.of_mem fun b hb => ?_
    rcases List.mem_cons.mp hb with rfl | hb
    · exact ha
    · exact neighbours_subset hb
  simp only [removeObj, wp_bind, wp_get, wp_touch hr, wp_modify]

theorem wp_removeState (h : Core p u) {s : Nat} (hs : s ∈ u.crypStates) {Q : Unit → Utc → Prop} :
    wp (removeState s) Q u ↔ Q () { u with crypStates := u.crypStates.erase s } := by
  have hr : Readable stateAt (s :: neighbours s u.crypStates) u := by
    refine h.readStates.of_mem fun b hb => ?_
    rcases List.mem_cons.mp hb with rfl | hb
    · exact hs
    · exact neighbours_subset hb
  simp only [removeState, wp_bind, wp_get, wp_touch hr, wp_modify]

end

/-! ## rewriting the data of an object -/

/-- `b'` is the block `b` with other data: what the other blocks rely on is the same -/
inductive SameBlock : Block → Block → Prop where
  | refl (b : Block) : SameBlock b b
  | obj {o o' : TeeObj} (busy : o'.busy = o.busy) (attr : o'.attr = o.attr)
      (type : o'.info.objectType = o.info.objectType)
      (transient : o.info.has teeHandleFlagPersistent = false →
        o'.info.has teeHandleFlagPersistent = false) : SameBlock (.obj o) (.obj o')
  | secret {own k k' n : Nat} {data data' : List UInt8} (key : k ≤ n → k' ≤ n)
      (length : data'.length = data.length) :
      SameBlock (.attr own (.secret k n data)) (.attr own (.secret k' n data'))
  | ecc {own d x y c c' : Nat} :
      SameBlock (.attr own (.ecc d x y c)) (.attr own (.ecc d x y c'))
  | bignum {own v v' : Nat} {m : Member} : SameBlock (.bignum own m v) (.bignum own m v')

theorem SameBlock.trans {b c d : Block} (h : SameBlock b c) (h' : SameBlock c d) :
    SameBlock b d := by
  cases h with
  | refl => exact h'
  | obj h1 h2 h3 h4 =>
    cases h' with
    | refl => exact .obj h1 h2 h3 h4
    | obj k1 k2 k3 k4 =>
      exact .obj (k1.trans h1) (k2.trans h2) (k3.trans h3) fun hp => k4 (h4 hp)
  | secret h1 h2 =>
    cases h' with
    | refl => exact .secret h1 h2
    | secret k1 k2 => exact .secret (fun h => k1 (h1 h)) (k2.trans h2)
  | ecc =>
    cases h' with
    | refl => exact .ecc
    | ecc => exact .ecc
  | bignum =>
    cases h' with
    | refl => exact .bignum
    | bignum => exact .bignum

structure Kept (u t : Utc) : Prop extends SameLists u t where
  blocks : ∀ q, Option.Rel SameBlock (u.heap.blocks q) (t.heap.blocks q)

section
variable {p : Provider} {u t v : Utc} {a q : Nat}

theorem Kept.refl (u : Utc) : Kept u u := by
  refine ⟨SameLists.refl u, fun q => ?_⟩
  cases u.heap.blocks q with
  | none => exact .none
  | some b => exact .some (.refl b)

theorem Kept.block (h : Kept u t) {b : Block} (hb : u.heap.blocks q = some b) :
    ∃ b', t.heap.blocks q = some b' ∧ SameBlock b b' := by
  have hq := h.blocks q
  rw [hb] at hq
  cases ht : t.heap.blocks q with
  | none => rw [ht] at hq; cases hq
  | some b' =>
    rw [ht] at hq
    cases hq with
    | some hs => exact ⟨b', rfl, hs⟩

theorem Kept.block_of (h : Kept u t) {b' : Block} (hb : t.heap.blocks q = some b') :
    ∃ b, u.heap.blocks q = some b ∧ SameBlock b b' := by
  have hq := h.blocks q
  rw [hb] at hq
  cases hu : u.heap.blocks q with
  | none => rw [hu] at hq; cases hq
  | some b =>
    rw [hu] at hq
    cases hq with
    | some hs => exact ⟨b, rfl, hs⟩

theorem Kept.free (h : Kept u t) (hq : u.heap.blocks q = none) : t.heap.blocks q = none := by
  cases ht : t.heap.blocks q with
  | none => rfl
  | some b =>
    obtain ⟨b', hb', -⟩ := h.block_of ht
    rw [hq] at hb'
    cases hb'

theorem Kept.trans (h : Kept u t) (h' : Kept t v) : Kept u v := by
  refine ⟨h.toSameLists.trans h'.toSameLists, fun q => ?_⟩
  cases hu : u.heap.blocks q with
  | none =>
    rw [h'.free (h.free hu)]
    exact .none
  | some b =>
    obtain ⟨b', hb', hs⟩ := h.block hu
    obtain ⟨b'', hb'', hs'⟩ := h'.block hb'
    rw [hb'']
    exact .some (hs.trans hs')

theorem Kept.store {b b' : Block} (hb : u.heap.blocks q = some b) (hs : SameBlock b b') :
    Kept u (u.store q b') := by
  refine ⟨⟨rfl, rfl, rfl, rfl⟩, fun r => ?_⟩
  rw [Utc.store_blocks]
  by_cases hr : r = q
  · rw [if_pos hr, hr, hb]
    exact .some hs
  · rw [if_neg hr]
    exact (Kept.refl u).blocks r

theorem Kept.isBignum (h : Kept u t) {m : Member} (hq : IsBignum u.heap.blocks a m q) :
    IsBignum t.heap.blocks a m q := by
  obtain ⟨v, hv⟩ := hq
  obtain ⟨b', hb', hs⟩ := h.block hv
  cases hs with
  | refl => exact ⟨v, hb'⟩
  | bignum => exact ⟨_, hb'⟩

theorem Kept.attrOk (h : Kept u t) {tp : TypeProps} {x : Attr}
    (hx : AttrOk u.heap.blocks a tp x) (hq : u.heap.blocks q = some (.attr a x)) :
    ∃ x', t.heap.blocks q = some (.attr a x') ∧ AttrOk t.heap.blocks a tp x' := by
  obtain ⟨b', hb', hs⟩ := h.block hq
  cases hs with
  | refl =>
    refine ⟨x, hb', ?_⟩
    cases x with
    | secret k n data => exact hx
    | ecc d x y c =>
      obtain ⟨h1, h2, h3, h4⟩ := hx
      exact ⟨h1, h.isBignum h2, h.isBignum h3, h.isBignum h4⟩
  | secret hk hl =>
    obtain ⟨h1, hn, h2, h3⟩ := hx
    exact ⟨_, hb', h1, hn, hk h2, hl.trans h3⟩
  | ecc =>
    obtain ⟨h1, h2, h3, h4⟩ := hx
    exact ⟨_, hb', h1, h.isBignum h2, h.isBignum h3, h.isBignum h4⟩

theorem Kept.obj (h : Kept u t) {o : TeeObj} (ho : u.obj a = some o) :
    ∃ o', t.obj a = some o' ∧ SameBlock (.obj o) (.obj o') := by
  obtain ⟨b', hb', hs⟩ := h.block (Utc.obj_iff.mp ho)
  cases hs with
  | refl => exact ⟨o, Utc.obj_iff.mpr hb', .refl _⟩
  | obj h1 h2 h3 h4 => exact ⟨_, Utc.obj_iff.mpr hb', .obj h1 h2 h3 h4⟩

theorem Kept.obj_of (h : Kept u t) {o' : TeeObj} (ho : t.obj a = some o') :
    ∃ o, u.obj a = some o ∧ SameBlock (.obj o) (.obj o') := by
  obtain ⟨b, hb, hs⟩ := h.block_of (Utc.obj_iff.mp ho)
  cases hs with
  | refl => exact ⟨o', Utc.obj_iff.mpr hb, .refl _⟩
  | obj h1 h2 h3 h4 => exact ⟨_, Utc.obj_iff.mpr hb, .obj h1 h2 h3 h4⟩

theorem Kept.obj_isSome (h : Kept u t) : (t.obj a).isSome = (u.obj a).isSome := by
  rw [Bool.eq_iff_iff, Option.isSome_iff_exists, Option.isSome_iff_exists]
  constructor
  · rintro ⟨o', ho'⟩
    obtain ⟨o, ho, -⟩ := h.obj_of ho'
    exact ⟨o, ho⟩
  · rintro ⟨o, ho⟩
    obtain ⟨o', ho', -⟩ := h.obj ho
    exact ⟨o', ho'⟩

theorem Kept.st_eq (h : Kept u t) : t.st = u.st := by
  funext s
  have key : ∀ cs, t.st s = some cs ↔ u.st s = some cs := by
    intro cs
    rw [Utc.st_iff, Utc.st_iff]
    constructor
    · intro hb
      obtain ⟨b, hb', hs⟩ := h.block_of hb
      cases hs
      exact hb'
    · intro hb
      obtain ⟨b, hb', hs⟩ := h.block hb
      cases hs
      exact hb'
  exact Option.ext key

theorem ObjOk.kept {o o' : TeeObj} (hok : ObjOk u.heap.blocks a o) (h : Kept u t)
    (hs : SameBlock (.obj o) (.obj o')) : ObjOk t.heap.blocks a o' := by
  obtain ⟨htr, tp, x, htp, hb, hx⟩ := hok
  obtain ⟨x', hb', hx'⟩ := h.attrOk hx hb
  cases hs with
  | refl => exact ⟨htr, tp, x', htp, hb', hx'⟩
  | obj h1 h2 h3 h4 =>
    refine ⟨h4 htr, tp, x', ?_, ?_, hx'⟩
    · rw [h3]; exact htp
    · rw [h2]; exact hb'

theorem Core.kept (hc : Core p u) (h : Kept u t) : Core p t where
  null := h.free hc.null
  objNodup := by rw [h.objects]; exact hc.objNodup
  objMem := by
    intro a
    rw [h.objects, h.obj_isSome]
    exact hc.objMem a
  stNodup := by rw [h.crypStates]; exact hc.stNodup
  stMem := by
    intro s
    rw [h.crypStates, h.st_eq]
    exact hc.stMem s
  objOk := by
    intro a o' ho'
    obtain ⟨o, ho, hs⟩ := h.obj_of ho'
    exact (hc.objOk a o ho).kept h hs
  stOk := by
    intro s cs hs
    rw [h.st_eq] at hs
    obtain ⟨hctx, hfin⟩ := hc.stOk s cs hs
    refine ⟨?_, hfin⟩
    rcases hctx with h0 | ⟨hb, hk⟩
    · exact .inl h0
    · obtain ⟨b', hb', hsame⟩ := h.block hb
      cases hsame
      exact .inr ⟨hb', hk⟩
  count := by
    intro a
    rw [h.made, h.freed, h.obj_isSome]
    exact hc.count a

end

/-! ## attributes -/

section
variable {p : Provider} {u t : Utc} {a q : Nat} {x : Attr} {m : Member} {w : Nat}

theorem wp_memberAt {Q : Nat → Utc → Prop} (hb : u.heap.blocks q = some (.attr a x))
    (hw : x.get? m = some w) : wp (memberAt q m) Q u ↔ Q w u := by
  simp only [memberAt, wp_bind, wp_blockAt hb, hw, wp_pure]

theorem wp_setMember {Q : Unit → Utc → Prop} (hb : u.heap.blocks q = some (.attr a x)) :
    wp (setMember q m w) Q u ↔ Q () (u.store q (.attr a (x.put m w))) := by
  simp only [setMember, wp_bind, wp_blockAt hb, wp_storeAt]

theorem wp_bignumAt {v : Nat} {Q : Nat → Utc → Prop}
    (hb : u.heap.blocks q = some (.bignum a m v)) : wp (bignumAt q) Q u ↔ Q v u := by
  simp only [bignumAt, wp_bind, wp_blockAt hb, wp_pure]

theorem wp_setBignum {v : Nat} {Q : Unit → Utc → Prop}
    (hb : u.heap.blocks q = some (.bignum a m v)) :
    wp (setBignum q w) Q u ↔ Q () (u.store q (.bignum a m w)) := by
  simp only [setBignum, wp_bind, wp_blockAt hb, wp_storeAt]

/-- **The operation that a type gives an attribute fits its block.** -/
theorem AttrOk.ops {b : Blocks} {tp : TypeProps} {ta : TypeAttr} (hx : AttrOk b a tp x)
    (hta : ta ∈ tp.typeAttrs) :
    (ta.opsIndex = .secret ∧ ∃ k n data, x = .secret k n data ∧ k ≤ n ∧ data.length = n) ∨
    (ta.opsIndex = .bignum ∧ ∃ bn, x.get? ta.raw = some bn ∧ IsBignum b a ta.raw bn) ∨
    (ta.opsIndex = .value ∧ ta.raw = .curve ∧ ∃ d e f c, x = .ecc d e f c) := by
  cases x with
  | secret k n data =>
    obtain ⟨ht, -, hk, hl⟩ := hx
    rw [ht, teeCrypObjSecretValueAttrs, List.mem_singleton] at hta
    subst hta
    exact .inl ⟨rfl, k, n, data, rfl, hk, hl⟩
  | ecc d e f c =>
    obtain ⟨ht, hd, he, hf⟩ := hx
    rw [ht, teeCrypObjEccKeypairAttrs] at hta
    simp only [List.mem_cons, List.not_mem_nil, or_false] at hta
    rcases hta with rfl | rfl | rfl | rfl
    · exact .inr (.inl ⟨rfl, d, rfl, hd⟩)
    · exact .inr (.inl ⟨rfl, e, rfl, he⟩)
    · exact .inr (.inl ⟨rfl, f, rfl, hf⟩)
    · exact .inr (.inr ⟨rfl, rfl, d, e, f, c, rfl⟩)

variable {tp : TypeProps} {ta : TypeAttr}

theorem attrClear_kept (hb : u.heap.blocks q = some (.attr a x))
    (hx : AttrOk u.heap.blocks a tp x) (hta : ta ∈ tp.typeAttrs) :
    wp (attrClear q ta) (fun _ t => Kept u t) u := by
  obtain ⟨hi, k, n, data, rfl, hk, hl⟩ | ⟨hi, bn, hg, v, hv⟩ | ⟨hi, hr, d, e, f, c, rfl⟩ :=
    hx.ops hta
  · have hn : ¬ data.length < n := by omega
    simp only [attrClear, hi, opAttrSecretValueClear, wp_bind, wp_blockAt hb, if_neg hn,
      wp_storeAt]
    refine Kept.store hb (.secret (fun _ => Nat.zero_le n) ?_)
    simp only [List.length_append, List.length_replicate, List.length_drop]
    omega
  · simp only [attrClear, hi, opAttrBignumClear, wp_bind, wp_memberAt hb hg, wp_setBignum hv]
    exact Kept.store hv .bignum
  · simp only [attrClear, hi, opAttrValueClear, wp_setMember hb, hr, Attr.put]
    exact Kept.store hb .ecc

theorem attrFromUser_kept (hb : u.heap.blocks q = some (.attr a x))
    (hx : AttrOk u.heap.blocks a tp x) (hta : ta ∈ tp.typeAttrs) (buffer : List UInt8) :
    wp (attrFromUser p q ta buffer) (fun _ t => Kept u t) u := by
  obtain ⟨hi, k, n, data, rfl, hk, hl⟩ | ⟨hi, bn, hg, v, hv⟩ | ⟨hi, hr, d, e, f, c, rfl⟩ :=
    hx.ops hta
  · simp only [attrFromUser, hi, opAttrSecretValueFromUser, wp_bind, wp_blockAt hb]
    by_cases hn : n < buffer.length
    · rw [if_pos hn]
      exact Kept.refl u
    · have hd : ¬ data.length < buffer.length := by omega
      rw [if_neg hn, if_neg hd]
      simp only [wp_bind, wp_storeAt, wp_pure]
      refine Kept.store hb (.secret (fun _ => by omega) ?_)
      simp only [List.length_append, List.length_drop]
      omega
  · simp only [attrFromUser, hi, opAttrBignumFromUser, wp_bind, wp_memberAt hb hg, wp_bignumAt hv,
      wp_setBignum hv, wp_pure]
    exact Kept.store hv .bignum
  · simp only [attrFromUser, hi, opAttrValueFromUser]
    by_cases h8 : buffer.length ≠ 8
    · rw [if_pos h8]
      exact Kept.refl u
    · rw [if_neg h8]
      simp only [wp_bind, wp_setMember hb, wp_pure, hr, Attr.put]
      exact Kept.store hb .ecc

theorem attrFromObj_kept {a' q' : Nat} {x' : Attr} (hb : u.heap.blocks q = some (.attr a x))
    (hx : AttrOk u.heap.blocks a tp x) (hb' : u.heap.blocks q' = some (.attr a' x'))
    (hx' : AttrOk u.heap.blocks a' tp x') (hta : ta ∈ tp.typeAttrs) :
    wp (attrFromObj q q' ta ta) (fun _ t => Kept u t) u := by
  have hops := hx'.ops hta
  obtain ⟨hi, k, n, data, rfl, hk, hl⟩ | ⟨hi, bn, hg, v, hv⟩ | ⟨hi, hr, d, e, f, c, rfl⟩ :=
    hx.ops hta
  · obtain ⟨-, k', n', data', rfl, hk', hl'⟩ | ⟨hi', -⟩ | ⟨hi', -⟩ := hops
    · simp only [attrFromObj, hi, opAttrSecretValueFromObj, wp_bind, wp_blockAt hb, wp_blockAt hb']
      by_cases hn : n < k'
      · rw [if_pos hn]
        exact Kept.refl u
      · have hd : ¬ (data.length < k' ∨ data'.length < k') := by omega
        rw [if_neg hn, if_neg hd]
        simp only [wp_bind, wp_storeAt, wp_pure]
        refine Kept.store hb (.secret (fun _ => by omega) ?_)
        simp only [List.length_append, List.length_drop, List.length_take]
        omega
    · rw [hi] at hi'; cases hi'
    · rw [hi] at hi'; cases hi'
  · obtain ⟨hi', -⟩ | ⟨-, bn', hg', v', hv'⟩ | ⟨hi', -⟩ := hops
    · rw [hi] at hi'; cases hi'
    · simp only [attrFromObj, hi, opAttrBignumFromObj, wp_bind, wp_memberAt hb hg,
        wp_memberAt hb' hg', wp_bignumAt hv', wp_setBignum hv, wp_pure]
      exact Kept.store hv .bignum
    · rw [hi] at hi'; cases hi'
  · obtain ⟨hi', -⟩ | ⟨hi', -⟩ | ⟨-, -, d', e', f', c', rfl⟩ := hops
    · rw [hi] at hi'; cases hi'
    · rw [hi] at hi'; cases hi'
    · have hw : (Attr.ecc d' e' f' c').get? .curve = some c' := rfl
      simp only [attrFromObj, hi, hr, opAttrValueFromObj, wp_bind, wp_memberAt hb' hw,
        wp_setMember hb, wp_pure, Attr.put]
      exact Kept.store hb .ecc

/-! ## loops over the attributes of a type -/

theorem forAttrs_kept {f : TypeAttr → C Unit} {l : List TypeAttr}
    (h : ∀ t, Kept u t → ∀ ta ∈ l, wp (f ta) (fun _ t' => Kept t t') t) :
    wp (forAttrs f l) (fun _ t => Kept u t) u := by
  induction l generalizing u with
  | nil => exact Kept.refl u
  | cons ta l ih =>
    rw [forAttrs, wp_bind]
    refine wp_mono (h u (Kept.refl u) ta List.mem_cons_self) fun _ t ht => ?_
    refine wp_mono (ih fun t' ht' tb htb => ?_) fun _ v hv => ht.trans hv
    exact h t' (ht.trans ht') tb (List.mem_cons_of_mem ta htb)

theorem copyAttrs_kept {f : TypeAttr → C Nat} {l : List TypeAttr}
    (h : ∀ t, Kept u t → ∀ ta ∈ l, wp (f ta) (fun _ t' => Kept t t') t) :
    wp (copyAttrs f l) (fun _ t => Kept u t) u := by
  induction l generalizing u with
  | nil => exact Kept.refl u
  | cons ta l ih =>
    rw [copyAttrs, wp_bind]
    refine wp_mono (h u (Kept.refl u) ta List.mem_cons_self) fun res t ht => ?_
    by_cases hr : res ≠ teeSuccess
    · rw [if_pos hr]
      exact ht
    · rw [if_neg hr]
      refine wp_mono (ih fun t' ht' tb htb => ?_) fun _ v hv => ht.trans hv
      exact h t' (ht.trans ht') tb (List.mem_cons_of_mem ta htb)

theorem findIdx_mem {id i : Nat} (h : teeSvcCrypObjFindTypeAttrIdx id tp = some i) :
    ∃ ta, tp.typeAttrs[i]? = some ta ∧ ta ∈ tp.typeAttrs := by
  obtain ⟨hi, -⟩ := List.findIdx?_eq_some_iff_findIdx_eq.mp h
  exact ⟨_, List.getElem?_eq_getElem hi, List.getElem_mem hi⟩

theorem populateAttrs_kept {mem : Nat → UInt8} {l : List TeeAttribute} {have_ size : Nat}
    (hb : u.heap.blocks q = some (.attr a x)) (hx : AttrOk u.heap.blocks a tp x) :
    wp (populateAttrs p mem q tp l have_ size) (fun _ t => Kept u t) u := by
  induction l generalizing u x have_ size with
  | nil => exact Kept.refl u
  | cons t l ih =>
    rw [populateAttrs]
    cases hi : teeSvcCrypObjFindTypeAttrIdx t.attributeID tp with
    | none => exact Kept.refl u
    | some i =>
      obtain ⟨ta, hg, hta⟩ := findIdx_mem hi
      simp only [hg, wp_bind]
      refine wp_mono (attrFromUser_kept hb hx hta _) fun res v hv => ?_
      by_cases hr : res ≠ teeSuccess
      · rw [if_pos hr]
        exact hv
      · obtain ⟨x', hb', hx'⟩ := hv.attrOk hx hb
        rw [if_neg hr]
        exact wp_mono (ih hb' hx') fun _ w hw => hv.trans hw

end

/-! ## populate, copy, reset -/

section
variable {p : Provider} {u : Utc} {a : Nat}

theorem Core.attr_ne_zero (hc : Core p u) {o : TeeObj} (hok : ObjOk u.heap.blocks a o) :
    o.attr ≠ 0 := by
  obtain ⟨-, tp, x, -, hb, -⟩ := hok
  exact hc.live_ne_null hb

theorem has_or {h flag g : Nat} (hg : flag &&& g = 0) :
    (h ||| flag) &&& g = h &&& g := by
  rw [Nat.and_or_distrib_right, hg, Nat.or_zero]

theorem has_and {h m g : Nat} (hz : h &&& g = 0) : (h &&& m) &&& g = 0 := by
  rw [Nat.and_assoc, Nat.and_comm m g, ← Nat.and_assoc, hz, Nat.zero_and]

theorem has_eq_false {info : ObjectInfo} {flag : Nat} :
    info.has flag = false ↔ info.handleFlags &&& flag = 0 := by
  simp [ObjectInfo.has]

/-- an object written from a copy `o` that was read when the block was the same -/
theorem SameBlock.rewrite {o o' o'' : TeeObj} (hs : SameBlock (.obj o) (.obj o'))
    (busy : o''.busy = o.busy) (attr : o''.attr = o.attr)
    (type : o''.info.objectType = o.info.objectType)
    (transient : o''.info.has teeHandleFlagPersistent = false) :
    SameBlock (.obj o') (.obj o'') := by
  cases hs with
  | refl => exact .obj busy attr type fun _ => transient
  | obj h1 h2 h3 h4 =>
    exact .obj (busy.trans h1.symm) (attr.trans h2.symm) (type.trans h3.symm) fun _ => transient

theorem teeObjAttrClear_kept {o : TeeObj} (ho : u.heap.blocks a = some (.obj o))
    (hok : ObjOk u.heap.blocks a o) : wp (teeObjAttrClear a) (fun _ t => Kept u t) u := by
  obtain ⟨-, tp, x, htp, hb, hx⟩ := hok
  simp only [teeObjAttrClear, onAttrs, wp_bind, wp_objAt ho, htp]
  by_cases h0 : o.attr = 0
  · rw [if_pos h0]
    exact Kept.refl u
  · rw [if_neg h0]
    refine forAttrs_kept fun t ht ta hta => ?_
    obtain ⟨x', hb', hx'⟩ := ht.attrOk hx hb
    exact attrClear_kept hb' hx' hta

theorem uteeCrypObjReset_kept (hc : Core p u) :
    wp (uteeCrypObjReset a) (fun _ t => Kept u t) u := by
  simp only [uteeCrypObjReset, wp_bind, wp_teeObjGet hc]
  by_cases ha : a ∈ u.objects
  · obtain ⟨o, ho⟩ := hc.objBlock ha
    have hok := hc.objOk a o (Utc.obj_iff.mpr ho)
    have htr : ¬ (o.info.has teeHandleFlagPersistent = true) := by simp [hok.transient]
    simp only [if_pos ha, ne_eq, not_true_eq_false, if_false, wp_bind, wp_objAt ho, if_neg htr]
    refine wp_mono (teeObjAttrClear_kept ho hok) fun _ t ht => ?_
    obtain ⟨o', ho', hs⟩ := ht.obj (Utc.obj_iff.mpr ho)
    refine ht.trans (Kept.store (Utc.obj_iff.mp ho') (hs.rewrite rfl rfl rfl ?_))
    exact has_eq_false.mpr (has_and (has_eq_false.mp hok.transient))
  · have hne : teeErrorBadParameters ≠ teeSuccess := by decide
    simp only [if_neg ha, if_pos hne, wp_pure]
    exact Kept.refl u

theorem populateType_kept {mem : Nat → UInt8} {tp : TypeProps} {l : List TeeAttribute}
    {o : TeeObj} (ho : u.heap.blocks a = some (.obj o)) (hok : ObjOk u.heap.blocks a o)
    (htp : teeSvcFindTypeProps o.info.objectType = some tp) :
    wp (teeSvcCrypObjPopulateType p mem a tp l) (fun _ t => Kept u t) u := by
  obtain ⟨htr, tp', x, htp', hb, hx⟩ := hok
  rw [htp, Option.some_inj] at htp'
  subst htp'
  simp only [teeSvcCrypObjPopulateType, wp_bind, wp_objAt ho]
  refine wp_mono (populateAttrs_kept hb hx) fun r t ht => ?_
  by_cases hr : r.1 ≠ teeSuccess
  · rw [if_pos hr]
    exact ht
  · obtain ⟨o', ho', hs⟩ := ht.obj (Utc.obj_iff.mpr ho)
    rw [if_neg hr]
    exact ht.trans (Kept.store (Utc.obj_iff.mp ho') (hs.rewrite rfl rfl rfl htr))

theorem setInitialized_kept {o : TeeObj} (ho : u.heap.blocks a = some (.obj o))
    (hok : ObjOk u.heap.blocks a o) : wp (setInitialized a) (fun _ t => Kept u t) u := by
  simp only [setInitialized, wp_bind, wp_objAt ho, wp_storeAt]
  refine Kept.store ho ((SameBlock.refl _).rewrite rfl rfl rfl ?_)
  rw [has_eq_false, has_or (by decide), has_eq_false.mp hok.transient]

theorem populateWith_kept {mem : Nat → UInt8} {tp : TypeProps} {l : List TeeAttribute}
    {o : TeeObj} (ho : u.heap.blocks a = some (.obj o)) (hok : ObjOk u.heap.blocks a o)
    (htp : teeSvcFindTypeProps o.info.objectType = some tp) :
    wp (populateWith p mem a tp l) (fun _ t => Kept u t) u := by
  rw [populateWith]
  by_cases hch : teeSvcCrypCheckAttr .populate tp l ≠ teeSuccess
  · rw [if_pos hch]
    exact Kept.refl u
  · rw [if_neg hch, wp_bind]
    refine wp_mono (populateType_kept ho hok htp) fun res t ht => ?_
    by_cases hr : res ≠ teeSuccess
    · rw [if_pos hr]
      exact ht
    · obtain ⟨o', ho', hs⟩ := ht.obj (Utc.obj_iff.mpr ho)
      rw [if_neg hr, wp_bind]
      refine wp_mono (setInitialized_kept (Utc.obj_iff.mp ho') (hok.kept ht hs)) ?_
      exact fun _ v hv => ht.trans hv

/-- a scratch block that is gone again -/
theorem Kept.scratch {v t : Utc} {q : Nat} {l : List TeeAttribute} (hq : u.heap.blocks q = none)
    (hv : SameLists u v)
    (hblocks : ∀ r, v.heap.blocks r = if r = q then some (.attrs l) else u.heap.blocks r)
    (h : Kept v t) : Kept u (t.erase q) := by
  have hl := hv.trans h.toSameLists
  refine ⟨⟨hl.objects, hl.crypStates, hl.made, hl.freed⟩, fun r => ?_⟩
  rw [Utc.erase_blocks]
  by_cases hr : r = q
  · rw [if_pos hr, hr, hq]
    exact .none
  · have hrb := h.blocks r
    rw [hblocks, if_neg hr] at hrb
    rw [if_neg hr]
    exact hrb

theorem uteeCrypObjPopulate_kept (hc : Core p u) {mem : Nat → UInt8} {l : List UteeAttribute} :
    wp (uteeCrypObjPopulate p mem a l) (fun _ t => Kept u t) u := by
  simp only [uteeCrypObjPopulate, wp_bind, wp_teeObjGet hc]
  by_cases ha : a ∈ u.objects
  swap
  · have hne : teeErrorBadParameters ≠ teeSuccess := by decide
    simp only [if_neg ha, if_pos hne, wp_pure]
    exact Kept.refl u
  obtain ⟨o, ho⟩ := hc.objBlock ha
  have hok := hc.objOk a o (Utc.obj_iff.mpr ho)
  obtain ⟨-, tp, -, htp, -, -⟩ := id hok
  simp only [if_pos ha, ne_eq, not_true_eq_false, if_false, wp_bind, wp_objAt ho, htp]
  by_cases hper : o.info.has teeHandleFlagPersistent = true
  · rw [if_pos hper]
    exact Kept.refl u
  by_cases hini : o.info.has teeHandleFlagInitialized = true
  · rw [if_neg hper, if_pos hini]
    exact Kept.refl u
  by_cases hov : 2 ^ 32 ≤ sizeofTeeAttribute * l.length
  · rw [if_neg hper, if_neg hini, if_pos hov]
    exact Kept.refl u
  rw [if_neg hper, if_neg hini, if_neg hov, wp_bind]
  by_cases hl : l.length = 0
  · simp only [mallocAttrs, if_pos hl, wp_pure, if_true]
    exact Kept.refl u
  simp only [mallocAttrs, if_neg hl]
  apply alloc_cases
  · intro t ht hbl
    simp only [if_true, wp_pure]
    refine ⟨ht, fun q => ?_⟩
    rw [hbl]
    exact (Kept.refl u).blocks q
  · intro q t hq0 hq ht hbl
    simp only [if_neg hq0, wp_bind, wp_storeAt]
    -- the block holds the attributes while the object is written
    have hv : ∀ r, (t.store q (.attrs (copyInAttrs l))).heap.blocks r =
        if r = q then some (.attrs (copyInAttrs l)) else u.heap.blocks r := by
      intro r
      rw [Utc.store_blocks, hbl]
      split <;> rfl
    have hkeep : ∀ r c, u.heap.blocks r = some c →
        (t.store q (.attrs (copyInAttrs l))).heap.blocks r = some c := by
      intro r c hr
      rw [hv, if_neg, hr]
      rintro rfl
      rw [hq] at hr
      cases hr
    refine wp_mono (populateWith_kept (hkeep a _ ho)
      (hok.frame fun r c hr _ => hkeep r c hr) htp) fun res w hw => ?_
    obtain ⟨c, hc', hs⟩ := hw.block (b := .attrs (copyInAttrs l)) (by rw [hv, if_pos rfl])
    cases hs
    rw [wp_bind, wp_teeFree hq0 hc' (by rintro o ⟨⟩)]
    have hlists : SameLists u (t.store q (.attrs (copyInAttrs l))) :=
      ⟨ht.objects, ht.crypStates, ht.made, ht.freed⟩
    exact Kept.scratch hq hlists hv hw

theorem copyFrom_kept {o o' : TeeObj} {a' : Nat} (ho : u.heap.blocks a = some (.obj o))
    (hok : ObjOk u.heap.blocks a o) (ho' : u.heap.blocks a' = some (.obj o'))
    (hok' : ObjOk u.heap.blocks a' o') :
    wp (teeObjAttrCopyFrom a a') (fun _ t => Kept u t) u := by
  obtain ⟨htr, tp, x, htp, hb, hx⟩ := hok
  obtain ⟨-, tp', x', htp', hb', hx'⟩ := hok'
  simp only [teeObjAttrCopyFrom, wp_bind, wp_objAt ho, wp_objAt ho', htp]
  by_cases hd : o.info.objectType = teeTypeData
  · rw [if_pos hd]
    exact Kept.refl u
  by_cases h0 : o.attr = 0
  · rw [if_neg hd, if_pos h0]
    exact Kept.refl u
  rw [if_neg hd, if_neg h0]
  by_cases hty : o.info.objectType = o'.info.objectType
  · rw [← hty, htp, Option.some_inj] at htp'
    subst htp'
    rw [if_pos hty, wp_bind]
    refine wp_mono (copyAttrs_kept fun t ht ta hta => ?_) fun res t ht => ?_
    · obtain ⟨y, hy, hyok⟩ := ht.attrOk hx hb
      obtain ⟨y', hy', hyok'⟩ := ht.attrOk hx' hb'
      exact attrFromObj_kept hy hyok hy' hyok' hta
    · by_cases hr : res ≠ teeSuccess
      · rw [if_pos hr]
        exact ht
      · obtain ⟨o'', ho'', hs⟩ := ht.obj (Utc.obj_iff.mpr ho)
        rw [if_neg hr]
        exact ht.trans (Kept.store (Utc.obj_iff.mp ho'') (hs.rewrite rfl rfl rfl htr))
  · -- the public key types of the source are not in the table
    have hpub : (o.info.objectType, o'.info.objectType) ∉ publicKeyOf := by
      intro hmem
      have hnone : ∀ t ∈ publicKeyOf, teeSvcFindTypeProps t.1 = none := by decide
      have hn := hnone _ hmem
      rw [htp] at hn
      cases hn
    rw [if_neg hty, if_pos hpub]
    exact Kept.refl u

theorem uteeCrypObjCopy_kept (hc : Core p u) {d s : Nat} :
    wp (uteeCrypObjCopy d s) (fun _ t => Kept u t) u := by
  have hne : teeErrorBadParameters ≠ teeSuccess := by decide
  simp only [uteeCrypObjCopy, wp_bind, wp_teeObjGet hc]
  by_cases hd : d ∈ u.objects
  swap
  · simp only [if_neg hd, if_pos hne, wp_pure]
    exact Kept.refl u
  simp only [if_pos hd, ne_eq, not_true_eq_false, if_false, wp_bind, wp_teeObjGet hc]
  by_cases hs : s ∈ u.objects
  swap
  · simp only [if_neg hs]
    exact Kept.refl u
  obtain ⟨od, hod⟩ := hc.objBlock hd
  obtain ⟨os, hos⟩ := hc.objBlock hs
  have hokd := hc.objOk d od (Utc.obj_iff.mpr hod)
  have hoks := hc.objOk s os (Utc.obj_iff.mpr hos)
  simp only [if_pos hs, not_true_eq_false, if_false, wp_bind, wp_objAt hod, wp_objAt hos]
  split
  · exact Kept.refl u
  split
  · exact Kept.refl u
  split
  · exact Kept.refl u
  rw [wp_bind]
  refine wp_mono (copyFrom_kept hod hokd hos hoks) fun res t ht => ?_
  split
  · exact ht
  · obtain ⟨od', hod', hsd⟩ := ht.obj (Utc.obj_iff.mpr hod)
    obtain ⟨os', hos', -⟩ := ht.obj (Utc.obj_iff.mpr hos)
    have hokd' := hokd.kept ht hsd
    simp only [wp_bind, wp_objAt (Utc.obj_iff.mp hod'), wp_objAt (Utc.obj_iff.mp hos'), wp_storeAt,
      wp_pure]
    refine ht.trans (Kept.store (Utc.obj_iff.mp hod') ((SameBlock.refl _).rewrite rfl rfl rfl ?_))
    rw [has_eq_false, has_or (by decide), has_eq_false.mp hokd'.transient]

end

end MTower.Cryp
