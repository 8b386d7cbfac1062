import MTower.Cryp.Room
import MTower.Cryp.Secret

/-!
# Objects that are not initialised

An object that is not initialised has the information of a new one, and its secret is all zeros.
That is so in every state that a session reaches, also after objects were closed, when the list of
objects may hold addresses that are no longer allocated: what is said here does not mention the
lists, and a call that runs into such an address faults.

* `Tidy`, `Sane`            the invariant of an object and of a state;
* `Sane.around`, `Sane.rewritten`  what a call on one object leaves of it;
* `Utc.renewed`             the state in which one object is as new;
* `…_sane`                  one lemma for each call;
* `sane_call`               every call keeps the invariant, if it ends.
-/

set_option linter.unusedVariables false

namespace MTower.Cryp
open Lib Kernel

/-! ## the invariant -/

/-- an object that is not initialised has the information of a new one, and its secret is blank -/
structure Tidy (b : Blocks) (x : TeeObj) : Prop where
  flags : x.info.handleFlags = 0 ∨ x.info.handleFlags = teeHandleFlagInitialized
  unset : x.info.handleFlags = 0 → x.info.keySize = 0 ∧ x.info.objectUsage = teeUsageDefault
  blank : x.info.handleFlags = 0 → ∀ own k n data, b x.attr = some (.attr own (.secret k n data)) →
    k = 0 ∧ data = List.replicate n 0

structure Sane (u : Utc) : Prop where
  null : u.heap.blocks 0 = none
  ok : ∀ a x, u.obj a = some x → ObjOk u.heap.blocks a x
  tidy : ∀ a x, u.obj a = some x → Tidy u.heap.blocks x
  ctx : ∀ s cs, u.st s = some cs → cs.ctx = 0 ∨ u.heap.blocks cs.ctx = some (.ctx s)

section
variable {p : Provider} {u t v : Utc} {a b o q : Nat} {x x' : TeeObj} {m : Member}
  {ta : TypeAttr}

theorem Sane.empty (answers : Nat → Nat) : Sane (Utc.empty answers) where
  null := rfl
  ok := fun a x hx => absurd hx (by simp [Utc.obj, Utc.empty, Heap.empty])
  tidy := fun a x hx => absurd hx (by simp [Utc.obj, Utc.empty, Heap.empty])
  ctx := fun s cs hs => absurd hs (by simp [Utc.st, Utc.empty, Heap.empty])

theorem Tidy.congr {b b' : Blocks} (h : Tidy b x) (hb : b' x.attr = b x.attr) : Tidy b' x where
  flags := h.flags
  unset := h.unset
  blank := by
    rw [hb]
    exact h.blank

theorem Tidy.of_initialized {b : Blocks} (hx : x.info.handleFlags = teeHandleFlagInitialized) :
    Tidy b x where
  flags := .inr hx
  unset := fun h => absurd (hx.symm.trans h) (by decide)
  blank := fun h => absurd (hx.symm.trans h) (by decide)

theorem Tidy.has_iff {b : Blocks} (h : Tidy b x) :
    x.info.has teeHandleFlagInitialized = false ↔ x.info.handleFlags = 0 := by
  rw [has_eq_false]
  obtain h0 | h0 := h.flags
  · rw [h0]
    exact iff_of_true (by decide) rfl
  · rw [h0]
    exact iff_of_false (by decide) (by decide)

/-- the block behind the attributes of an object -/
theorem ObjOk.block {b : Blocks} (h : ObjOk b a x) : ∃ y, b x.attr = some (.attr a y) := by
  obtain ⟨-, tp, y, -, hb, -⟩ := h
  exact ⟨y, hb⟩

/-- the blocks of `o` change, and `o` is still in order -/
theorem Sane.around (hs : Sane u) (h0 : o ≠ 0) (h : Around o u.heap.blocks t.heap.blocks)
    (hown : ∀ c, u.heap.blocks o = some c → c.owner = none)
    (hobj : ∀ x, t.obj o = some x → ObjOk t.heap.blocks o x ∧ Tidy t.heap.blocks x)
    (hst : ∀ cs, t.st o = some cs → cs.ctx = 0 ∨ t.heap.blocks cs.ctx = some (.ctx o)) :
    Sane t where
  null := by
    rcases h 0 h0.symm with e | ⟨hne, -⟩
    · rw [e, hs.null]
    · exact absurd rfl hne
  ok := by
    intro a x hx
    by_cases ha : a = o
    · subst ha
      exact (hobj x hx).1
    · rw [h.obj ha] at hx
      exact (hs.ok a x hx).frame fun q c hq hc => h.other hown ha hq hc
  tidy := by
    intro a x hx
    by_cases ha : a = o
    · subst ha
      exact (hobj x hx).2
    · rw [h.obj ha] at hx
      obtain ⟨y, hy⟩ := (hs.ok a x hx).block
      exact (hs.tidy a x hx).congr ((h.other hown ha hy rfl).trans hy.symm)
  ctx := by
    intro s cs hcs
    by_cases ha : s = o
    · subst ha
      exact hst cs hcs
    · rw [h.st ha] at hcs
      exact (hs.ctx s cs hcs).imp_right fun hb => h.other hown ha hb rfl

theorem Sane.congr (hs : Sane u) (hb : t.heap.blocks = u.heap.blocks) : Sane t := by
  have hobj : t.obj = u.obj := by
    funext q
    unfold Utc.obj
    rw [hb]
  have hst : t.st = u.st := by
    funext q
    unfold Utc.st
    rw [hb]
  constructor
  · rw [hb]
    exact hs.null
  · rw [hb, hobj]
    exact hs.ok
  · rw [hb, hobj]
    exact hs.tidy
  · rw [hb, hst]
    exact hs.ctx

/-! ## secrets that stay -/

/-- the secrets stay as they are, the one at `q` apart -/
def Secrets (q : Nat) (u t : Utc) : Prop :=
  ∀ r own k n data, r ≠ q → u.heap.blocks r = some (.attr own (.secret k n data)) →
    t.heap.blocks r = u.heap.blocks r

theorem Secrets.refl (q : Nat) (u : Utc) : Secrets q u u := fun _ _ _ _ _ _ _ => rfl

theorem Secrets.trans (h : Secrets q u t) (h' : Secrets q t v) : Secrets q u v := by
  intro r own k n data hr hb
  have e := h r own k n data hr hb
  exact (h' r own k n data hr (e.trans hb)).trans e

def Block.IsSecret : Block → Prop
  | .attr _ (.secret _ _ _) => True
  | _ => False

theorem secrets_store {c d : Block} (hc : u.heap.blocks o = some c) (hn : o = q ∨ ¬ c.IsSecret) :
    Secrets q u (u.store o d) := by
  intro r own k n data hr hb
  rw [Utc.store_blocks, if_neg]
  rintro rfl
  obtain rfl | hn := hn
  · exact hr rfl
  · rw [hb] at hc
    cases hc
    exact hn trivial

theorem setMember_secrets {w : Nat} : wlp (setMember q m w) (fun _ t => Secrets q u t) u := by
  rw [setMember, wlp_bind, wlp_blockAt]
  intro c hc
  cases c with
  | attr own y => exact secrets_store hc (.inl rfl)
  | _ => trivial

theorem setBignum_secrets {w : Nat} : wlp (setBignum o w) (fun _ t => Secrets q u t) u := by
  rw [setBignum, wlp_bind, wlp_blockAt]
  intro c hc
  cases c with
  | bignum own m v => exact secrets_store hc (.inr id)
  | _ => trivial

theorem attrClear_secrets : wlp (attrClear q ta) (fun _ t => Secrets q u t) u := by
  unfold attrClear
  cases ta.opsIndex with
  | secret =>
    show wlp (opAttrSecretValueClear q) _ u
    rw [opAttrSecretValueClear, wlp_bind, wlp_blockAt]
    intro c hc
    cases c with
    | attr own y =>
      cases y with
      | secret k n data =>
        show wlp (if data.length < n then _ else _) _ u
        by_cases hn : data.length < n
        · rw [if_pos hn]
          trivial
        · rw [if_neg hn]
          exact secrets_store hc (.inl rfl)
      | ecc d e f c => trivial
    | _ => trivial
  | bignum =>
    show wlp (opAttrBignumClear q ta.raw) _ u
    rw [opAttrBignumClear, wlp_bind]
    apply wlp_mono memberAt_objs
    rintro bn t rfl
    exact setBignum_secrets
  | value => exact setMember_secrets

theorem attrFromUser_secrets (buffer : List UInt8) :
    wlp (attrFromUser p q ta buffer) (fun _ t => Secrets q u t) u := by
  unfold attrFromUser
  cases ta.opsIndex with
  | secret =>
    show wlp (opAttrSecretValueFromUser q buffer) _ u
    rw [opAttrSecretValueFromUser, wlp_bind, wlp_blockAt]
    intro c hc
    cases c with
    | attr own y =>
      cases y with
      | secret k n data =>
        show wlp (if n < buffer.length then _ else _) _ u
        by_cases hn : n < buffer.length
        · rw [if_pos hn]
          exact Secrets.refl q u
        · rw [if_neg hn]
          by_cases hd : data.length < buffer.length
          · rw [if_pos hd]
            trivial
          · rw [if_neg hd]
            exact secrets_store hc (.inl rfl)
      | ecc d e f c => trivial
    | _ => trivial
  | bignum =>
    show wlp (opAttrBignumFromUser p q ta.raw buffer) _ u
    rw [opAttrBignumFromUser, wlp_bind]
    apply wlp_mono memberAt_objs
    rintro bn t rfl
    rw [wlp_bind]
    apply wlp_mono bignumAt_objs
    rintro w t rfl
    rw [wlp_bind]
    exact wlp_mono setBignum_secrets fun _ _ h => h
  | value =>
    show wlp (opAttrValueFromUser q ta.raw buffer) _ u
    rw [opAttrValueFromUser]
    by_cases h8 : buffer.length ≠ 8
    · rw [if_pos h8]
      exact Secrets.refl q u
    · rw [if_neg h8, wlp_bind]
      exact wlp_mono setMember_secrets fun _ _ h => h

theorem attrFromObj_secrets {q' : Nat} {ta' : TypeAttr} :
    wlp (attrFromObj q q' ta ta') (fun _ t => Secrets q u t) u := by
  unfold attrFromObj
  cases ta.opsIndex with
  | secret =>
    show wlp (opAttrSecretValueFromObj q q') _ u
    rw [opAttrSecretValueFromObj, wlp_bind, wlp_blockAt]
    intro c hc
    cases c with
    | attr own' y' =>
      cases y' with
      | secret k n' src =>
        show wlp (blockAt q >>= _) _ u
        rw [wlp_bind, wlp_blockAt]
        intro c hc
        cases c with
        | attr own y =>
          cases y with
          | secret k0 n data =>
            show wlp (if n < k then _ else _) _ u
            by_cases hn : n < k
            · rw [if_pos hn]
              exact Secrets.refl q u
            · rw [if_neg hn]
              by_cases hd : data.length < k ∨ src.length < k
              · rw [if_pos hd]
                trivial
              · rw [if_neg hd]
                exact secrets_store hc (.inl rfl)
          | ecc d e f c => trivial
        | _ => trivial
      | ecc d e f c => trivial
    | _ => trivial
  | bignum =>
    show wlp (opAttrBignumFromObj q q' ta.raw ta'.raw) _ u
    rw [opAttrBignumFromObj, wlp_bind]
    apply wlp_mono memberAt_objs
    rintro bn t rfl
    rw [wlp_bind]
    apply wlp_mono memberAt_objs
    rintro src t rfl
    rw [wlp_bind]
    apply wlp_mono bignumAt_objs
    rintro w t rfl
    rw [wlp_bind]
    exact wlp_mono setBignum_secrets fun _ _ h => h
  | value =>
    show wlp (opAttrValueFromObj q q' ta.raw ta'.raw) _ u
    rw [opAttrValueFromObj, wlp_bind]
    apply wlp_mono memberAt_objs
    rintro w t rfl
    rw [wlp_bind]
    exact wlp_mono setMember_secrets fun _ _ h => h

theorem forAttrs_secrets {f : TypeAttr → C Unit} {l : List TypeAttr}
    (h : ∀ ta t, wlp (f ta) (fun _ t' => Secrets q t t') t) :
    wlp (forAttrs f l) (fun _ t => Secrets q u t) u := by
  induction l generalizing u with
  | nil => exact Secrets.refl q u
  | cons ta l ih =>
    rw [forAttrs, wlp_bind]
    apply wlp_mono (h ta u)
    intro _ t ht
    exact wlp_mono ih fun _ _ hv => ht.trans hv

theorem copyAttrs_secrets {f : TypeAttr → C Nat} {l : List TypeAttr}
    (h : ∀ ta t, wlp (f ta) (fun _ t' => Secrets q t t') t) :
    wlp (copyAttrs f l) (fun _ t => Secrets q u t) u := by
  induction l generalizing u with
  | nil => exact Secrets.refl q u
  | cons ta l ih =>
    rw [copyAttrs, wlp_bind]
    apply wlp_mono (h ta u)
    intro res t ht
    by_cases hr : res ≠ teeSuccess
    · rw [if_pos hr]
      exact ht
    · rw [if_neg hr]
      exact wlp_mono ih fun _ _ hv => ht.trans hv

theorem populateAttrs_secrets {tp : TypeProps} {mem : Nat → UInt8} {l : List TeeAttribute}
    {have_ size : Nat} :
    wlp (populateAttrs p mem q tp l have_ size) (fun _ t => Secrets q u t) u := by
  induction l generalizing u have_ size with
  | nil => exact Secrets.refl q u
  | cons e l ih =>
    rw [populateAttrs]
    cases teeSvcCrypObjFindTypeAttrIdx e.attributeID tp with
    | none => exact Secrets.refl q u
    | some i =>
      dsimp only
      cases tp.typeAttrs[i]? with
      | none => trivial
      | some ta =>
        show wlp (attrFromUser p q ta (e.buffer mem) >>= _) _ u
        rw [wlp_bind]
        apply wlp_mono (attrFromUser_secrets _)
        intro res t ht
        by_cases hr : res ≠ teeSuccess
        · rw [if_pos hr]
          exact ht
        · rw [if_neg hr]
          exact wlp_mono ih fun _ _ hv => ht.trans hv

end

/-! ## a new object -/

/-- the zeroed attributes, with the pointers that they hold -/
def Attr.blank : Attr → Attr
  | .secret _ n _ => .secret 0 n (List.replicate n 0)
  | .ecc d x y _ => .ecc d x y 0

def Attr.bignums : Attr → List Nat
  | .secret _ _ _ => []
  | .ecc d x y _ => [d, x, y]

/-- the object as `tee_obj_set_type` leaves it; `busy` is up to the states that use it -/
def TeeObj.renewed (x : TeeObj) : TeeObj :=
  { x with info := ⟨x.info.objectType, 0, x.info.maxKeySize, teeUsageDefault, 0⟩, haveAttrs := 0 }

def Block.renewed : Block → Block
  | .obj x => .obj x.renewed
  | .attr own y => .attr own y.blank
  | .bignum own m _ => .bignum own m 0
  | c => c

/-- the blocks of the object `a` -/
def Utc.parts (u : Utc) (a : Nat) : List Nat :=
  match u.obj a with
  | none => []
  | some x => a :: x.attr :: match u.heap.blocks x.attr with
    | some (.attr _ y) => y.bignums
    | _ => []

def Utc.renewedBlocks (u : Utc) (a q : Nat) : Option Block :=
  if q ∈ u.parts a then (u.heap.blocks q).map Block.renewed else u.heap.blocks q

/-- the same state with the object at `a` as if it had just been allocated -/
def Utc.renewed (u : Utc) (a : Nat) : Utc := { u with heap.blocks := u.renewedBlocks a }

section
variable {p : Provider} {u t v : Utc} {a b o q : Nat} {x x' : TeeObj} {m : Member}
  {ta : TypeAttr} {tp : TypeProps} {y : Attr}

theorem parts_eq (hx : u.obj a = some x) (hy : u.heap.blocks x.attr = some (.attr o y)) :
    u.parts a = a :: x.attr :: y.bignums := by
  rw [Utc.parts, hx]
  show a :: x.attr :: _ = _
  rw [hy]

theorem renewed_of_mem (hq : q ∈ u.parts a) :
    (u.renewed a).heap.blocks q = (u.heap.blocks q).map Block.renewed := if_pos hq

theorem renewed_of_notMem (hq : q ∉ u.parts a) :
    (u.renewed a).heap.blocks q = u.heap.blocks q := if_neg hq

theorem wp_bignumClear {bn w : Nat} {Q : Unit → Utc → Prop}
    (hq : u.heap.blocks q = some (.attr o y)) (hg : y.get? m = some bn)
    (hb : u.heap.blocks bn = some (.bignum a m w)) :
    wp (opAttrBignumClear q m) Q u ↔ Q () (u.store bn (.bignum a m 0)) := by
  rw [opAttrBignumClear, wp_bind, wp_memberAt hq hg, wp_setBignum hb]

/-- **Clearing the attributes gives the blocks of a new object.** -/
theorem teeObjAttrClear_renewed (h0 : u.heap.blocks 0 = none) (hx : u.obj a = some x)
    (hok : ObjOk u.heap.blocks a x) :
    wp (teeObjAttrClear a) (fun _ t => ∀ q ∈ u.parts a, q ≠ a →
      t.heap.blocks q = (u.heap.blocks q).map Block.renewed) u := by
  obtain ⟨-, tp, y, htp, hb, hy⟩ := hok
  have hne : ¬ x.attr = 0 := ne_zero_of_null h0 hb
  rw [parts_eq hx hb, teeObjAttrClear, onAttrs, wp_bind, wp_objAt (Utc.obj_iff.mp hx), if_neg hne,
    htp]
  show wp (forAttrs (attrClear x.attr) tp.typeAttrs) _ u
  cases y with
  | secret k n data =>
    obtain ⟨hty, -, hk, hl⟩ := hy
    have hn : ¬ data.length < n := by omega
    have hdrop : data.drop n = [] := List.drop_eq_nil_of_le (by omega)
    rw [hty]
    simp only [teeCrypObjSecretValueAttrs, forAttrs, attrClear, opAttrSecretValueClear, wp_bind,
      wp_blockAt hb, if_neg hn, wp_storeAt, wp_pure]
    intro q hq hqa
    obtain rfl : q = x.attr := by simpa [Attr.bignums, hqa] using hq
    rw [Utc.store_blocks, if_pos rfl, hb, hdrop, List.append_nil]
    rfl
  | ecc d e f cv =>
    obtain ⟨hty, ⟨wd, hd⟩, ⟨we, he⟩, ⟨wf, hf⟩⟩ := hy
    have hqd : x.attr ≠ d := fun h => by rw [h, hd] at hb; cases hb
    have hqe : x.attr ≠ e := fun h => by rw [h, he] at hb; cases hb
    have hqf : x.attr ≠ f := fun h => by rw [h, hf] at hb; cases hb
    have hde : d ≠ e := fun h => by rw [h, he] at hd; cases hd
    have hdf : d ≠ f := fun h => by rw [h, hf] at hd; cases hd
    have hef : e ≠ f := fun h => by rw [h, hf] at he; cases he
    rw [hty]
    simp only [teeCrypObjEccKeypairAttrs, forAttrs, attrClear, opAttrValueClear]
    rw [wp_bind, wp_bignumClear hb rfl hd, wp_bind, wp_bignumClear (y := .ecc d e f cv) (o := a)
      (by rw [Utc.store_blocks, if_neg hqd, hb]) rfl
      (by rw [Utc.store_blocks, if_neg hde.symm, he]), wp_bind,
      wp_bignumClear (y := .ecc d e f cv) (o := a)
        (by rw [Utc.store_blocks, if_neg hqe, Utc.store_blocks, if_neg hqd, hb]) rfl
        (by rw [Utc.store_blocks, if_neg hef.symm, Utc.store_blocks, if_neg hdf.symm, hf]), wp_bind,
      wp_setMember (x := .ecc d e f cv) (a := a)
        (by rw [Utc.store_blocks, if_neg hqf, Utc.store_blocks, if_neg hqe, Utc.store_blocks,
          if_neg hqd, hb]), wp_pure]
    intro q hq hqa
    obtain rfl | rfl | rfl | rfl : q = x.attr ∨ q = d ∨ q = e ∨ q = f := by
      simpa [Attr.bignums, hqa] using hq
    · rw [Utc.store_blocks, if_pos rfl, hb]
      rfl
    · rw [Utc.store_blocks, if_neg hqd.symm, Utc.store_blocks, if_neg hdf, Utc.store_blocks,
        if_neg hde, Utc.store_blocks, if_pos rfl, hd]
      rfl
    · rw [Utc.store_blocks, if_neg hqe.symm, Utc.store_blocks, if_neg hef, Utc.store_blocks,
        if_pos rfl, he]
      rfl
    · rw [Utc.store_blocks, if_neg hqf.symm, Utc.store_blocks, if_pos rfl, hf]
      rfl

end

/-! ## calls on one object -/

section
variable {p : Provider} {u t v : Utc} {a b q : Nat} {x x' y : TeeObj} {tp : TypeProps}
  {mem : Nat → UInt8}

theorem teeObjGet_cases (k : Nat) (u : Utc) : wlp (teeObjGet k) (fun r t =>
    t = u ∧ r = if k ∈ u.objects then teeSuccess else teeErrorBadParameters) u := by
  have hl : ∀ l : List Nat, wlp (lookup objAt k l) (fun b t => t = u ∧ b = decide (k ∈ l)) u := by
    intro l
    induction l with
    | nil => exact ⟨rfl, rfl⟩
    | cons q l ih =>
      rw [lookup]
      by_cases hq : k = q
      · rw [if_pos hq]
        exact ⟨rfl, by simp [hq]⟩
      · rw [if_neg hq, wlp_bind]
        apply wlp_mono (objAt_same q u)
        rintro _ t rfl
        simpa [hq] using ih
  rw [teeObjGet, wlp_bind, wlp_get, wlp_bind]
  apply wlp_mono (hl u.objects)
  rintro b t ⟨rfl, rfl⟩
  rw [wlp_pure]
  by_cases hk : k ∈ t.objects
  · simp [hk]
  · simp [hk]

/-- the object `a` changes, with its blocks -/
theorem Sane.rewritten (hs : Sane u) (hx : u.obj a = some x) (hk : Kept u t)
    (hobj : ∀ b, b ≠ a → t.obj b = u.obj b) (hsec : Secrets x.attr u t)
    (htidy : ∀ x', t.obj a = some x' → Tidy t.heap.blocks x') : Sane t where
  null := hk.free hs.null
  ok := by
    intro b z' hz'
    obtain ⟨z, hz, hzz⟩ := hk.obj_of hz'
    exact (hs.ok b z hz).kept hk hzz
  tidy := by
    intro b z hz
    by_cases hb : b = a
    · subst hb
      exact htidy z hz
    · rw [hobj b hb] at hz
      have hzt := hs.tidy b z hz
      refine ⟨hzt.flags, hzt.unset, fun h0 own k n data hd => ?_⟩
      obtain ⟨c, hc, hcs⟩ := hk.block_of hd
      have hsecret : ∃ own k n data, u.heap.blocks z.attr = some (.attr own (.secret k n data)) := by
        cases hcs with
        | refl => exact ⟨_, _, _, _, hc⟩
        | secret => exact ⟨_, _, _, _, hc⟩
      obtain ⟨own', k', n', data', hu⟩ := hsecret
      have hne : z.attr ≠ x.attr := by
        intro e
        obtain ⟨y1, h1⟩ := (hs.ok b z hz).block
        obtain ⟨y2, h2⟩ := (hs.ok a x hx).block
        rw [e, h2] at h1
        cases h1
        exact hb rfl
      rw [hsec _ _ _ _ _ hne hu] at hd
      exact hzt.blank h0 own k n data hd
  ctx := by
    intro s cs hcs
    rw [hk.st_eq] at hcs
    refine (hs.ctx s cs hcs).imp_right fun hb => ?_
    obtain ⟨c, hc, hcs⟩ := hk.block hb
    cases hcs
    exact hc

theorem cleared_flags {b : Blocks} (h : Tidy b x) : x.cleared.info.handleFlags = 0 := by
  show x.info.handleFlags &&& _ = 0
  obtain h0 | h0 := h.flags <;> rw [h0] <;> decide

theorem store_obj_kept {z : TeeObj} (hx : u.heap.blocks a = some (.obj x)) (busy : z.busy = x.busy)
    (attr : z.attr = x.attr) (type : z.info.objectType = x.info.objectType)
    (flags : z.info.handleFlags = 0 ∨ z.info.handleFlags = teeHandleFlagInitialized) :
    Kept u (u.store a (.obj z)) := by
  refine Kept.store hx (.obj busy attr type fun _ => has_eq_false.mpr ?_)
  obtain h | h := flags <;> rw [h] <;> decide

theorem teeObjAttrClear_secrets (hx : u.heap.blocks a = some (.obj x)) :
    wlp (teeObjAttrClear a) (fun _ t => Secrets x.attr u t) u := by
  rw [teeObjAttrClear, onAttrs, wlp_bind, wlp_objAt]
  intro z hz
  cases hx.symm.trans hz
  by_cases h0 : x.attr = 0
  · rw [if_pos h0]
    exact Secrets.refl x.attr u
  · rw [if_neg h0]
    cases teeSvcFindTypeProps x.info.objectType with
    | none => exact Secrets.refl x.attr u
    | some tp => exact forAttrs_secrets fun ta t => attrClear_secrets

/-- **A reset object is a new one**, up to the mask of its attributes. -/
theorem reset_sane (hs : Sane u) : wlp (uteeCrypObjReset a) (fun r t => Sane t ∧
    (a ∈ u.objects → r = teeSuccess) ∧ (r = teeSuccess → ∃ x, u.obj a = some x ∧
      t.obj a = some x.cleared ∧ x.cleared.info.handleFlags = 0 ∧
      ∀ q ∈ t.parts a, q ≠ a → t.heap.blocks q = (t.renewed a).heap.blocks q)) u := by
  rw [uteeCrypObjReset, wlp_bind]
  apply wlp_mono (teeObjGet_cases a u)
  rintro r t ⟨rfl, rfl⟩
  by_cases ha : a ∈ t.objects
  swap
  · have hne : teeErrorBadParameters ≠ teeSuccess := by decide
    rw [if_neg ha, if_pos hne]
    exact ⟨hs, fun h => absurd h ha, fun h => absurd h hne⟩
  rw [if_pos ha, if_neg (not_not.mpr rfl), wlp_bind, wlp_objAt]
  intro x hxb
  have hx := Utc.obj_iff.mpr hxb
  have hok := hs.ok a x hx
  have ht := hs.tidy a x hx
  have h0 := cleared_flags ht
  rw [if_neg (by simp [hok.transient]), wlp_bind]
  apply wlp_mono (wlp_of_wp (wp_and (wp_and (teeObjAttrClear_renewed hs.null hx hok)
    (wlp_of_wp (teeObjAttrClear_kept hxb hok)))
    (wlp_and (teeObjAttrClear_secrets hxb) teeObjAttrClear_objs)))
  rintro _ v ⟨⟨hren, hk⟩, hsec, hobj⟩
  have hxv : v.heap.blocks a = some (.obj x) := by
    rw [← Utc.obj_iff, hobj]
    exact hx
  have hkt : Kept t (v.store a (.obj x.cleared)) :=
    hk.trans (store_obj_kept hxv rfl rfl rfl (.inl h0))
  have hself : (v.store a (.obj x.cleared)).obj a = some x.cleared := by
    rw [Utc.obj_iff, Utc.store_blocks, if_pos rfl]
  obtain ⟨z, hz⟩ := hok.block
  have hza : x.attr ≠ a := by
    intro e
    rw [e, hxb] at hz
    cases hz
  have hpt : t.parts a = a :: x.attr :: z.bignums := parts_eq hx hz
  have hzv : (v.store a (.obj x.cleared)).heap.blocks x.attr = some (.attr a z.blank) := by
    rw [Utc.store_blocks, if_neg hza, hren x.attr (by rw [hpt]; simp) hza, hz]
    rfl
  have hp : (v.store a (.obj x.cleared)).parts a = t.parts a := by
    rw [parts_eq hself hzv, hpt]
    cases z <;> rfl
  have hidem : ∀ c : Block, c.renewed.renewed = c.renewed := by
    intro c
    cases c with
    | attr own y => cases y <;> simp [Block.renewed, Attr.blank]
    | _ => rfl
  have hblank : ∀ q ∈ (v.store a (.obj x.cleared)).parts a, q ≠ a →
      (v.store a (.obj x.cleared)).heap.blocks q =
        ((v.store a (.obj x.cleared)).renewed a).heap.blocks q := by
    intro q hq hqa
    rw [renewed_of_mem hq, Utc.store_blocks, if_neg hqa, hren q (hp ▸ hq) hqa, Option.map_map]
    cases t.heap.blocks q with
    | none => rfl
    | some c => exact congrArg some (hidem c).symm
  refine ⟨?_, fun _ => rfl, fun _ => ⟨x, hx, hself, h0, hblank⟩⟩
  have hst := secrets_store (q := x.attr) (o := a) (d := .obj x.cleared) hxv (.inr id)
  refine hs.rewritten hx hkt ?_ (hsec.trans hst) ?_
  · intro b hb
    rw [store_obj_objs, Function.update_of_ne hb, hobj]
  · intro x' hx'
    cases hself.symm.trans hx'
    refine ⟨.inl h0, fun _ => ⟨rfl, rfl⟩, fun _ own k n data hd => ?_⟩
    cases z with
    | secret k0 n0 d0 =>
      cases hzv.symm.trans hd
      exact ⟨rfl, rfl⟩
    | ecc d e f c => cases hzv.symm.trans hd

end

section
variable {p : Provider} {u t v w : Utc} {a b q : Nat} {x x' y : TeeObj} {tp : TypeProps}
  {mem : Nat → UInt8}

theorem populateWith_secrets {l : List TeeAttribute} (hx : u.heap.blocks a = some (.obj x)) :
    wlp (populateWith p mem a tp l) (fun _ t => Secrets x.attr u t) u := by
  rw [populateWith]
  by_cases hch : teeSvcCrypCheckAttr .populate tp l ≠ teeSuccess
  · rw [if_pos hch]
    exact Secrets.refl x.attr u
  rw [if_neg hch, wlp_bind, teeSvcCrypObjPopulateType, wlp_bind, wlp_objAt]
  intro z hz
  cases hx.symm.trans hz
  rw [wlp_bind]
  apply wlp_mono (wlp_and populateAttrs_secrets populateAttrs_objs)
  rintro r t ⟨ht, hobj, -⟩
  have hxt : t.heap.blocks a = some (.obj x) := by
    rw [← Utc.obj_iff, hobj]
    exact Utc.obj_iff.mpr hx
  by_cases hr : r.1 ≠ teeSuccess
  · rw [if_pos hr, wlp_pure, if_pos hr]
    exact ht
  · rw [if_neg hr, wlp_bind, wlp_storeAt, wlp_pure, if_neg (not_not.mpr rfl), wlp_bind, setInitialized,
      wlp_bind, wlp_objAt]
    intro z hz
    rw [wlp_storeAt, wlp_pure]
    exact (ht.trans (secrets_store hxt (.inr id))).trans (secrets_store hz (.inr id))

/-- a secret is refused before it is written -/
theorem populateWith_refused {l : List TeeAttribute}
    (hs : tp.typeAttrs = teeCrypObjSecretValueAttrs) :
    wlp (populateWith p mem a tp l) (fun r t => r ≠ teeSuccess → t = u) u := by
  rw [populateWith]
  by_cases hch : teeSvcCrypCheckAttr .populate tp l ≠ teeSuccess
  · rw [if_pos hch]
    exact fun _ => rfl
  obtain ⟨e, rfl, hid⟩ := (checkAttr_secret hs l).mp (not_not.mp hch)
  have hidx : tp.typeAttrs[0]? = some ⟨teeAttrSecretValue,
      teeTypeAttrRequired ||| teeTypeAttrSizeIndicator, .secret, .secret⟩ := by
    rw [hs]
    rfl
  rw [if_neg hch, wlp_bind, teeSvcCrypObjPopulateType, wlp_bind, wlp_objAt]
  intro z hz
  rw [wlp_bind, populateAttrs, findIdx_secret hs, if_pos hid]
  dsimp only
  rw [hidx]
  show wlp (opAttrSecretValueFromUser z.attr (e.buffer mem) >>= _) _ u
  rw [wlp_bind, opAttrSecretValueFromUser, wlp_bind, wlp_blockAt]
  intro c hc
  cases c with
  | attr own y =>
    cases y with
    | secret k n data =>
      show wlp (if n < (e.buffer mem).length then _ else _) _ u
      by_cases hn : n < (e.buffer mem).length
      · have hsec : teeErrorSecurity ≠ teeSuccess := by decide
        rw [if_pos hn, wlp_pure, if_pos hsec, wlp_pure, if_pos hsec, wlp_pure, if_pos hsec]
        exact fun _ => rfl
      · rw [if_neg hn]
        by_cases hd : data.length < (e.buffer mem).length
        · rw [if_pos hd]
          trivial
        · rw [if_neg hd, wlp_bind, wlp_storeAt, wlp_pure, if_neg (not_not.mpr rfl)]
          show wlp _ _ _
          rw [populateAttrs, wlp_pure, if_neg (not_not.mpr rfl), wlp_bind, wlp_storeAt, wlp_pure,
            if_neg (not_not.mpr rfl), wlp_bind]
          exact wlp_mono (wlp_true _ _) fun _ _ _ h => absurd rfl h
    | ecc d e f c => trivial
  | _ => trivial

/-- populating an object that is not initialised -/
theorem populateWith_sane {l : List TeeAttribute} (hs : Sane u) (hx : u.obj a = some x)
    (h0 : x.info.handleFlags = 0) (htp : teeSvcFindTypeProps x.info.objectType = some tp) :
    wlp (populateWith p mem a tp l) (fun r t => Sane t ∧ (r ≠ teeSuccess → t.obj = u.obj) ∧
      Kept u t ∧ ∀ b, b ≠ a → t.obj b = u.obj b) u := by
  have hxb := Utc.obj_iff.mp hx
  have hok := hs.ok a x hx
  have href : tp.typeAttrs = teeCrypObjSecretValueAttrs →
      wlp (populateWith p mem a tp l) (fun r t => r ≠ teeSuccess → t = u) u := populateWith_refused
  have hsec : wlp (populateWith p mem a tp l) (fun r t =>
      tp.typeAttrs = teeCrypObjSecretValueAttrs → r ≠ teeSuccess → t = u) u := by
    by_cases h : tp.typeAttrs = teeCrypObjSecretValueAttrs
    · exact wlp_mono (href h) fun r t ht _ => ht
    · exact wlp_mono (wlp_true _ u) fun r t _ hty => absurd hty h
  apply wlp_mono (wlp_and (wlp_and (wlp_of_wp (populateWith_kept hxb hok htp))
    (populateWith_objs hxb)) (wlp_and (populateWith_secrets hxb) hsec))
  rintro r t ⟨⟨hk, hobj⟩, hst, hfail⟩
  obtain ⟨rfl, h, hobj⟩ | ⟨hr, hobj⟩ := hobj
  · have hother : ∀ b, b ≠ a → t.obj b = u.obj b := by
      intro b hb
      rw [hobj, Function.update_of_ne hb]
    refine ⟨hs.rewritten hx hk hother hst ?_, fun hr => absurd rfl hr, hk, hother⟩
    intro x' hx'
    rw [hobj, Function.update_self] at hx'
    cases hx'
    apply Tidy.of_initialized
    show x.info.handleFlags ||| teeHandleFlagInitialized = _
    rw [h0]
    decide
  · refine ⟨?_, fun _ => hobj, hk, fun b _ => by rw [hobj]⟩
    by_cases hty : tp.typeAttrs = teeCrypObjSecretValueAttrs
    · rw [hfail hty hr]
      exact hs
    refine hs.rewritten hx hk (fun b _ => by rw [hobj]) hst ?_
    intro x' hx'
    rw [hobj] at hx'
    cases hx.symm.trans hx'
    have ht := hs.tidy a x hx
    refine ⟨ht.flags, ht.unset, fun _ own k n data hd => ?_⟩
    obtain ⟨tp', z, htp', hz, hzok⟩ := (hok.kept hk (SameBlock.refl _)).attr
    cases hd.symm.trans hz
    cases htp.symm.trans htp'
    exact absurd hzok.1 hty

/-- a scratch block that no object owns -/
theorem Sane.scratch (hs : Sane u) {c : Option Block} (h0 : q ≠ 0)
    (hown : ∀ d, u.heap.blocks q = some d → d.owner = none)
    (hc : ∀ d, c = some d → d.owner = none ∧ (∀ x, d ≠ .obj x) ∧ ∀ cs, d ≠ .state cs)
    (hb : ∀ r, t.heap.blocks r = if r = q then c else u.heap.blocks r) : Sane t := by
  have hq : t.heap.blocks q = c := by rw [hb, if_pos rfl]
  refine hs.around h0 (fun r hr => .inl (by rw [hb, if_neg hr])) hown ?_ ?_
  · intro x hx
    exact absurd rfl ((hc _ (hq.symm.trans (Utc.obj_iff.mp hx))).2.1 x)
  · intro cs hcs
    exact absurd rfl ((hc _ (hq.symm.trans (Utc.st_iff.mp hcs))).2.2 cs)

theorem obj_scratch {c : Option Block} (hu : u.obj q = none)
    (hc : ∀ d, c = some d → ∀ x, d ≠ .obj x)
    (hb : ∀ r, t.heap.blocks r = if r = q then c else u.heap.blocks r) : t.obj = u.obj := by
  funext r
  by_cases hr : r = q
  · rw [hr, hu]
    cases e : t.obj q with
    | none => rfl
    | some x =>
      have ht := Utc.obj_iff.mp e
      rw [hb, if_pos rfl] at ht
      exact absurd rfl (hc _ ht x)
  · unfold Utc.obj
    rw [hb, if_neg hr]

theorem attrs_scratch {l : List TeeAttribute} (d : Block) (h : some (.attrs l) = some d) :
    d.owner = none ∧ (∀ x, d ≠ .obj x) ∧ ∀ cs, d ≠ .state cs := by
  cases h
  exact ⟨rfl, nofun, nofun⟩

/-- **A populate that fails leaves an object that is not initialised as new**, up to its key. -/
theorem populate_sane {l : List UteeAttribute} (hs : Sane u) :
    wlp (uteeCrypObjPopulate p mem a l) (fun r t => Sane t ∧ (r ≠ teeSuccess → t.obj = u.obj) ∧
      Kept u t ∧ ∀ b, b ≠ a → t.obj b = u.obj b) u := by
  have hfail : ∀ e, Sane u ∧ (e ≠ teeSuccess → u.obj = u.obj) ∧ Kept u u ∧
      ∀ b, b ≠ a → u.obj b = u.obj b := fun e => ⟨hs, fun _ => rfl, Kept.refl u, fun _ _ => rfl⟩
  rw [uteeCrypObjPopulate, wlp_bind]
  apply wlp_mono (teeObjGet_cases a u)
  rintro r t ⟨rfl, rfl⟩
  by_cases ha : a ∈ t.objects
  swap
  · rw [if_neg ha, if_pos (by decide)]
    exact hfail _
  rw [if_pos ha, if_neg (not_not.mpr rfl), wlp_bind, wlp_objAt]
  intro x hxb
  have hx := Utc.obj_iff.mpr hxb
  have hok := hs.ok a x hx
  rw [if_neg (by simp [hok.transient])]
  by_cases hi : x.info.has teeHandleFlagInitialized = true
  · rw [if_pos hi]
    exact hfail _
  have h0 := (hs.tidy a x hx).has_iff.mp (Bool.eq_false_iff.mpr hi)
  obtain ⟨tp, z, htp, -, -⟩ := hok.attr
  rw [if_neg hi, htp]
  show wlp (if 2 ^ 32 ≤ sizeofTeeAttribute * l.length then _ else _) _ t
  by_cases hlen : 2 ^ 32 ≤ sizeofTeeAttribute * l.length
  · rw [if_pos hlen]
    exact hfail _
  rw [if_neg hlen, wlp_bind, mallocAttrs]
  by_cases hn : l.length = 0
  · rw [if_pos hn, wlp_pure, if_pos rfl]
    exact hfail _
  rw [if_neg hn]
  refine wlp_of_wp (alloc_cases ?_ ?_)
  · intro v hl hb
    have hobj : v.obj = t.obj := by
      funext r
      unfold Utc.obj
      rw [hb]
    rw [if_pos rfl, wlp_pure]
    refine ⟨hs.congr hb, fun _ => hobj, ⟨hl, fun r => ?_⟩, fun b _ => by rw [hobj]⟩
    rw [hb]
    exact (Kept.refl t).blocks r
  intro q v hq0 hqn hl hb
  rw [if_neg hq0, wlp_bind, wlp_storeAt, wlp_bind]
  -- the copied attributes live in a block of their own
  have hb' : ∀ r, (v.store q (.attrs (copyInAttrs l))).heap.blocks r =
      if r = q then some (.attrs (copyInAttrs l)) else t.heap.blocks r := by
    intro r
    rw [Utc.store_blocks]
    by_cases hr : r = q
    · rw [if_pos hr, if_pos hr]
    · rw [if_neg hr, if_neg hr, hb, if_neg hr]
  have hl' : SameLists t (v.store q (.attrs (copyInAttrs l))) :=
    ⟨hl.objects, hl.crypStates, hl.made, hl.freed⟩
  generalize v.store q (.attrs (copyInAttrs l)) = w at hb' hl'
  have hsw : Sane w := hs.scratch hq0 (by rw [hqn]; intro c hc; cases hc) attrs_scratch hb'
  have hobjw : w.obj = t.obj :=
    obj_scratch (obj_of_none hqn) (fun d hd => (attrs_scratch d hd).2.1) hb'
  apply wlp_mono (populateWith_sane hsw (hobjw ▸ hx) h0 htp)
  rintro r t' ⟨hst, hobj, hk, hother⟩
  have hqw : w.heap.blocks q = some (.attrs (copyInAttrs l)) := by rw [hb', if_pos rfl]
  have hqt : t'.heap.blocks q = some (.attrs (copyInAttrs l)) := by
    obtain ⟨c, hc, hcs⟩ := hk.block hqw
    cases hcs
    exact hc
  have hfree : ∀ Q : Unit → Utc → Prop, Q () (t'.erase q) → wlp (teeFree q) Q t' :=
    fun Q hQ => wlp_of_wp ((wp_teeFree hq0 hqt fun o h => by cases h).mpr hQ)
  have he : ∀ r, (t'.erase q).heap.blocks r = if r = q then none else t'.heap.blocks r :=
    fun r => Utc.erase_blocks r
  rw [wlp_bind]
  refine hfree _ ⟨?_, fun hr => ?_, hk.scratch hqn hl' hb', fun b hb => ?_⟩
  · refine hst.scratch (c := none) hq0 (fun d hd => ?_) (fun d hd => by cases hd) he
    cases hqt.symm.trans hd
    rfl
  · rw [erase_objs hqt id, hobj hr, hobjw]
  · rw [erase_objs hqt id, hother b hb, hobjw]

theorem copyFrom_secrets {d s : Nat} (hx : u.heap.blocks d = some (.obj x)) :
    wlp (teeObjAttrCopyFrom d s) (fun _ t => Secrets x.attr u t) u := by
  have hend : ∀ (f : TypeAttr → C Nat) (l : List TypeAttr) (h : Nat),
      (∀ ta t, wlp (f ta) (fun _ t' => Secrets x.attr t t' ∧ t'.obj = t.obj) t) →
      wlp (do
        let res ← copyAttrs f l
        if res ≠ teeSuccess then pure res
        else do
          storeAt d (.obj { x with haveAttrs := h })
          pure teeSuccess : C Nat) (fun _ t => Secrets x.attr u t) u := by
    intro f l h hf
    rw [wlp_bind]
    apply wlp_mono (wlp_and (copyAttrs_secrets fun ta t => wlp_mono (hf ta t) fun _ _ h => h.1)
      (copyAttrs_objs fun ta t => wlp_mono (hf ta t) fun _ _ h => h.2))
    rintro res t ⟨ht, hobj⟩
    by_cases hr : res ≠ teeSuccess
    · rw [if_pos hr]
      exact ht
    · have hxt : t.heap.blocks d = some (.obj x) := by
        rw [← Utc.obj_iff, hobj]
        exact Utc.obj_iff.mpr hx
      rw [if_neg hr]
      exact ht.trans (secrets_store hxt (.inr id))
  have hstep : ∀ (q' : Nat) (ta ta' : TypeAttr) (t : Utc),
      wlp (attrFromObj x.attr q' ta ta') (fun _ t' => Secrets x.attr t t' ∧ t'.obj = t.obj) t :=
    fun q' ta ta' t => wlp_and attrFromObj_secrets attrFromObj_objs
  rw [teeObjAttrCopyFrom, wlp_bind, wlp_objAt]
  intro z hz
  cases hx.symm.trans hz
  rw [wlp_bind, wlp_objAt]
  intro y hy
  by_cases h1 : x.info.objectType = teeTypeData
  · rw [if_pos h1]
    exact Secrets.refl x.attr u
  rw [if_neg h1]
  by_cases h2 : x.attr = 0
  · rw [if_pos h2]
    exact Secrets.refl x.attr u
  rw [if_neg h2]
  cases teeSvcFindTypeProps x.info.objectType with
  | none => exact Secrets.refl x.attr u
  | some tp =>
    show wlp (if x.info.objectType = y.info.objectType then _ else _) _ u
    by_cases h3 : x.info.objectType = y.info.objectType
    · rw [if_pos h3]
      exact hend _ _ _ fun ta t => hstep _ _ _ _
    rw [if_neg h3]
    by_cases h4 : (x.info.objectType, y.info.objectType) ∉ publicKeyOf
    · rw [if_pos h4]
      exact Secrets.refl x.attr u
    rw [if_neg h4]
    cases teeSvcFindTypeProps y.info.objectType with
    | none => exact Secrets.refl x.attr u
    | some tpSrc =>
      apply hend
      intro ta t
      unfold copyFromType
      cases (teeSvcCrypObjFindTypeAttrIdx ta.attrId tpSrc).bind fun i => tpSrc.typeAttrs[i]? with
      | none => exact ⟨Secrets.refl x.attr t, rfl⟩
      | some taSrc => exact hstep _ _ _ _

/-- a type has no public key type in the table, so two types do not mix -/
theorem copyFrom_mixed {d s : Nat} (hx : u.heap.blocks d = some (.obj x))
    (hxok : ObjOk u.heap.blocks d x) (hty : x.info.objectType ≠ y.info.objectType)
    (hy : u.heap.blocks s = some (.obj y)) :
    wlp (teeObjAttrCopyFrom d s) (fun r t => r ≠ teeSuccess ∧ t = u) u := by
  have hbad : teeErrorBadState ≠ teeSuccess := by decide
  have hpar : teeErrorBadParameters ≠ teeSuccess := by decide
  obtain ⟨-, tp, z, htp, -, -⟩ := hxok
  have hdata : x.info.objectType ≠ teeTypeData := by
    intro e
    rw [e] at htp
    cases htp
  have hpub : (x.info.objectType, y.info.objectType) ∉ publicKeyOf := by
    intro hmem
    have hnone : ∀ t ∈ publicKeyOf, teeSvcFindTypeProps t.1 = none := by decide
    rw [hnone _ hmem] at htp
    cases htp
  rw [teeObjAttrCopyFrom, wlp_bind, wlp_objAt]
  intro x' hx'
  cases hx.symm.trans hx'
  rw [wlp_bind, wlp_objAt]
  intro y' hy'
  cases hy.symm.trans hy'
  rw [if_neg hdata]
  by_cases h0 : x.attr = 0
  · rw [if_pos h0]
    exact ⟨hbad, rfl⟩
  · rw [if_neg h0, htp]
    show wlp (if x.info.objectType = y.info.objectType then _ else _) _ u
    rw [if_neg hty, if_pos hpub]
    exact ⟨hpar, rfl⟩

theorem copy_sane {d s : Nat} (hs : Sane u) : wlp (uteeCrypObjCopy d s) (fun r t => Sane t ∧
    (r ≠ teeSuccess → t = u) ∧ Kept u t ∧ ∀ b, b ≠ d → t.obj b = u.obj b) u := by
  have hfail : teeErrorBadParameters ≠ teeSuccess := by decide
  have hself : Sane u ∧ (teeErrorBadParameters ≠ teeSuccess → u = u) ∧ Kept u u ∧
      ∀ b, b ≠ d → u.obj b = u.obj b := ⟨hs, fun _ => rfl, Kept.refl u, fun _ _ => rfl⟩
  rw [uteeCrypObjCopy, wlp_bind]
  apply wlp_mono (teeObjGet_cases d u)
  rintro r t ⟨rfl, rfl⟩
  by_cases hd : d ∈ t.objects
  swap
  · rw [if_neg hd, if_pos hfail]
    exact hself
  rw [if_pos hd, if_neg (not_not.mpr rfl), wlp_bind]
  apply wlp_mono (teeObjGet_cases s t)
  rintro r u ⟨rfl, rfl⟩
  by_cases hsm : s ∈ u.objects
  swap
  · rw [if_neg hsm, if_pos hfail]
    exact hself
  rw [if_pos hsm, if_neg (not_not.mpr rfl), wlp_bind, wlp_objAt]
  intro x hxb
  rw [wlp_bind, wlp_objAt]
  intro y hyb
  have hx := Utc.obj_iff.mpr hxb
  have hy := Utc.obj_iff.mpr hyb
  have hxok := hs.ok d x hx
  by_cases hi : (!y.info.has teeHandleFlagInitialized) = true
  · rw [if_pos hi]
    exact hself
  rw [if_neg hi, if_neg (by simp [hxok.transient])]
  by_cases hxi : x.info.has teeHandleFlagInitialized = true
  · rw [if_pos hxi]
    exact hself
  have h0 := (hs.tidy d x hx).has_iff.mp (Bool.eq_false_iff.mpr hxi)
  rw [if_neg hxi, wlp_bind]
  by_cases hty : x.info.objectType = y.info.objectType
  swap
  · apply wlp_mono (copyFrom_mixed hxb hxok hty hyb)
    rintro r t ⟨hr, rfl⟩
    rw [if_pos hr]
    exact ⟨hs, fun _ => rfl, Kept.refl _, fun _ _ => rfl⟩
  apply wlp_mono (wlp_and (wlp_of_wp (teeObjAttrCopyFrom_objs hs.null hxb hxok hyb (hs.ok s y hy)))
    (copyFrom_secrets hxb))
  rintro r t ⟨⟨hk, hobj⟩, hsec⟩
  obtain ⟨-, rfl, hobj⟩ | ⟨hne, -, -⟩ := hobj
  swap
  · exact absurd hty hne
  rw [if_neg (not_not.mpr rfl), wlp_bind, wlp_objAt]
  intro x' hxb'
  have hx' := Utc.obj_iff.mpr hxb'
  rw [hobj, Function.update_self] at hx'
  cases hx'
  rw [wlp_bind, wlp_objAt]
  intro y' hyb'
  rw [wlp_bind, wlp_storeAt, wlp_pure]
  have hflags : x.info.handleFlags ||| teeHandleFlagInitialized = teeHandleFlagInitialized := by
    rw [h0]
    decide
  have hk' := hk.trans (store_obj_kept (z := { x with
    haveAttrs := y.haveAttrs
    info := { x.info with
      handleFlags := x.info.handleFlags ||| teeHandleFlagInitialized
      keySize := y'.info.keySize
      objectUsage := y'.info.objectUsage } }) hxb' rfl rfl rfl (.inr hflags))
  have hother : ∀ b, b ≠ d → (t.store d (.obj { x with
      haveAttrs := y.haveAttrs
      info := { x.info with
        handleFlags := x.info.handleFlags ||| teeHandleFlagInitialized
        keySize := y'.info.keySize
        objectUsage := y'.info.objectUsage } })).obj b = u.obj b := by
    intro b hb
    rw [store_obj_objs, Function.update_of_ne hb, hobj, Function.update_of_ne hb]
  refine ⟨?_, fun h => absurd rfl h, hk', hother⟩
  refine hs.rewritten hx hk' hother (hsec.trans (secrets_store hxb' (.inr id))) ?_
  intro z hz
  rw [store_obj_objs, Function.update_self] at hz
  cases hz
  exact Tidy.of_initialized hflags

end

/-! ## calls that add and remove blocks -/

section
variable {p : Provider} {u t v w : Utc} {a b q s k : Nat} {x x' : TeeObj} {y : Attr}
  {tp : TypeProps} {m : Member} {cs : CrypState}

theorem bnAllocMax_blank (hq : u.heap.blocks q = some (.attr a y)) :
    wlp (bnAllocMax a q m) (fun ok t => ok = true → ∃ bn,
      t.heap.blocks q = some (.attr a (y.put m bn)) ∧ t.heap.blocks bn = some (.bignum a m 0) ∧
      ∀ r c, r ≠ q → u.heap.blocks r = some c → t.heap.blocks r = some c) u := by
  rw [bnAllocMax, wlp_bind]
  refine wlp_of_wp (alloc_cases ?_ ?_)
  · intro t hl hb
    rw [wlp_bind]
    exact wlp_mono (wlp_true _ t) fun _ _ _ h => absurd h (by simp)
  intro bn t hbn0 hbn hl hb
  have hne : bn ≠ q := by
    rintro rfl
    rw [hq] at hbn
    cases hbn
  have hqt : t.heap.blocks q = some (.attr a y) := by rw [hb, if_neg hne.symm, hq]
  rw [wlp_bind]
  refine wlp_of_wp ((wp_setMember hqt).mpr ?_)
  intro _
  refine ⟨bn, by rw [Utc.store_blocks, if_pos rfl], ?_, fun r c hr hc => ?_⟩
  · rw [Utc.store_blocks, if_neg hne, hb, if_pos rfl]
  · rw [Utc.store_blocks, if_neg hr, hb, if_neg, hc]
    rintro rfl
    rw [hbn] at hc
    cases hc

theorem prepareAttr_blank (hq : u.heap.blocks q = some (.attr a (zeroAttr tp))) :
    wlp (prepareAttr a q tp) (fun r t => r = teeSuccess → ∃ y,
      t.heap.blocks q = some (.attr a y) ∧ y.blank = y ∧
      (∀ bn ∈ y.bignums, ∃ m, t.heap.blocks bn = some (.bignum a m 0)) ∧
      ∀ r c, r ≠ q → u.heap.blocks r = some c → t.heap.blocks r = some c) u := by
  have hdrop : ∀ v : Utc, wlp (dropEccKeypair q) (fun r _ => r ≠ teeSuccess) v := by
    intro v
    have hoom : teeErrorOutOfMemory ≠ teeSuccess := by decide
    rw [dropEccKeypair, wlp_bind]
    apply wlp_mono (wlp_true _ v)
    intro _ _ _
    rw [wlp_bind]
    apply wlp_mono (wlp_true _ _)
    intro _ _ _
    rw [wlp_bind]
    apply wlp_mono (wlp_true _ _)
    intro _ _ _
    rw [wlp_bind]
    apply wlp_mono (wlp_true _ _)
    intro _ _ _
    exact hoom
  rw [prepareAttr]
  by_cases he : isEccKeypair tp.objType = true
  · rw [if_pos he, cryptoAcipherAllocEccKeypair, wlp_bind, wlp_storeAt, wlp_bind]
    have h0 : (u.store q (.attr a (.ecc 0 0 0 0))).heap.blocks q = some (.attr a (.ecc 0 0 0 0)) := by
      rw [Utc.store_blocks, if_pos rfl]
    apply wlp_mono (bnAllocMax_blank h0)
    intro ok1 t1 ht1
    cases ok1 with
    | false => exact wlp_mono (hdrop t1) fun r _ hr h => absurd h hr
    | true =>
      obtain ⟨d, hq1, hd, hk1⟩ := ht1 rfl
      show wlp (bnAllocMax a q .x >>= _) _ t1
      rw [wlp_bind]
      apply wlp_mono (bnAllocMax_blank hq1)
      intro ok2 t2 ht2
      cases ok2 with
      | false => exact wlp_mono (hdrop t2) fun r _ hr h => absurd h hr
      | true =>
        obtain ⟨e, hq2, he2, hk2⟩ := ht2 rfl
        show wlp (bnAllocMax a q .y >>= _) _ t2
        rw [wlp_bind]
        apply wlp_mono (bnAllocMax_blank hq2)
        intro ok3 t3 ht3
        cases ok3 with
        | false => exact wlp_mono (hdrop t3) fun r _ hr h => absurd h hr
        | true =>
          obtain ⟨f, hq3, hf, hk3⟩ := ht3 rfl
          have hne : ∀ {m bn c} {t : Utc}, t.heap.blocks q = some (.attr a c) →
              t.heap.blocks bn = some (.bignum a m 0) → bn ≠ q := by
            rintro m bn c t hc hb rfl
            rw [hc] at hb
            cases hb
          have hd2 := hk2 d _ (hne hq1 hd) hd
          have hd3 := hk3 d _ (hne hq1 hd) hd2
          have he3 := hk3 e _ (hne hq2 he2) he2
          intro _
          refine ⟨_, hq3, rfl, fun bn hbn => ?_, fun r c hr hc => ?_⟩
          · obtain rfl | rfl | rfl : bn = d ∨ bn = e ∨ bn = f := by
              simpa [Attr.put, Attr.bignums] using hbn
            · exact ⟨_, hd3⟩
            · exact ⟨_, he3⟩
            · exact ⟨_, hf⟩
          · have hc1 : (u.store q (.attr a (.ecc 0 0 0 0))).heap.blocks r = some c := by
              rw [Utc.store_blocks, if_neg hr, hc]
            exact hk3 r c hr (hk2 r c hr (hk1 r c hr hc1))
  · have hz : zeroAttr tp = .secret 0 0 (List.replicate (tp.allocSize - sizeofSecret) 0) := if_neg he
    rw [hz] at hq
    rw [if_neg he]
    refine wlp_of_wp (wp_bind.mpr ((wp_blockAt hq).mpr ?_))
    show wp (storeAt q _ >>= _) _ u
    rw [wp_bind, wp_storeAt, wp_pure]
    intro _
    refine ⟨_, by rw [Utc.store_blocks, if_pos rfl], rfl,
      fun bn h => absurd h List.not_mem_nil, fun r c hr hc => ?_⟩
    rw [Utc.store_blocks, if_neg hr, hc]

/-- what `uteeCrypObjAlloc` makes of a new object -/
theorem setType_blank {ty n : Nat} (hty : ty ≠ teeTypeData)
    (hx : u.heap.blocks a = some (.obj ⟨⟨0, 0, 0, 0, 0⟩, false, 0, 0⟩)) :
    wlp (teeObjSetType a ty n) (fun r t => r = teeSuccess → ∃ attr y,
      t.heap.blocks a = some (.obj ⟨⟨ty, 0, n, teeUsageDefault, 0⟩, false, 0, attr⟩) ∧
      t.heap.blocks attr = some (.attr a y) ∧ y.blank = y ∧
      ∀ bn ∈ y.bignums, ∃ m, t.heap.blocks bn = some (.bignum a m 0)) u := by
  have hns : teeErrorNotSupported ≠ teeSuccess := by decide
  have hoom : teeErrorOutOfMemory ≠ teeSuccess := by decide
  rw [teeObjSetType, wlp_bind, wlp_objAt]
  intro z hz
  cases hx.symm.trans hz
  rw [if_neg (not_not.mpr rfl), if_neg hty]
  cases teeSvcFindTypeProps ty with
  | none => exact fun h => absurd h hns
  | some tp =>
    show wlp (if n % tp.quanta ≠ 0 then _ else _) _ u
    by_cases h1 : n % tp.quanta ≠ 0
    · rw [if_pos h1]
      exact fun h => absurd h hns
    by_cases h2 : n < tp.minSize
    · rw [if_neg h1, if_pos h2]
      exact fun h => absurd h hns
    by_cases h3 : tp.maxSize < n
    · rw [if_neg h1, if_neg h2, if_pos h3]
      exact fun h => absurd h hns
    rw [if_neg h1, if_neg h2, if_neg h3, wlp_bind]
    refine wlp_of_wp (alloc_cases ?_ ?_)
    · intro v hl hb
      rw [wlp_bind, wlp_storeAt, if_pos rfl]
      exact fun h => absurd h hoom
    intro attr v h0 hn hl hb
    have hne : attr ≠ a := by
      rintro rfl
      rw [hx] at hn
      cases hn
    have hq : (v.store a (.obj ⟨⟨0, 0, 0, 0, 0⟩, false, 0, attr⟩)).heap.blocks attr =
        some (.attr a (zeroAttr tp)) := by rw [Utc.store_blocks, if_neg hne, hb, if_pos rfl]
    rw [wlp_bind, wlp_storeAt, if_neg h0, wlp_bind]
    apply wlp_mono (prepareAttr_blank hq)
    intro r w hw
    by_cases hr : r ≠ teeSuccess
    · rw [if_pos hr]
      exact fun h => absurd h hr
    obtain ⟨y, hy, hblank, hbn, hkeep⟩ := hw (not_not.mp hr)
    have hself : w.heap.blocks a = some (.obj ⟨⟨0, 0, 0, 0, 0⟩, false, 0, attr⟩) :=
      hkeep a _ hne.symm (by rw [Utc.store_blocks, if_pos rfl])
    rw [if_neg hr, setTypeInfo, wlp_bind, wlp_objAt]
    intro z hz
    cases hself.symm.trans hz
    intro _
    have hother : ∀ r c, w.heap.blocks r = some c → (∀ o, c ≠ .obj o) →
        (w.store a (.obj ⟨⟨ty, 0, n, teeUsageDefault, 0⟩, false, 0, attr⟩)).heap.blocks r =
          some c := by
      intro r c hc ho
      rw [Utc.store_blocks, if_neg, hc]
      rintro rfl
      cases hself.symm.trans hc
      exact ho _ rfl
    refine ⟨attr, y, by rw [Utc.store_blocks, if_pos rfl], hother _ _ hy (fun o h => by cases h), hblank, ?_⟩
    intro bn hm
    obtain ⟨m, hb⟩ := hbn bn hm
    exact ⟨m, hother _ _ hb fun o h => by cases h⟩

/-- an object that is as new stays as it is when it is made new -/
theorem renewed_eq_self (hx : u.heap.blocks a = some (.obj x)) (hren : x.renewed = x)
    (hy : u.heap.blocks x.attr = some (.attr a y)) (hblank : y.blank = y)
    (hbn : ∀ bn ∈ y.bignums, ∃ m, u.heap.blocks bn = some (.bignum a m 0)) :
    u.renewed a = u := by
  have hp := parts_eq (Utc.obj_iff.mpr hx) hy
  have hb : (u.renewed a).heap.blocks = u.heap.blocks := by
    funext q
    by_cases hq : q ∈ u.parts a
    · rw [renewed_of_mem hq]
      rw [hp, List.mem_cons, List.mem_cons] at hq
      obtain rfl | rfl | hq := hq
      · rw [hx, Option.map_some, Block.renewed, hren]
      · rw [hy, Option.map_some, Block.renewed, hblank]
      · obtain ⟨m, hm⟩ := hbn q hq
        rw [hm]
        rfl
    · exact renewed_of_notMem hq
  show ({ u with heap.blocks := (u.renewed a).heap.blocks } : Utc) = u
  rw [hb]

/-- **A new object is as new.** -/
theorem objAlloc_sane {ty n : Nat} (hs : Sane u) :
    wlp (uteeCrypObjAlloc ty n) (fun r t => Sane t ∧ (r.1 = teeSuccess → t.renewed r.2 = t ∧
      ∃ x, t.obj r.2 = some x ∧ x.info = ⟨ty, 0, n, teeUsageDefault, 0⟩)) u := by
  have hns : teeErrorNotSupported ≠ teeSuccess := by decide
  have hoom : teeErrorOutOfMemory ≠ teeSuccess := by decide
  rw [uteeCrypObjAlloc]
  by_cases hty : ty = teeTypeData
  · rw [if_pos hty]
    exact ⟨hs, fun h => absurd h hns⟩
  rw [if_neg hty, wlp_bind]
  apply wlp_mono (wlp_of_wp teeObjAlloc_spec)
  rintro a t (⟨rfl, hl, hb⟩ | ⟨ha, hn, hbd⟩)
  · rw [if_pos rfl]
    exact ⟨hs.congr hb, fun h => absurd h hoom⟩
  rw [if_neg ha, wlp_bind]
  apply wlp_mono (wlp_and (wlp_of_wp (teeObjSetType_spec hty ha hs.null hbd))
    (setType_blank hty hbd.self))
  rintro r v ⟨⟨x, hv, hbusy, hok, hun⟩, hblank⟩
  have hown : ∀ c, u.heap.blocks a = some c → c.owner = none := by
    rw [hn]
    intro c hc
    cases hc
  have hnost : ∀ {w : Utc} {z : TeeObj}, w.heap.blocks a = some (.obj z) → w.st a = none :=
    fun h => st_of_obj h
  by_cases hr : r ≠ teeSuccess
  · rw [if_pos hr, wlp_bind]
    refine wlp_of_wp ((teeObjFree_untyped (hv.null ha hs.null) hv.self (hun hr)).mpr ?_)
    refine ⟨hs.around ha (hv.around.trans fun q hq => .inl ?_) hown ?_ ?_, fun h => absurd h hr⟩
    · rw [Utc.eraseObj_blocks, if_neg hq]
    · intro z hz
      rw [Utc.obj_iff, Utc.eraseObj_blocks, if_pos rfl] at hz
      cases hz
    · intro cs hcs
      rw [Utc.st_iff, Utc.eraseObj_blocks, if_pos rfl] at hcs
      cases hcs
  · obtain ⟨attr, y, hself, hy, hyb, hbn⟩ := hblank (not_not.mp hr)
    cases hv.self.symm.trans hself
    rw [if_neg hr, wlp_bind, teeObjAdd, wlp_bind, wlp_get, wlp_bind]
    apply wlp_mono (wlp_touch objAt_same)
    rintro _ v rfl
    rw [wlp_modify, wlp_pure]
    have hsv : Sane ({ v with objects := a :: v.objects } : Utc) := by
      refine Sane.congr (u := v) (hs.around ha hv.around hown ?_ ?_) rfl
      · intro z hz
        cases hz.symm.trans (Utc.obj_iff.mpr hself)
        refine ⟨(hok (not_not.mp hr)).1, .inl rfl, fun _ => ⟨rfl, rfl⟩, fun _ own k n data hd => ?_⟩
        cases hy.symm.trans hd
        cases hyb
        exact ⟨rfl, rfl⟩
      · intro cs hcs
        rw [hnost hself] at hcs
        cases hcs
    refine ⟨hsv, fun _ => ⟨?_, _, Utc.obj_iff.mpr hself, rfl⟩⟩
    exact renewed_eq_self (u := { v with objects := a :: v.objects }) hself rfl hy hyb hbn

end

section
variable {p : Provider} {u t v w : Utc} {a b q s k : Nat} {x x' : TeeObj} {cs : CrypState}

theorem Gone.sane (hs : Sane u) (hx : u.heap.blocks a = some (.obj x)) (h : Gone a u t) : Sane t := by
  refine hs.around (ne_zero_of_null hs.null hx) h.around ?_ ?_ ?_
  · intro c hc
    cases hx.symm.trans hc
    rfl
  · intro z hz
    rw [h.obj_self] at hz
    cases hz
  · intro cs hcs
    rw [h.st_self] at hcs
    cases hcs

theorem objFree_sane (hs : Sane u) : wlp (teeObjFree a) (fun _ t => Sane t ∧
    ∀ s cs, u.st s = some cs → t.st s = some cs) u := by
  by_cases h0 : a = 0
  · rw [teeObjFree, if_pos h0]
    exact ⟨hs, fun _ _ h => h⟩
  cases hx : u.obj a with
  | none =>
    rw [teeObjFree, if_neg h0, wlp_bind, teeObjAttrFree, onAttrs, wlp_bind, wlp_objAt]
    intro x hxb
    rw [Utc.obj_iff.mpr hxb] at hx
    cases hx
  | some x =>
    have hxb := Utc.obj_iff.mp hx
    apply wlp_mono (wlp_of_wp (teeObjFree_spec hs.null hxb (hs.ok a x hx)))
    intro _ t ht
    refine ⟨ht.sane hs hxb, fun s cs hcs => ?_⟩
    have hne : s ≠ a := by
      rintro rfl
      rw [st_of_obj hxb] at hcs
      cases hcs
    rw [ht.around.st hne, hcs]

theorem releaseKey_sane (hs : Sane u) : wlp (releaseKey k) (fun _ t => Sane t ∧
    ∀ s cs, u.st s = some cs → t.st s = some cs) u := by
  rw [releaseKey, wlp_bind]
  apply wlp_mono (teeObjGet_cases k u)
  rintro r t ⟨rfl, -⟩
  by_cases hr : r = teeSuccess
  · rw [if_pos hr, teeObjClose, wlp_bind, removeObj, wlp_bind, wlp_get, wlp_bind]
    apply wlp_mono (wlp_touch objAt_same)
    rintro _ v rfl
    have hsv : Sane ({ v with objects := v.objects.erase k } : Utc) := hs.congr rfl
    rw [wlp_modify, wlp_bind]
    apply wlp_mono (objAt_same k _)
    rintro x w rfl
    by_cases hp : x.info.has teeHandleFlagPersistent = true
    · rw [if_pos hp]
      trivial
    · rw [if_neg hp]
      exact objFree_sane hsv
  · rw [if_neg hr]
    exact ⟨hs, fun _ _ h => h⟩

/-- what becomes of the block of a state stays a state with its context -/
theorem Sane.storeState (hs : Sane u) {cs' : CrypState} (h0 : s ≠ 0)
    (hcs : ∀ c, u.heap.blocks s = some c → c.owner = none)
    (hctx : cs'.ctx = 0 ∨ u.heap.blocks cs'.ctx = some (.ctx s)) :
    Sane (u.store s (.state cs')) := by
  have hself : (u.store s (.state cs')).heap.blocks s = some (.state cs') := by
    rw [Utc.store_blocks, if_pos rfl]
  refine hs.around h0 (fun q hq => .inl (by rw [Utc.store_blocks, if_neg hq])) hcs ?_ ?_
  · intro x hx
    rw [obj_of_st hself] at hx
    cases hx
  · intro c hc
    cases hself.symm.trans (Utc.st_iff.mp hc)
    refine hctx.imp_right fun hb => ?_
    rw [Utc.store_blocks, if_neg, hb]
    intro e
    rw [e] at hb
    cases hcs _ hb

theorem setBusy_sane (hs : Sane u) : wlp (setBusy k) (fun _ t => Sane t) u := by
  rw [setBusy]
  by_cases h0 : k = 0
  · rw [if_pos h0]
    exact hs
  · rw [if_neg h0, wlp_bind, wlp_objAt]
    intro x hx
    have hxo := Utc.obj_iff.mpr hx
    have hok := hs.ok k x hxo
    obtain ⟨z, hz⟩ := hok.block
    have hza : x.attr ≠ k := by
      intro e
      rw [e, hx] at hz
      cases hz
    rw [wlp_storeAt]
    refine hs.around h0 (fun q hq => .inl (by rw [Utc.store_blocks, if_neg hq])) ?_ ?_ ?_
    · intro c hc
      cases hx.symm.trans hc
      rfl
    · intro x' hx'
      rw [store_obj_objs, Function.update_self] at hx'
      cases hx'
      constructor
      · have hblocks : ∀ q c, u.heap.blocks q = some c → c.owner = some k →
            (u.store k (.obj { x with busy := true })).heap.blocks q = some c := by
          intro q c hq hc
          rw [Utc.store_blocks, if_neg, hq]
          rintro rfl
          cases hx.symm.trans hq
          cases hc
        obtain ⟨htr, tp, y, htp, hy, hyok⟩ := hok.frame hblocks
        exact ⟨htr, tp, y, htp, hy, hyok⟩
      · have ht := hs.tidy k x hxo
        refine ⟨ht.flags, ht.unset, fun h0 own m n data hd => ?_⟩
        have hd' : (u.store k (.obj { x with busy := true })).heap.blocks x.attr =
            some (.attr own (.secret m n data)) := hd
        rw [Utc.store_blocks, if_neg hza] at hd'
        exact ht.blank h0 own m n data hd'
    · intro cs hcs
      rw [Utc.st_iff, Utc.store_blocks, if_pos rfl] at hcs
      cases hcs

theorem registerKeys_sane {key1 key2 : Nat} (hs : Sane u) :
    wlp (registerKeys s key1 key2) (fun _ t => Sane t) u := by
  rw [registerKeys, wlp_bind]
  apply wlp_mono (setBusy_sane hs)
  intro _ v hv
  rw [wlp_bind]
  apply wlp_mono (setBusy_sane hv)
  intro _ w hw
  rw [wlp_bind, wlp_stateAt]
  intro cs hcs
  rw [wlp_storeAt]
  refine hw.storeState (ne_zero_of_null hw.null hcs) ?_ (hw.ctx s cs (Utc.st_iff.mpr hcs))
  intro c hc
  cases hcs.symm.trans hc
  rfl

theorem Sane.dropState (hs : Sane u) (hcs : u.heap.blocks s = some (.state cs)) :
    Sane (u.erase s) := by
  refine hs.scratch (c := none) (ne_zero_of_null hs.null hcs) ?_ nofun fun r => Utc.erase_blocks r
  intro c hc
  cases hcs.symm.trans hc
  rfl

theorem crypStateFree_sane (hs : Sane u) : wlp (crypStateFree p s) (fun _ t => Sane t) u := by
  rw [crypStateFree, wlp_bind, wlp_stateAt]
  intro cs hcs
  rw [wlp_bind]
  apply wlp_mono (releaseKey_sane hs)
  rintro _ v ⟨hv, hstv⟩
  rw [wlp_bind]
  apply wlp_mono (releaseKey_sane hv)
  rintro _ w ⟨hw, hstw⟩
  have hst := hstw s cs (hstv s cs (Utc.st_iff.mpr hcs))
  rw [wlp_bind, removeState, wlp_bind, wlp_get, wlp_bind]
  apply wlp_mono (wlp_touch stateAt_same)
  rintro _ w rfl
  rw [wlp_modify, wlp_bind]
  have hw' : Sane ({ w with crypStates := w.crypStates.erase s } : Utc) := hw.congr rfl
  have hsw : ({ w with crypStates := w.crypStates.erase s } : Utc).heap.blocks s =
      some (.state cs) := Utc.st_iff.mp hst
  generalize ({ w with crypStates := w.crypStates.erase s } : Utc) = w' at hw' hsw
  have hfin : wlp (finalizeCtx cs) (fun _ t => t = w') w' := by
    rw [finalizeCtx]
    by_cases hf : cs.ctxFinalize = true
    · rw [if_pos hf, wlp_bind, wlp_blockAt]
      exact fun _ _ => rfl
    · rw [if_neg hf]
      rfl
  apply wlp_mono hfin
  rintro _ w rfl
  have hs0 := ne_zero_of_null hw'.null hsw
  have hend : ∀ z : Utc, Sane (z.erase s) → z.heap.blocks s = some (.state cs) →
      wlp (teeFree s) (fun _ t => Sane t) z :=
    fun z hz hb => wlp_of_wp ((wp_teeFree hs0 hb fun o h => by cases h).mpr hz)
  rw [wlp_bind, freeCtx]
  by_cases hk : cs.ctx ≠ 0 ∧ ctxKnown p cs.algo = false
  · rw [if_pos hk]
    trivial
  rw [if_neg hk]
  rcases hw'.ctx s cs (Utc.st_iff.mpr hsw) with h0 | hctx
  · rw [h0]
    exact hend w (hw'.dropState hsw) hsw
  · have hne : cs.ctx ≠ s := by
      intro e
      rw [e, hsw] at hctx
      cases hctx
    refine wlp_of_wp ((wp_teeFree (ne_zero_of_null hw'.null hctx) hctx fun o h => by cases h).mpr ?_)
    refine hend _ ?_ (by rw [Utc.erase_blocks, if_neg hne.symm, hsw])
    -- the context and its state go
    have har : Around s w.heap.blocks ((w.erase cs.ctx).erase s).heap.blocks := by
      intro q hq
      rw [Utc.erase_blocks, if_neg hq, Utc.erase_blocks]
      by_cases hqc : q = cs.ctx
      · rw [if_pos hqc, hqc, hctx]
        exact .inr ⟨ne_zero_of_null hw'.null hctx, OwnedBy.some rfl, OwnedBy.none s⟩
      · rw [if_neg hqc]
        exact .inl rfl
    have hgone : ((w.erase cs.ctx).erase s).heap.blocks s = none := by
      rw [Utc.erase_blocks, if_pos rfl]
    refine hw'.around hs0 har ?_ ?_ ?_
    · intro c hc
      cases hsw.symm.trans hc
      rfl
    · intro x hx
      rw [obj_of_none hgone] at hx
      cases hx
    · intro c hc
      rw [st_of_none hgone] at hc
      cases hc

theorem stateAlloc_sane {algo mode key1 key2 : Nat} (hs : Sane u) :
    wlp (uteeCrypStateAlloc p algo mode key1 key2) (fun _ t => Sane t) u := by
  have hcheck : ∀ k v, wlp (checkKey algo mode k) (fun _ t => t = v) v := by
    intro k v
    rw [checkKey]
    by_cases h0 : k = 0
    · rw [if_pos h0]
      rfl
    rw [if_neg h0, wlp_bind]
    apply wlp_mono (teeObjGet_cases k v)
    rintro r t ⟨rfl, -⟩
    by_cases hr : r ≠ teeSuccess
    · rw [if_pos hr]
      rfl
    rw [if_neg hr, wlp_bind]
    apply wlp_mono (objAt_same k t)
    rintro x t rfl
    by_cases hb : x.busy = true
    · rw [if_pos hb]
      rfl
    · rw [if_neg hb]
      rfl
  rw [uteeCrypStateAlloc, wlp_bind]
  apply wlp_mono (hcheck key1 u)
  rintro r t rfl
  by_cases hr : r ≠ teeSuccess
  · rw [if_pos hr]
    exact hs
  rw [if_neg hr, wlp_bind]
  apply wlp_mono (hcheck key2 t)
  rintro r u rfl
  by_cases hr : r ≠ teeSuccess
  · rw [if_pos hr]
    exact hs
  rw [if_neg hr, wlp_bind]
  refine wlp_of_wp (alloc_cases ?_ ?_)
  · intro t hl hb
    rw [if_pos rfl]
    exact hs.congr hb
  intro s t h0 hn hl hb
  rw [if_neg h0, wlp_bind, insertState, wlp_bind, wlp_get, wlp_bind]
  apply wlp_mono (wlp_touch stateAt_same)
  rintro _ t rfl
  rw [wlp_modify, wlp_bind, wlp_storeAt, wlp_bind]
  have hbs : ∀ r, (({ t with crypStates := s :: t.crypStates } : Utc).store s
      (.state ⟨algo, mode, 0, 0, 0, false⟩)).heap.blocks r =
        (u.store s (.state ⟨algo, mode, 0, 0, 0, false⟩)).heap.blocks r := by
    intro r
    rw [Utc.store_blocks, Utc.store_blocks]
    by_cases hr : r = s
    · rw [if_pos hr, if_pos hr]
    · rw [if_neg hr, if_neg hr]
      exact (hb r).trans (if_neg hr)
  have hv : Sane (({ t with crypStates := s :: t.crypStates } : Utc).store s
      (.state ⟨algo, mode, 0, 0, 0, false⟩)) := by
    refine Sane.congr (u := u.store s (.state ⟨algo, mode, 0, 0, 0, false⟩)) ?_ (funext hbs)
    refine hs.storeState h0 ?_ (.inl rfl)
    rw [hn]
    intro c hc
    cases hc
  have hself : (({ t with crypStates := s :: t.crypStates } : Utc).store s
      (.state ⟨algo, mode, 0, 0, 0, false⟩)).heap.blocks s =
        some (.state ⟨algo, mode, 0, 0, 0, false⟩) := by rw [Utc.store_blocks, if_pos rfl]
  generalize ({ t with crypStates := s :: t.crypStates } : Utc).store s
    (.state ⟨algo, mode, 0, 0, 0, false⟩) = v at hv hself
  apply wlp_mono (wlp_of_wp (prepareState_spec hv.null hself rfl))
  intro r w hw
  obtain ⟨hr, hl, hb⟩ | ⟨rfl, hl, ctx, har, hws, hctx⟩ := hw
  · rw [if_pos hr, wlp_bind]
    exact wlp_mono (crypStateFree_sane (hv.congr hb)) fun _ _ h => h
  · rw [if_neg (not_not.mpr rfl), wlp_bind]
    have hw : Sane w := by
      refine hv.around h0 har ?_ ?_ ?_
      · intro c hc
        cases hself.symm.trans hc
        rfl
      · intro x hx
        rw [obj_of_st hws] at hx
        cases hx
      · intro cs hcs
        cases hws.symm.trans (Utc.st_iff.mp hcs)
        exact hctx.imp_right fun h => h.1
    exact wlp_mono (registerKeys_sane hw) fun _ _ h => h

/-- **Every call keeps the invariant.** -/
theorem sane_call (c : Call) (hs : Sane u) : wlp (call p c) (fun _ t => Sane t) u := by
  cases c with
  | objAlloc ty n => exact wlp_mono (objAlloc_sane hs) fun _ _ h => h.1
  | objPopulate mem o l =>
    show wlp (uteeCrypObjPopulate p mem o l >>= _) _ u
    rw [wlp_bind]
    exact wlp_mono (populate_sane hs) fun _ _ h => h.1
  | objCopy d s =>
    show wlp (uteeCrypObjCopy d s >>= _) _ u
    rw [wlp_bind]
    exact wlp_mono (copy_sane hs) fun _ _ h => h.1
  | objReset o =>
    show wlp (uteeCrypObjReset o >>= _) _ u
    rw [wlp_bind]
    exact wlp_mono (reset_sane hs) fun _ _ h => h.1
  | objClose o =>
    show wlp (uteeCrypObjClose o >>= _) _ u
    rw [wlp_bind, uteeCrypObjClose, wlp_bind]
    exact wlp_mono (objFree_sane hs) fun _ _ h => h.1
  | stateAlloc algo mode key1 key2 => exact stateAlloc_sane hs
  | stateFree s =>
    show wlp (uteeCrypStateFree p s >>= _) _ u
    rw [wlp_bind, uteeCrypStateFree, wlp_bind]
    apply wlp_mono (teeSvcCrypGetState_same s u)
    rintro r t rfl
    by_cases hr : r ≠ teeSuccess
    · rw [if_pos hr]
      exact hs
    · rw [if_neg hr, wlp_bind]
      exact wlp_mono (crypStateFree_sane hs) fun _ _ h => h

end

end MTower.Cryp
