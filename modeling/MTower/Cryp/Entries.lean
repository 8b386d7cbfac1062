import MTower.Lib.Fields
import MTower.Lib.Bits
import MTower.Cryp.CheckAttr
import MTower.Cryp.Info

/-!
# The attributes of an object as a table

An object is seen as a table from the attributes of its type to values.  An attribute operation
changes one entry of one object; populate fills the entries of its list, and a copy takes over
all entries of its source.

* `Entry`                 the value of an attribute, `OnlyAt` one entry changes;
* `attrFromUser_entry`, `attrFromObj_entry`  one operation;
* `populateAttrs_entries`, `copyAttrs_entries`  the loops.
-/

set_option linter.unusedVariables false

namespace MTower.Cryp
open Lib Kernel

inductive AttrValue where
  | secret (l : List UInt8)
  | number (v : Nat)
  | word (w : Nat)
deriving DecidableEq, Repr

/-- the block `q` of the object `own` gives the attribute the value -/
inductive Entry (u : Utc) (q own : Nat) : TypeAttr → AttrValue → Prop where
  | secret {ta : TypeAttr} {k n : Nat} {bytes : List UInt8} (ops : ta.opsIndex = .secret)
      (raw : ta.raw = .secret) (block : u.heap.blocks q = some (.attr own (.secret k n bytes)))
      (le : k ≤ n) (length : bytes.length = n) : Entry u q own ta (.secret (bytes.take k))
  | number {ta : TypeAttr} {x : Attr} {bn v : Nat} (ops : ta.opsIndex = .bignum)
      (block : u.heap.blocks q = some (.attr own x)) (get : x.get? ta.raw = some bn)
      (bignum : u.heap.blocks bn = some (.bignum own ta.raw v)) : Entry u q own ta (.number v)
  | word {ta : TypeAttr} {d x y c : Nat} (ops : ta.opsIndex = .value) (raw : ta.raw = .curve)
      (block : u.heap.blocks q = some (.attr own (.ecc d x y c))) : Entry u q own ta (.word c)

/-- the value that the TA supplies in `buffer` -/
def supplied (ta : TypeAttr) (buffer : List UInt8) : AttrValue :=
  match ta.opsIndex with
  | .secret => .secret buffer
  | .bignum => .number (Fields.number buffer)
  | .value => .word (firstWord buffer)

/-- every other entry stays -/
def OnlyAt (own : Nat) (m : Member) (u t : Utc) : Prop :=
  ∀ q own' ta v, ¬ (own' = own ∧ ta.raw = m) → Entry u q own' ta v → Entry t q own' ta v

/-- `crypto_bignum_bin2bn` reads a big endian number -/
def Provider.Reads (p : Provider) : Prop :=
  ∀ b w, (p.bin2bn b w).1 = true → (p.bin2bn b w).2 = Fields.number b

section
variable {p : Provider} {u t : Utc} {a q : Nat} {x : Attr} {tp : TypeProps} {ta : TypeAttr}
  {v : AttrValue}

/-! ## one entry -/

/-- an entry depends on the blocks of its object -/
theorem Entry.frame {own : Nat} (h : Entry u q own ta v)
    (hb : ∀ r c, u.heap.blocks r = some c → c.owner = some own → t.heap.blocks r = some c) :
    Entry t q own ta v := by
  cases h with
  | secret ops raw block le length => exact .secret ops raw (hb _ _ block rfl) le length
  | number ops block get bignum =>
    exact .number ops (hb _ _ block rfl) get (hb _ _ bignum rfl)
  | word ops raw block => exact .word ops raw (hb _ _ block rfl)

/-- a block that is not the one written stays -/
theorem store_other {r : Nat} {b c w : Block} (hb : u.heap.blocks q = some b)
    (hc : u.heap.blocks r = some c) (hne : c ≠ b) : (u.store q w).heap.blocks r = some c := by
  have hr : r ≠ q := by
    intro e
    rw [e, hb] at hc
    exact hne (Option.some.inj hc).symm
  rw [Utc.store_blocks, if_neg hr]
  exact hc

/-- a block of another object is written -/
theorem Entry.store_owner {own own' r : Nat} {b c : Block} (h : Entry u q own' ta v)
    (hb : u.heap.blocks r = some b) (ho : b.owner = some own) (hne : own' ≠ own) :
    Entry (u.store r c) q own' ta v := by
  refine h.frame fun r' c' hc ho' => store_other hb hc ?_
  rintro rfl
  rw [ho] at ho'
  exact hne (Option.some.inj ho').symm

theorem onlyAt_secret {own k n k' n' : Nat} {bytes bytes' : List UInt8}
    (hb : u.heap.blocks q = some (.attr own (.secret k n bytes))) :
    OnlyAt own .secret u (u.store q (.attr own (.secret k' n' bytes'))) := by
  intro r own' ta v hne h
  by_cases ho : own' = own
  swap
  · exact h.store_owner hb rfl ho
  cases h with
  | secret ops raw block le length => exact absurd ⟨ho, raw⟩ hne
  | number ops block get bignum =>
    refine .number ops (store_other hb block ?_) get (store_other hb bignum ?_)
    · rintro ⟨⟩
      cases get
    · rintro ⟨⟩
  | word ops raw block =>
    refine .word ops raw (store_other hb block ?_)
    rintro ⟨⟩

theorem onlyAt_bignum {own w w' : Nat} {m : Member}
    (hb : u.heap.blocks q = some (.bignum own m w)) :
    OnlyAt own m u (u.store q (.bignum own m w')) := by
  intro r own' ta v hne h
  cases h with
  | secret ops raw block le length =>
    refine .secret ops raw (store_other hb block ?_) le length
    rintro ⟨⟩
  | number ops block get bignum =>
    refine .number ops (store_other hb block ?_) get (store_other hb bignum ?_)
    · rintro ⟨⟩
    · rintro ⟨⟩
      exact hne ⟨rfl, rfl⟩
  | word ops raw block =>
    refine .word ops raw (store_other hb block ?_)
    rintro ⟨⟩

theorem onlyAt_curve {own d e f c c' : Nat}
    (hb : u.heap.blocks q = some (.attr own (.ecc d e f c))) :
    OnlyAt own .curve u (u.store q (.attr own (.ecc d e f c'))) := by
  intro r own' ta v hne h
  by_cases ho : own' = own
  swap
  · exact h.store_owner hb rfl ho
  cases h with
  | secret ops raw block le length =>
    refine .secret ops raw (store_other hb block ?_) le length
    rintro ⟨⟩
  | number ops block get bignum =>
    have hbn := store_other (w := .attr own (.ecc d e f c')) hb bignum (by rintro ⟨⟩)
    by_cases h1 : r = q
    · -- the other members of the same key
      rw [h1, hb] at block
      cases block
      have hget : (Attr.ecc d e f c').get? ta.raw = (Attr.ecc d e f c).get? ta.raw := by
        cases hm : ta.raw with
        | curve => exact absurd ⟨ho, hm⟩ hne
        | _ => rfl
      refine .number ops ?_ (hget.trans get) hbn
      rw [Utc.store_blocks, if_pos h1]
    · refine .number ops ?_ get hbn
      rw [Utc.store_blocks, if_neg h1]
      exact block
  | word ops raw block => exact absurd ⟨ho, raw⟩ hne

/-- the shape of the entry of an attribute -/
theorem AttrOk.entry (hx : AttrOk u.heap.blocks a tp x)
    (hta : ta ∈ tp.typeAttrs) :
    (ta.opsIndex = .secret ∧ ta.raw = .secret ∧ ∃ k n data, x = .secret k n data ∧ k ≤ n ∧
      data.length = n ∧ n = tp.allocSize - sizeofSecret) ∨
    (ta.opsIndex = .bignum ∧ ∃ bn w, x.get? ta.raw = some bn ∧
      u.heap.blocks bn = some (.bignum a ta.raw w)) ∨
    (ta.opsIndex = .value ∧ ta.raw = .curve ∧ ∃ d e f c, x = .ecc d e f c) := by
  cases x with
  | secret k n data =>
    obtain ⟨ht, hn, hk, hl⟩ := hx
    rw [ht, teeCrypObjSecretValueAttrs, List.mem_singleton] at hta
    subst hta
    exact .inl ⟨rfl, rfl, k, n, data, rfl, hk, hl, hn⟩
  | ecc d e f c =>
    rcases hx.ops hta with ⟨-, k, n, data, hsec, -⟩ | ⟨hi, bn, hg, w, hw⟩ | ⟨hi, hr, hecc⟩
    · cases hsec
    · exact .inr (.inl ⟨hi, bn, w, hg, hw⟩)
    · exact .inr (.inr ⟨hi, hr, hecc⟩)

theorem AttrOk.has (hx : AttrOk u.heap.blocks a tp x)
    (hb : u.heap.blocks q = some (.attr a x)) (hta : ta ∈ tp.typeAttrs) : ∃ v, Entry u q a ta v := by
  obtain ⟨hi, hr, k, n, data, rfl, hk, hl, -⟩ | ⟨hi, bn, w, hg, hw⟩ | ⟨hi, hr, d, e, f, c, rfl⟩ :=
    hx.entry hta
  · exact ⟨_, .secret hi hr hb hk hl⟩
  · exact ⟨_, .number hi hb hg hw⟩
  · exact ⟨_, .word hi hr hb⟩

/-! ## the operations -/

/-- the value of the TA goes to the entry of its attribute -/
theorem attrFromUser_entry (hp : p.Reads) (hb : u.heap.blocks q = some (.attr a x))
    (hx : AttrOk u.heap.blocks a tp x) (hta : ta ∈ tp.typeAttrs) (buffer : List UInt8) :
    wp (attrFromUser p q ta buffer) (fun r t => OnlyAt a ta.raw u t ∧
      (r = teeSuccess → Entry t q a ta (supplied ta buffer))) u := by
  have hself : OnlyAt a ta.raw u u := fun _ _ _ _ _ h => h
  have hbad : teeErrorSecurity ≠ teeSuccess := by decide
  have hgen : teeErrorGeneric ≠ teeSuccess := by decide
  have hpar : teeErrorBadParameters ≠ teeSuccess := by decide
  obtain ⟨hi, hr, k, n, data, rfl, hk, hl, -⟩ | ⟨hi, bn, w, hg, hw⟩ | ⟨hi, hr, d, e, f, c, rfl⟩ :=
    hx.entry hta
  · simp only [attrFromUser, supplied, hi, hr, opAttrSecretValueFromUser, wp_bind, wp_blockAt hb]
    by_cases hn : n < buffer.length
    · rw [if_pos hn]
      exact ⟨hr ▸ hself, fun h => absurd h hbad⟩
    · have hd : ¬ data.length < buffer.length := by omega
      rw [if_neg hn, if_neg hd, wp_bind, wp_storeAt, wp_pure]
      refine ⟨onlyAt_secret hb, fun _ => ?_⟩
      have hnew : (u.store q (.attr a (.secret buffer.length n
          (buffer ++ data.drop buffer.length)))).heap.blocks q =
          some (.attr a (.secret buffer.length n (buffer ++ data.drop buffer.length))) := by
        rw [Utc.store_blocks, if_pos rfl]
      have hlength : (buffer ++ data.drop buffer.length).length = n := by
        rw [List.length_append, List.length_drop]
        omega
      have hentry := Entry.secret hi hr hnew (by omega) hlength
      rwa [List.take_left] at hentry
  · simp only [attrFromUser, supplied, hi, opAttrBignumFromUser, wp_bind, wp_memberAt hb hg,
      wp_bignumAt hw, wp_setBignum hw, wp_pure]
    refine ⟨onlyAt_bignum hw, fun h => ?_⟩
    have hok : (p.bin2bn buffer w).1 = true := by
      by_contra hno
      rw [if_neg hno] at h
      exact hpar h
    rw [hp buffer w hok]
    refine .number hi (store_other hw hb (by rintro ⟨⟩)) hg ?_
    rw [Utc.store_blocks, if_pos rfl]
  · simp only [attrFromUser, supplied, hi, hr, opAttrValueFromUser]
    by_cases h8 : buffer.length ≠ 8
    · rw [if_pos h8]
      exact ⟨hr ▸ hself, fun h => absurd h hgen⟩
    · rw [if_neg h8]
      simp only [wp_bind, wp_setMember hb, wp_pure, Attr.put]
      refine ⟨onlyAt_curve hb, fun _ => .word (d := d) (x := e) (y := f) hi hr ?_⟩
      rw [Utc.store_blocks, if_pos rfl]

/-- the entry of the source goes to the entry of the target -/
theorem attrFromObj_entry {a' q' : Nat} {x' : Attr} (hb : u.heap.blocks q = some (.attr a x))
    (hx : AttrOk u.heap.blocks a tp x) (hb' : u.heap.blocks q' = some (.attr a' x'))
    (hx' : AttrOk u.heap.blocks a' tp x') (hta : ta ∈ tp.typeAttrs)
    (hv : Entry u q' a' ta v) :
    wp (attrFromObj q q' ta ta) (fun _ t => OnlyAt a ta.raw u t ∧ Entry t q a ta v) u := by
  obtain ⟨hi, hr, k, n, data, rfl, hk, hl, hn⟩ | ⟨hi, bn, w, hg, hw⟩ |
    ⟨hi, hr, d, e, f, c, rfl⟩ := hx.entry hta
  · cases hv with
    | number ops block get bignum =>
      rw [hi] at ops
      cases ops
    | word ops raw block =>
      rw [hi] at ops
      cases ops
    | @secret k' n' bytes ops raw block le length =>
      rw [hb'] at block
      cases block
      obtain ⟨-, hn', -, -⟩ := hx'
      have hk' : ¬ n < k' := by omega
      have hlen : ¬ (data.length < k' ∨ bytes.length < k') := by omega
      simp only [attrFromObj, hi, opAttrSecretValueFromObj, wp_bind, wp_blockAt hb, wp_blockAt hb',
        if_neg hk', if_neg hlen, wp_storeAt, wp_pure, hr]
      refine ⟨onlyAt_secret hb, ?_⟩
      have hnew : (u.store q (.attr a (.secret k' n (bytes.take k' ++ data.drop k')))).heap.blocks
          q = some (.attr a (.secret k' n (bytes.take k' ++ data.drop k'))) := by
        rw [Utc.store_blocks, if_pos rfl]
      have hlength : (bytes.take k' ++ data.drop k').length = n := by
        rw [List.length_append, List.length_drop, List.length_take]
        omega
      have htake : (bytes.take k').length = k' := by
        rw [List.length_take]
        omega
      have hentry := Entry.secret hi hr hnew (by omega) hlength
      rwa [List.take_left' htake] at hentry
  · cases hv with
    | secret ops raw block le length =>
      rw [hi] at ops
      cases ops
    | word ops raw block =>
      rw [hi] at ops
      cases ops
    | number ops block get bignum =>
      rw [hb'] at block
      cases block
      simp only [attrFromObj, hi, opAttrBignumFromObj, wp_bind, wp_memberAt hb hg,
        wp_memberAt hb' get, wp_bignumAt bignum, wp_setBignum hw, wp_pure]
      refine ⟨onlyAt_bignum hw, .number hi (store_other hw hb (by rintro ⟨⟩)) hg ?_⟩
      rw [Utc.store_blocks, if_pos rfl]
  · cases hv with
    | secret ops raw block le length =>
      rw [hi] at ops
      cases ops
    | number ops block get bignum =>
      rw [hi] at ops
      cases ops
    | @word d' e' f' c' ops raw block =>
      rw [hb'] at block
      cases block
      have hget : (Attr.ecc d' e' f' c').get? .curve = some c' := rfl
      simp only [attrFromObj, hi, opAttrValueFromObj, wp_bind, hr, wp_memberAt hb' hget,
        wp_setMember hb, wp_pure, Attr.put]
      refine ⟨onlyAt_curve hb, .word (d := d) (x := e) (y := f) hi hr ?_⟩
      rw [Utc.store_blocks, if_pos rfl]

/-! ## the loops -/

/-- no two attributes of a type share a place -/
theorem raw_nodup (h : tp ∈ teeCrypObjProps) : (tp.typeAttrs.map TypeAttr.raw).Nodup := by
  have htab : ∀ tp ∈ teeCrypObjProps, (tp.typeAttrs.map TypeAttr.raw).Nodup := by decide
  exact htab tp h

theorem ids_nodup (h : tp ∈ teeCrypObjProps) : (tp.typeAttrs.map TypeAttr.attrId).Nodup := by
  have htab : ∀ tp ∈ teeCrypObjProps, (tp.typeAttrs.map TypeAttr.attrId).Nodup := by decide
  exact htab tp h

theorem raw_inj (h : tp ∈ teeCrypObjProps) {i j : Nat} {ta tb : TypeAttr}
    (hi : tp.typeAttrs[i]? = some ta) (hj : tp.typeAttrs[j]? = some tb) (hr : ta.raw = tb.raw) :
    i = j := by
  have hlt : i < tp.typeAttrs.length := (List.getElem?_eq_some_iff.mp hi).1
  apply (List.getElem?_inj (by rwa [List.length_map]) (raw_nodup h)).mp
  rw [List.getElem?_map, List.getElem?_map, hi, hj]
  exact congrArg some hr

/-- the entries that the list `l` supplies -/
def Filled (u : Utc) (q own : Nat) (tp : TypeProps) (mem : Nat → UInt8)
    (l : List TeeAttribute) : Prop :=
  ∀ e ∈ l, ∀ i ta, teeSvcCrypObjFindTypeAttrIdx e.attributeID tp = some i →
    tp.typeAttrs[i]? = some ta → Entry u q own ta (supplied ta (e.buffer mem))

/-- **A list without repetitions fills its entries.**  What was there stays, unless the list
supplies it again, and the mask gets the positions of the list. -/
theorem populateAttrs_entries {mem : Nat → UInt8} {l : List TeeAttribute} {have_ size : Nat}
    (hp : p.Reads) (htp : tp ∈ teeCrypObjProps) (hb : u.heap.blocks q = some (.attr a x))
    (hx : AttrOk u.heap.blocks a tp x) (hl : (ids l).Nodup) :
    wlp (populateAttrs p mem q tp l have_ size) (fun r t => r.1 = teeSuccess →
      (∀ i, r.2.1.testBit i = true ↔ have_.testBit i = true ∨
        ∃ e ∈ l, teeSvcCrypObjFindTypeAttrIdx e.attributeID tp = some i) ∧
      Filled t q a tp mem l ∧
      ∀ r own i ta v, tp.typeAttrs[i]? = some ta →
        (own = a → ∀ e ∈ l, teeSvcCrypObjFindTypeAttrIdx e.attributeID tp ≠ some i) →
        Entry u r own ta v → Entry t r own ta v) u := by
  induction l generalizing u x have_ size with
  | nil =>
    refine fun _ => ⟨fun i => ?_, fun e he => ?_, fun _ _ _ _ _ _ _ h => h⟩
    · simp
    · cases he
  | cons e l ih =>
    obtain ⟨hnot, hnd⟩ := List.nodup_cons.mp hl
    have hbad : teeErrorItemNotFound ≠ teeSuccess := by decide
    rw [populateAttrs]
    cases hi : teeSvcCrypObjFindTypeAttrIdx e.attributeID tp with
    | none => exact fun h => absurd h hbad
    | some i =>
      obtain ⟨ta, hg, hta⟩ := findIdx_mem hi
      simp only [hg, wlp_bind]
      have hstep := wp_and (attrFromUser_kept (p := p) hb hx hta (e.buffer mem))
        (wlp_of_wp (attrFromUser_entry hp hb hx hta (e.buffer mem)))
      refine wlp_mono (wlp_of_wp hstep) ?_
      rintro res v ⟨hk, honly, hentry⟩
      by_cases hr : res ≠ teeSuccess
      · rw [if_pos hr]
        exact fun h => absurd h hr
      · obtain ⟨x', hb', hx'⟩ := hk.attrOk hx hb
        rw [if_neg hr]
        refine wlp_mono (ih hb' hx' hnd) ?_
        rintro r w hw hsuc
        obtain ⟨hbits, hfill, hother⟩ := hw hsuc
        have hdist : ∀ e' ∈ l, teeSvcCrypObjFindTypeAttrIdx e'.attributeID tp ≠ some i :=
          fun e' he' hi' => hnot (List.mem_map.mpr ⟨e', he', findIdx_inj hi' hi⟩)
        refine ⟨fun j => ?_, fun e' he' j tb hj htb => ?_, fun r own j tb v hj hsup hv => ?_⟩
        · rw [hbits j, Bits.testBit_insert, or_assoc, List.exists_mem_cons_iff, hi,
            Option.some_inj, eq_comm (a := j)]
        · rcases List.mem_cons.mp he' with rfl | he'
          · cases hi.symm.trans hj
            cases hg.symm.trans htb
            exact hother q a i ta _ hg (fun _ => hdist) (hentry (not_not.mp hr))
          · exact hfill e' he' j tb hj htb
        · apply hother r own j tb v hj fun ho e' he' => hsup ho e' (List.mem_cons_of_mem e he')
          refine honly r own tb v ?_ hv
          rintro ⟨ho, hraw⟩
          exact hsup ho e List.mem_cons_self (raw_inj htp hj hg hraw ▸ hi)

theorem Entry.unique {own : Nat} {w : AttrValue} (h : Entry u q own ta v)
    (h' : Entry u q own ta w) : v = w := by
  cases h with
  | secret ops raw block le length =>
    cases h' with
    | secret ops' raw' block' le' length' =>
      rw [block] at block'
      cases block'
      rfl
    | number ops' block' get' bignum' => cases ops.symm.trans ops'
    | word ops' raw' block' => cases ops.symm.trans ops'
  | number ops block get bignum =>
    cases h' with
    | secret ops' raw' block' le' length' => cases ops.symm.trans ops'
    | number ops' block' get' bignum' =>
      cases block.symm.trans block'
      cases get.symm.trans get'
      cases bignum.symm.trans bignum'
      rfl
    | word ops' raw' block' => cases ops.symm.trans ops'
  | word ops raw block =>
    cases h' with
    | secret ops' raw' block' le' length' => cases ops.symm.trans ops'
    | number ops' block' get' bignum' => cases ops.symm.trans ops'
    | word ops' raw' block' =>
      cases block.symm.trans block'
      rfl

/-- **A copy takes over the entries of the source.** -/
theorem copyAttrs_entries {a' q' : Nat} {x' : Attr} {l : List TypeAttr}
    (hb : u.heap.blocks q = some (.attr a x)) (hx : AttrOk u.heap.blocks a tp x)
    (hb' : u.heap.blocks q' = some (.attr a' x')) (hx' : AttrOk u.heap.blocks a' tp x')
    (hne : a' ≠ a) (hl : ∀ ta ∈ l, ta ∈ tp.typeAttrs) (hnd : (l.map TypeAttr.raw).Nodup) :
    wlp (copyAttrs (fun ta => attrFromObj q q' ta ta) l) (fun r t => r = teeSuccess →
      (∀ ta ∈ l, ∀ v, Entry u q' a' ta v → Entry t q a ta v) ∧
      ∀ r ta v, (∀ tb ∈ l, tb.raw ≠ ta.raw) → Entry u r a ta v → Entry t r a ta v) u := by
  induction l generalizing u x x' with
  | nil =>
    refine fun _ => ⟨fun ta hta => ?_, fun _ _ _ _ h => h⟩
    cases hta
  | cons ta l ih =>
    have hta := hl ta List.mem_cons_self
    obtain ⟨hnot, hnd⟩ := List.nodup_cons.mp hnd
    obtain ⟨v, hv⟩ := hx'.has hb' hta
    have hstep := wp_and (attrFromObj_kept hb hx hb' hx' hta)
      (wlp_of_wp (attrFromObj_entry hb hx hb' hx' hta hv))
    rw [copyAttrs, wlp_bind]
    refine wlp_mono (wlp_of_wp hstep) ?_
    rintro res t ⟨hk, honly, hentry⟩
    by_cases hr : res ≠ teeSuccess
    · rw [if_pos hr]
      exact fun h => absurd h hr
    · obtain ⟨y, hy, hyok⟩ := hk.attrOk hx hb
      obtain ⟨y', hy', hyok'⟩ := hk.attrOk hx' hb'
      rw [if_neg hr]
      refine wlp_mono (ih hy hyok hy' hyok' (fun tb htb => hl tb (List.mem_cons_of_mem ta htb))
        hnd) ?_
      rintro r w hw hsuc
      obtain ⟨hcopy, hother⟩ := hw hsuc
      refine ⟨fun tb htb z hz => ?_, fun r tb z hsup hz => ?_⟩
      · rcases List.mem_cons.mp htb with rfl | htb
        · cases hz.unique hv
          exact hother q tb _ (fun tc htc e => hnot (List.mem_map.mpr ⟨tc, htc, e⟩)) hentry
        · exact hcopy tb htb z (honly q' a' tb z (fun h => hne h.1) hz)
      · apply hother r tb z fun tc htc => hsup tc (List.mem_cons_of_mem ta htc)
        exact honly r a tb z (fun h => hsup ta List.mem_cons_self h.2.symm) hz

end

end MTower.Cryp
