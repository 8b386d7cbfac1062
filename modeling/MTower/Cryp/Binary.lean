import MTower.Cryp.Ownership

/-!
# Keys inside their blocks

`tee_obj_attr_from_binary`, and the five writers of a secret key together.  The block of a key is
sized by the type of the object when `tee_obj_set_type` allocates it; what is written later comes
with a length of its own.

* `teeObjAttrFromBinary`   the attributes of an object from their serialised form;
* `attrFromBinary_kept`    it stays inside the block;
* `keyCall_bounded`        one call keeps every key inside its block;
* `secretBounded_run`      so does every sequence of calls.

`size_t` has 32 bits: an offset into the serialised form is taken modulo `2 ^ 32`.
-/

set_option linter.unusedVariables false

namespace MTower.Cryp
open Lib Kernel

/-! ## the serialised form -/

def teeErrorCorruptObject : Nat := 0xF0100001

/-- `n` bytes of `data` from `offs` on: reading behind `dataLen` faults -/
def readData (data : Nat → UInt8) (dataLen offs n : Nat) : C (List UInt8) :=
  if dataLen < offs + n then throw .outOfBounds
  else pure ((List.range n).map fun i => data (offs + i))

/-- `TEE_U32_FROM_BIG_ENDIAN` -/
def bigEndian (field : List UInt8) : Nat := field.foldl (fun v b => 256 * v + b.toNat) 0

/-- the number and the next offset, or `none` for `false`; `data` is `none` for `NULL` -/
def opU32FromBinaryHelper (data : Option (Nat → UInt8)) (dataLen offs : Nat) :
    C (Option (Nat × Nat)) :=
  match data with
  | none => pure none
  | some d =>
    if dataLen < (offs + 4) % 2 ^ 32 then pure none
    else do
      let field ← readData d dataLen offs 4
      pure (some (bigEndian field, (offs + 4) % 2 ^ 32))

/-- the bytes behind the number -/
def readCounted (data : Option (Nat → UInt8)) (dataLen offs n : Nat) : C (List UInt8) :=
  match data with
  | none => throw .nullPointer
  | some d => readData d dataLen offs n

/-- the next offset, or `none` for `false` -/
def opAttrSecretValueFromBinary (attr : Nat) (data : Option (Nat → UInt8)) (dataLen offs : Nat) :
    C (Option Nat) := do
  match ← opU32FromBinaryHelper data dataLen offs with
  | none => pure none
  | some (s, offs) =>
    if dataLen < (offs + s) % 2 ^ 32 then pure none
    else
      match ← blockAt attr with
      | .attr own (.secret _ n bytes) =>
        if n < s then pure none
        else do
          let buffer ← readCounted data dataLen offs s
          if bytes.length < s then throw .outOfBounds
          else do
            storeAt attr (.attr own (.secret s n (buffer ++ bytes.drop s)))
            pure (some ((offs + s) % 2 ^ 32))
      | _ => throw .danglingPointer

def opAttrBignumFromBinary (p : Provider) (attr : Nat) (m : Member) (data : Option (Nat → UInt8))
    (dataLen offs : Nat) : C (Option Nat) := do
  match ← opU32FromBinaryHelper data dataLen offs with
  | none => pure none
  | some (n, offs) =>
    if dataLen < (offs + n) % 2 ^ 32 then pure none
    else do
      let bn ← memberAt attr m
      let v ← bignumAt bn
      let buffer ← readCounted data dataLen offs n
      setBignum bn (p.bin2bn buffer v).2
      if (p.bin2bn buffer v).1 then pure (some ((offs + n) % 2 ^ 32)) else pure none

/-- `attr_ops[ops_index].from_binary`; a value has none -/
def attrFromBinary (p : Provider) (attr : Nat) (ta : TypeAttr) (data : Option (Nat → UInt8))
    (dataLen offs : Nat) : C (Option Nat) :=
  match ta.opsIndex with
  | .secret => opAttrSecretValueFromBinary attr data dataLen offs
  | .bignum => opAttrBignumFromBinary p attr ta.raw data dataLen offs
  | .value => throw .nullPointer

/-- the loop of `tee_obj_attr_from_binary` -/
def attrsFromBinary (p : Provider) (attr : Nat) (data : Option (Nat → UInt8)) (dataLen : Nat) :
    List TypeAttr → Nat → C Nat
  | [], offs => pure teeSuccess
  | ta :: l, offs => do
    match ← attrFromBinary p attr ta data dataLen offs with
    | none => pure teeErrorCorruptObject
    | some offs => attrsFromBinary p attr data dataLen l offs

def teeObjAttrFromBinary (p : Provider) (o : Nat) (data : Option (Nat → UInt8)) (dataLen : Nat) :
    C Nat := do
  let obj ← objAt o
  if obj.info.objectType = teeTypeData then pure teeSuccess
  else if obj.attr = 0 then pure teeErrorBadState
  else
    match teeSvcFindTypeProps obj.info.objectType with
    | none => pure teeErrorBadState
    | some tp => attrsFromBinary p obj.attr data dataLen tp.typeAttrs 0

/-! ## one attribute -/

section
variable {p : Provider} {u : Utc} {a q : Nat} {tp : TypeProps} {x : Attr}
  {data : Option (Nat → UInt8)} {dataLen offs : Nat}

theorem wp_readData {d : Nat → UInt8} {n : Nat} {Q : List UInt8 → Utc → Prop}
    (h : offs + n ≤ dataLen) :
    wp (readData d dataLen offs n) Q u ↔ Q ((List.range n).map fun i => d (offs + i)) u := by
  have hn : ¬ dataLen < offs + n := by omega
  rw [readData, if_neg hn, wp_pure]

/-- the number is read from a form that has room for it -/
theorem opU32FromBinaryHelper_spec (ho : offs + 4 < 2 ^ 32) {Q : Option (Nat × Nat) → Utc → Prop}
    (hnone : Q none u) (hsome : ∀ d s, data = some d → offs + 4 ≤ dataLen →
      Q (some (s, offs + 4)) u) : wp (opU32FromBinaryHelper data dataLen offs) Q u := by
  unfold opU32FromBinaryHelper
  cases data with
  | none => exact hnone
  | some d =>
    dsimp only
    rw [Nat.mod_eq_of_lt ho]
    by_cases hl : dataLen < offs + 4
    · rw [if_pos hl]
      exact hnone
    · rw [if_neg hl, wp_bind, wp_readData (by omega), wp_pure]
      exact hsome d _ rfl (by omega)

/-- **A serialised key stays inside the block of its object.** -/
theorem attrFromBinary_kept {k n : Nat} {bytes : List UInt8} {ta : TypeAttr}
    (hb : u.heap.blocks q = some (.attr a (.secret k n bytes))) (hl : bytes.length = n)
    (hn : n < 2 ^ 31) (ho : offs + 4 < 2 ^ 31) (hta : ta.opsIndex = .secret) :
    wp (attrFromBinary p q ta data dataLen offs) (fun _ t => Kept u t) u := by
  simp only [attrFromBinary, hta, opAttrSecretValueFromBinary, wp_bind]
  apply opU32FromBinaryHelper_spec (by omega) (Kept.refl u)
  intro d s hd hlen
  dsimp only
  by_cases h1 : dataLen < (offs + 4 + s) % 2 ^ 32
  · rw [if_pos h1]
    exact Kept.refl u
  rw [if_neg h1, wp_bind, wp_blockAt hb]
  dsimp only
  by_cases h2 : n < s
  · rw [if_pos h2]
    exact Kept.refl u
  -- the sum did not wrap around: the key is not longer than its block
  have hw : (offs + 4 + s) % 2 ^ 32 = offs + 4 + s := Nat.mod_eq_of_lt (by omega)
  have h3 : ¬ bytes.length < s := by omega
  rw [if_neg h2, hd, readCounted, wp_bind, wp_readData (by omega), if_neg h3, wp_bind, wp_storeAt,
    wp_pure]
  refine Kept.store hb (.secret (fun _ => by omega) ?_)
  simp only [List.length_append, List.length_drop, List.length_map, List.length_range]
  omega

theorem alloc_small (h : tp ∈ teeCrypObjProps) : tp.allocSize < 2 ^ 20 := by
  have htab : ∀ tp ∈ teeCrypObjProps, tp.allocSize < 2 ^ 20 := by decide
  exact htab tp h

theorem teeObjAttrFromBinary_kept {o : TeeObj} (ho : u.heap.blocks a = some (.obj o))
    (hok : ObjOk u.heap.blocks a o) (hs : isEccKeypair o.info.objectType = false) :
    wp (teeObjAttrFromBinary p a data dataLen) (fun _ t => Kept u t) u := by
  obtain ⟨-, tp, x, htp, hb, hx⟩ := hok
  obtain ⟨hty, ⟨hecc, -⟩ | ⟨-, hattrs⟩⟩ := props_cases htp
  · rw [hty, hs] at hecc
    cases hecc
  simp only [teeObjAttrFromBinary, wp_bind, wp_objAt ho, htp]
  by_cases hd : o.info.objectType = teeTypeData
  · rw [if_pos hd]
    exact Kept.refl u
  by_cases h0 : o.attr = 0
  · rw [if_neg hd, if_pos h0]
    exact Kept.refl u
  rw [if_neg hd, if_neg h0, hattrs]
  cases x with
  | ecc d e f c =>
    obtain ⟨h1, -⟩ := hx
    rw [hattrs] at h1
    cases h1
  | secret k n bytes =>
    obtain ⟨-, hn, -, hl⟩ := hx
    have hsmall := alloc_small (List.mem_of_find?_eq_some htp)
    simp only [teeCrypObjSecretValueAttrs, attrsFromBinary, wp_bind]
    refine wp_mono (attrFromBinary_kept hb hl (by omega) (by omega) rfl) fun r t ht => ?_
    cases r with
    | none => exact ht
    | some offs => exact ht

end

/-! ## the five writers -/

/-- the calls that write the key of an object -/
inductive ObjCall where
  | alloc (objType maxKeySize : Nat)
  | populate (mem : Nat → UInt8) (obj : Nat) (attrs : List UteeAttribute)
  | copy (dst src : Nat)
  | reset (obj : Nat)

def ObjCall.toCall : ObjCall → Call
  | .alloc t n => .objAlloc t n
  | .populate mem o l => .objPopulate mem o l
  | .copy d s => .objCopy d s
  | .reset o => .objReset o

inductive KeyCall where
  | obj (c : ObjCall)
  | fromBinary (obj : Nat) (data : Option (Nat → UInt8)) (dataLen : Nat)

/-- the result of the call and the handle it gives out -/
def keyCall (p : Provider) : KeyCall → C (Nat × Nat)
  | .obj c => call p c.toCall
  | .fromBinary o data dataLen => do
    let r ← teeObjAttrFromBinary p o data dataLen
    pure (r, 0)

/-- a type of the table that is allocated stores a secret, and a pointer to an object is one -/
def KeyCall.Legal : KeyCall → Utc → Prop
  | .obj (.alloc t _), _ => ∀ tp, teeSvcFindTypeProps t = some tp →
      tp.typeAttrs = teeCrypObjSecretValueAttrs
  | .fromBinary o _ _, u => o ∈ u.objects
  | _, _ => True

/-- the key of every object lies inside the block that was allocated for its type -/
def SecretBounded (u : Utc) : Prop :=
  ∀ a o, u.obj a = some o → ∃ tp k data, teeSvcFindTypeProps o.info.objectType = some tp ∧
    u.heap.blocks o.attr = some (.attr a (.secret k (tp.allocSize - sizeofSecret) data)) ∧
    k ≤ tp.allocSize - sizeofSecret ∧ data.length = tp.allocSize - sizeofSecret

/-- no object has the type of an ECC key pair -/
def AllSecret (u : Utc) : Prop := ∀ a o, u.obj a = some o → isEccKeypair o.info.objectType = false

section
variable {p : Provider} {u t : Utc}

theorem AllSecret.bounded (h : AllSecret u) (hc : Core p u) : SecretBounded u := by
  intro a o ho
  obtain ⟨-, tp, x, htp, hb, hx⟩ := hc.objOk a o ho
  obtain ⟨hty, ⟨hecc, -⟩ | ⟨-, hattrs⟩⟩ := props_cases htp
  · rw [hty, h a o ho] at hecc
    cases hecc
  cases x with
  | ecc d e f c =>
    obtain ⟨h1, -⟩ := hx
    rw [hattrs] at h1
    cases h1
  | secret k n data =>
    obtain ⟨-, rfl, hk, hl⟩ := hx
    exact ⟨tp, k, data, htp, hb, hk, hl⟩

theorem AllSecret.kept (h : AllSecret u) (hk : Kept u t) : AllSecret t := by
  intro a o' ho'
  obtain ⟨o, ho, hs⟩ := hk.obj_of ho'
  rw [hs.type_eq]
  exact h a o ho

theorem AllSecret.congr (h : AllSecret u) (ho : t.obj = u.obj) : AllSecret t := by
  intro a o hao
  rw [ho] at hao
  exact h a o hao

theorem AllSecret.added {a ty n : Nat} {x : TeeObj} (h : AllSecret u) (ha : Added p a x u t)
    (hx : Typed ty n x.info)
    (hty : ∀ tp, teeSvcFindTypeProps ty = some tp → tp.typeAttrs = teeCrypObjSecretValueAttrs) :
    AllSecret t := by
  intro q o ho
  rw [ha.obj] at ho
  by_cases hq : q = a
  · rw [hq, Function.update_self, Option.some_inj] at ho
    obtain ⟨tp, htp, -⟩ := hx.sizes
    obtain ⟨he, ⟨-, hattrs⟩ | ⟨hecc, -⟩⟩ := props_cases htp
    · rw [hty tp htp] at hattrs
      cases hattrs
    · rw [← ho, hx.eq]
      rw [he] at hecc
      exact hecc
  · rw [Function.update_of_ne hq] at ho
    exact h q o ho

/-- the invariant of the runs -/
structure KeysInside (p : Provider) (u : Utc) : Prop where
  sound : Sound p u
  secret : AllSecret u

theorem KeysInside.kept (h : KeysInside p u) (hk : Kept u t) : KeysInside p t :=
  ⟨h.sound.kept hk, h.secret.kept hk⟩

/-- **No call writes a key outside its block.** -/
theorem keyCall_bounded {c : KeyCall} (h : KeysInside p u) (hl : c.Legal u) :
    wp (keyCall p c) (fun _ t => KeysInside p t) u := by
  have hc := h.sound.core
  cases c with
  | obj c =>
    cases c with
    | alloc ty n =>
      show wp (uteeCrypObjAlloc ty n) _ u
      refine wp_mono (uteeCrypObjAlloc_spec hc) fun r t ht => ?_
      obtain ⟨-, hu⟩ | ⟨-, x, hx, ha, hty⟩ := ht
      · exact ⟨h.sound.unchanged hu, h.secret.congr hu.obj⟩
      · exact ⟨h.sound.added ha hx, h.secret.added ha hty hl⟩
    | populate mem o l =>
      rw [keyCall, ObjCall.toCall, call, wp_bind]
      exact wp_mono (uteeCrypObjPopulate_kept hc) fun _ t ht => h.kept ht
    | copy d s =>
      rw [keyCall, ObjCall.toCall, call, wp_bind]
      exact wp_mono (uteeCrypObjCopy_kept hc) fun _ t ht => h.kept ht
    | reset o =>
      rw [keyCall, ObjCall.toCall, call, wp_bind]
      exact wp_mono (uteeCrypObjReset_kept hc) fun _ t ht => h.kept ht
  | fromBinary o data dataLen =>
    obtain ⟨x, hx⟩ := hc.objBlock hl
    have hxo := Utc.obj_iff.mpr hx
    rw [keyCall, wp_bind]
    exact wp_mono (teeObjAttrFromBinary_kept hx (hc.objOk o x hxo) (h.secret o x hxo))
      fun _ t ht => h.kept ht

/-- **Keys stay inside their blocks.**  No sequence of allocations, populates, copies, resets and
reads of a serialised form faults, and after it every key fits the block of its type. -/
theorem secretBounded_run (p : Provider) (answers : Nat → Nat) (l : List KeyCall)
    (hl : Guarded (keyCall p) KeyCall.Legal l (Utc.empty answers)) :
    wp (run (keyCall p) l) (fun _ u => SecretBounded u) (Utc.empty answers) := by
  have h0 : KeysInside p (Utc.empty answers) := by
    refine ⟨Sound.empty answers, fun a o ho => ?_⟩
    cases ho
  have hrun := wp_run (fun c u h hc => keyCall_bounded h hc) hl h0
  exact wp_mono hrun fun _ u h => h.secret.bounded h.sound.core

/-- an AES key read from a form that claims more bytes than its block has -/
def sampleBinary : List KeyCall :=
  [.obj (.alloc teeTypeAes 128), .fromBinary 0x1000 (some fun i => if i < 4 then 0xff else 0) 64]

theorem secretBounded_run_sample :
    Guarded (keyCall sampleProvider) KeyCall.Legal sampleBinary (Utc.empty sampleAnswers) ∧
    wp (run (keyCall sampleProvider) sampleBinary) (fun _ u => SecretBounded u)
      (Utc.empty sampleAnswers) := by
  have hlisted : wlp (run (keyCall sampleProvider) [.obj (.alloc teeTypeAes 128)])
      (fun _ u => 0x1000 ∈ u.objects) (Utc.empty sampleAnswers) := wlp_of_wp (by decide)
  have hl : Guarded (keyCall sampleProvider) KeyCall.Legal ([.obj (.alloc teeTypeAes 128)] ++
      [.fromBinary 0x1000 (some fun i => if i < 4 then 0xff else 0) 64])
      (Utc.empty sampleAnswers) := by
    refine Guarded.snoc ⟨?_, fun _ _ _ => trivial⟩ hlisted
    intro tp htp
    obtain ⟨he, ⟨hecc, -⟩ | ⟨-, hattrs⟩⟩ := props_cases htp
    · rw [he] at hecc
      cases hecc
    · exact hattrs
  exact ⟨hl, secretBounded_run sampleProvider sampleAnswers sampleBinary hl⟩

end

end MTower.Cryp
