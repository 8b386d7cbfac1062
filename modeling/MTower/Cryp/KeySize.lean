import MTower.Cryp.Info

/-!
# The sizes of keys over whole runs

`tee_obj_set_type` checks `maxKeySize` against the table of types.  The size of a key arrives
later, with a populate or a copy, and neither is checked against the table or `maxKeySize`.

* `KeySizesLegal`      what the table and `maxKeySize` ask of the initialised objects;
* `ObjCall.Fits`       the calls whose sizes do fit;
* `keySizesLegal_iff`  a run keeps the sizes legal exactly when all of its calls fit.
-/

set_option linter.unusedVariables false

namespace MTower.Cryp
open Lib Kernel

/-- the size of a key is one that its object and its type allow -/
structure LegalSizes (objType keySize maxKeySize : Nat) : Prop where
  max : keySize ≤ maxKeySize
  table : ∀ tp, teeSvcFindTypeProps objType = some tp →
    tp.typeAttrs = teeCrypObjSecretValueAttrs →
      keySize % tp.quanta = 0 ∧ tp.minSize ≤ keySize ∧ keySize ≤ tp.maxSize

def KeySizesLegal (u : Utc) : Prop :=
  ∀ a x, u.obj a = some x → x.info.has teeHandleFlagInitialized = true →
    LegalSizes x.info.objectType x.info.keySize x.info.maxKeySize

def objCall (p : Provider) (c : ObjCall) : C (Nat × Nat) := call p c.toCall

/-- a populate that goes through brings a size that is legal, and a copy one that its target
allows -/
def ObjCall.Fits : ObjCall → Utc → Prop
  | .populate _ o l, u => ∀ x tp e, Populates u o l x tp e →
      LegalSizes x.info.objectType (countedBits x.info.objectType (e.b * 8)) x.info.maxKeySize
  | .copy d s, u => ∀ x y, Copies u d s x y → y.info.keySize ≤ x.info.maxKeySize
  | _, _ => True

section
variable {p : Provider} {u t : Utc} {a : Nat}

/-! ## one call -/

theorem has_initialized (info : ObjectInfo) (flags : Nat)
    (h : info.handleFlags = flags ||| teeHandleFlagInitialized) :
    info.has teeHandleFlagInitialized = true := by
  have hne : teeHandleFlagInitialized ≠ 0 := by decide
  rw [ObjectInfo.has, h, Nat.and_or_distrib_right, Nat.and_self, bne_iff_ne]
  intro h0
  exact hne (Nat.or_eq_zero_iff.mp h0).2

theorem cleared_fresh (x : TeeObj) : x.cleared.info.has teeHandleFlagInitialized = false := by
  have h0 : (0xffffffff ^^^ teeHandleFlagInitialized) &&& teeHandleFlagInitialized = 0 := by decide
  rw [has_eq_false]
  show (x.info.handleFlags &&& _) &&& _ = 0
  rw [Nat.and_assoc, h0, Nat.and_zero]

/-- one object is another one afterwards -/
theorem KeySizesLegal.update {y : TeeObj} (h : KeySizesLegal u)
    (ht : t.obj = Function.update u.obj a (some y))
    (hy : y.info.has teeHandleFlagInitialized = true →
      LegalSizes y.info.objectType y.info.keySize y.info.maxKeySize) : KeySizesLegal t := by
  intro b x hx
  rw [ht] at hx
  by_cases hb : b = a
  · rw [hb, Function.update_self, Option.some_inj] at hx
    rw [← hx]
    exact hy
  · rw [Function.update_of_ne hb] at hx
    exact h b x hx

theorem KeySizesLegal.congr (h : KeySizesLegal u) (ht : t.obj = u.obj) : KeySizesLegal t := by
  intro b x hx
  rw [ht] at hx
  exact h b x hx

/-- the sizes of an ECC key are the ones the object was made with -/
theorem LegalSizes.ecc {objType keySize maxKeySize : Nat} (h : isEccKeypair objType = true)
    (hmax : keySize ≤ maxKeySize) : LegalSizes objType keySize maxKeySize := by
  refine ⟨hmax, fun tp htp hs => ?_⟩
  obtain ⟨hty, ⟨-, hattrs⟩ | ⟨hecc, -⟩⟩ := props_cases htp
  · cases hattrs.symm.trans hs
  · rw [hty, h] at hecc
    cases hecc

/-- a populate, a copy and a reset keep the blocks of the objects; an allocation keeps `Core` too -/
theorem objCall_core {c : ObjCall} (hc : Core p u) : wp (objCall p c) (fun _ t => Core p t) u := by
  cases c with
  | alloc ty n =>
    show wp (uteeCrypObjAlloc ty n) _ u
    refine wp_mono (uteeCrypObjAlloc_spec hc) fun r t ht => ?_
    obtain ⟨-, hu⟩ | ⟨-, x, -, ha, -⟩ := ht
    · exact hu.core
    · exact ha.core
  | populate mem o l =>
    rw [objCall, ObjCall.toCall, call, wp_bind]
    exact wp_mono (uteeCrypObjPopulate_kept hc) fun _ t ht => hc.kept ht
  | copy d s =>
    rw [objCall, ObjCall.toCall, call, wp_bind]
    exact wp_mono (uteeCrypObjCopy_kept hc) fun _ t ht => hc.kept ht
  | reset o =>
    rw [objCall, ObjCall.toCall, call, wp_bind]
    exact wp_mono (uteeCrypObjReset_kept hc) fun _ t ht => hc.kept ht

/-- **A call that fits keeps the sizes legal.** -/
theorem objCall_legal {c : ObjCall} (hc : Core p u) (h : KeySizesLegal u) (hf : c.Fits u) :
    wp (objCall p c) (fun _ t => KeySizesLegal t) u := by
  cases c with
  | alloc ty n =>
    show wp (uteeCrypObjAlloc ty n) _ u
    refine wp_mono (uteeCrypObjAlloc_spec hc) fun r t ht => ?_
    obtain ⟨-, hu⟩ | ⟨-, x, -, ha, hty⟩ := ht
    · exact h.congr hu.obj
    · refine h.update ha.obj fun hi => ?_
      rw [hty.eq] at hi
      exact absurd hi (by simp [ObjectInfo.has])
  | populate mem o l =>
    rw [objCall, ObjCall.toCall, call, wp_bind]
    refine wp_mono (uteeCrypObjPopulate_objs hc) fun r t ht => ?_
    obtain ⟨x, tp, e, k, hp, -, ht⟩ | ⟨-, ht | ⟨x, k, -, hecc, ht⟩⟩ := ht
    · exact h.update ht fun _ => hf x tp e hp
    · exact h.congr ht
    · exact h.update ht fun _ => LegalSizes.ecc hecc (Nat.zero_le _)
  | copy d s =>
    rw [objCall, ObjCall.toCall, call, wp_bind]
    refine wp_mono (uteeCrypObjCopy_objs hc) fun r t ht => ?_
    obtain ⟨x, y, hcp, -, ht⟩ | ⟨-, -, ht⟩ := ht
    · refine h.update ht fun _ => ⟨hf x y hcp, fun tp htp hs => ?_⟩
      have htp' : teeSvcFindTypeProps y.info.objectType = some tp := by
        rw [← hcp.type]
        exact htp
      exact (h s y hcp.src hcp.ready).table tp htp' hs
    · exact h.congr ht
  | reset o =>
    rw [objCall, ObjCall.toCall, call, wp_bind]
    refine wp_mono (uteeCrypObjReset_objs hc) fun r t ht => ?_
    cases hx : u.obj o with
    | none =>
      rw [hx, Option.map_none, Function.update_eq_self_iff.mpr hx.symm] at ht
      exact h.congr ht
    | some x =>
      rw [hx, Option.map_some] at ht
      refine h.update ht fun hi => ?_
      rw [cleared_fresh] at hi
      cases hi

/-- **A call that does not fit makes an illegal size.** -/
theorem objCall_fits {c : ObjCall} (hc : Core p u)
    (h : wp (objCall p c) (fun _ t => KeySizesLegal t) u) : c.Fits u := by
  cases c with
  | alloc ty n => trivial
  | reset o => trivial
  | populate mem o l =>
    intro x tp e hp
    rw [objCall, ObjCall.toCall, call, wp_bind] at h
    obtain ⟨r, t, hl, ht⟩ := wp_wlp h (wlp_of_wp (uteeCrypObjPopulate_objs hc))
    obtain ⟨x', tp', e', k, hp', -, ht⟩ | ⟨hno, -⟩ := ht
    · cases hp.obj.symm.trans hp'.obj
      cases hp.attrs.symm.trans hp'.attrs
      exact hl o _ (by rw [ht, Function.update_self]) (has_initialized _ x.info.handleFlags rfl)
    · exact absurd hp (hno x tp e)
  | copy d s =>
    intro x y hcp
    rw [objCall, ObjCall.toCall, call, wp_bind] at h
    obtain ⟨r, t, hl, ht⟩ := wp_wlp h (wlp_of_wp (uteeCrypObjCopy_objs hc))
    obtain ⟨x', y', hcp', -, ht⟩ | ⟨hno, -⟩ := ht
    · cases hcp.dst.symm.trans hcp'.dst
      cases hcp.src.symm.trans hcp'.src
      exact (hl d _ (by rw [ht, Function.update_self])
        (has_initialized _ x.info.handleFlags rfl)).max
    · exact absurd hcp (hno x y)

/-! ## runs -/

/-- **Legal key sizes.**  The sizes are legal in every state of a run exactly when every populate
and every copy of it brings a size that fits. -/
theorem keySizesLegal_iff (p : Provider) (answers : Nat → Nat) (l : List ObjCall) :
    (∀ m, m <+: l → wp (run (objCall p) m) (fun _ u => KeySizesLegal u) (Utc.empty answers)) ↔
      Guarded (objCall p) ObjCall.Fits l (Utc.empty answers) := by
  have hlegal : KeySizesLegal (Utc.empty answers) := by
    intro a x hx
    cases hx
  refine guarded_iff (I := fun u => Core p u ∧ KeySizesLegal u) (fun u h => h.2) ?_ ?_
    ⟨Core.empty answers, hlegal⟩
  · intro c u h hf
    exact wp_and (objCall_core h.1) (wlp_of_wp (objCall_legal h.1 h.2 hf))
  · intro c u h hw
    exact objCall_fits h.1 hw

/-- an AES key of five bytes -/
theorem keySizesLegal_fails : ¬ ∀ m, m <+: [.alloc teeTypeAes 128,
      .populate (fun _ => 0) 0x1000 [⟨0, 5, teeAttrSecretValue⟩]] →
    wp (run (objCall sampleProvider) m) (fun _ u => KeySizesLegal u) (Utc.empty sampleAnswers) := by
  intro h
  obtain ⟨r, u, e, hlegal⟩ := wp_iff.mp (h _ List.prefix_rfl)
  have hrun : (match run (objCall sampleProvider) [.alloc teeTypeAes 128,
      .populate (fun _ => 0) 0x1000 [⟨0, 5, teeAttrSecretValue⟩]] (Utc.empty sampleAnswers) with
    | .ok (_, t) => (t.obj 0x1000).map TeeObj.info
    | .error _ => none) = some ⟨teeTypeAes, 40, 128, teeUsageDefault,
      teeHandleFlagInitialized⟩ := by decide
  rw [e] at hrun
  obtain ⟨x, hx, hinfo⟩ := Option.map_eq_some_iff.mp hrun
  have htable := (hlegal 0x1000 x hx (by rw [hinfo]; decide)).table _ (by rw [hinfo]; rfl) rfl
  rw [hinfo] at htable
  exact absurd htable.1 (by decide)

end

end MTower.Cryp
