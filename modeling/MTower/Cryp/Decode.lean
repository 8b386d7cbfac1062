import MTower.Lib.Fields
import MTower.Cryp.Binary

/-!
# The decoder of attributes on every input

`tee_obj_attr_from_binary` adds lengths from the serialised form to a 32-bit offset, and the
curve of a key pair has no decoder.

* `opAttrSecretValueFromBinary_exact`, `opAttrBignumFromBinary_exact`  what the decoders do;
* `InPlace`          the encodings lie one after the other inside the form;
* `Stopped`          the forms that are found corrupt in time;
* `fromBinary_iff`   the decoder is safe on these, and on those of secret keys.
-/

set_option linter.unusedVariables false

namespace MTower.Cryp
open Lib Kernel
open Lib.Fields (bytesAt)

/-- the number at `offs` -/
def countAt (d : Nat → UInt8) (offs : Nat) : Nat := bigEndian (bytesAt d offs 4)

/-- start and length of the encodings of the attributes of a table -/
def encodings (d : Nat → UInt8) : List TypeAttr → Nat → List (Nat × Nat)
  | [], _ => []
  | _ :: l, offs => (offs, 4 + countAt d offs) :: encodings d l (offs + 4 + countAt d offs)

/-- the encodings occupy consecutive ranges inside the form -/
structure InPlace (d : Nat → UInt8) (dataLen : Nat) (l : List TypeAttr) : Prop where
  inside : ∀ r ∈ encodings d l 0, r.1 + r.2 ≤ dataLen
  disjoint : (encodings d l 0).Pairwise fun r r' => r.1 + r.2 ≤ r'.1

/-- the decoder does not reach the curve: an encoding ends behind the form, at an offset that
`size_t` can hold, or its number is refused -/
def Stopped (p : Provider) (d : Nat → UInt8) (dataLen : Nat) : List Nat → Nat → Prop
  | [], _ => False
  | v :: l, offs =>
    if offs + 4 ≤ dataLen then
      if offs + 4 + countAt d offs ≤ dataLen then
        (p.bin2bn (bytesAt d (offs + 4) (countAt d offs)) v).1 = false ∨
          Stopped p d dataLen l (offs + 4 + countAt d offs)
      else offs + 4 + countAt d offs < 2 ^ 32
    else offs + 4 < 2 ^ 32

def Utc.number (u : Utc) (bn : Nat) : Nat :=
  match u.heap.blocks bn with
  | some (.bignum _ _ v) => v
  | _ => 0

/-- the bignums of an attribute block -/
def Utc.numbers (u : Utc) (attr : Nat) : List Nat :=
  match u.heap.blocks attr with
  | some (.attr _ (.ecc d x y _)) => [u.number d, u.number x, u.number y]
  | _ => []

/-- the forms that the decoder handles safely -/
def Decodable (p : Provider) (u : Utc) (o : TeeObj) (data : Option (Nat → UInt8))
    (dataLen : Nat) : Prop :=
  isEccKeypair o.info.objectType = false ∨
    ∀ d, data = some d → Stopped p d dataLen (u.numbers o.attr) 0

/-- what a successful decoding says about the form -/
def Decoded (o : TeeObj) (data : Option (Nat → UInt8)) (dataLen r : Nat) : Prop :=
  r = teeSuccess → ∃ d tp, data = some d ∧ teeSvcFindTypeProps o.info.objectType = some tp ∧
    InPlace d dataLen tp.typeAttrs

section
variable {p : Provider} {u : Utc} {a q : Nat} {d : Nat → UInt8} {dataLen offs : Nat}

/-! ## the ranges -/

theorem le_encodings (l : List TypeAttr) (offs : Nat) : ∀ r ∈ encodings d l offs, offs ≤ r.1 := by
  induction l generalizing offs with
  | nil =>
    intro r hr
    cases hr
  | cons ta l ih =>
    intro r hr
    rcases List.mem_cons.mp hr with rfl | hr
    · exact Nat.le_refl offs
    · have h := ih (offs + 4 + countAt d offs) r hr
      omega

theorem encodings_disjoint (l : List TypeAttr) (offs : Nat) :
    (encodings d l offs).Pairwise fun r r' => r.1 + r.2 ≤ r'.1 := by
  induction l generalizing offs with
  | nil => exact List.Pairwise.nil
  | cons ta l ih =>
    refine List.Pairwise.cons (fun r hr => ?_) (ih (offs + 4 + countAt d offs))
    have h := le_encodings l (offs + 4 + countAt d offs) r hr
    show offs + (4 + countAt d offs) ≤ r.1
    omega

theorem countAt_lt (d : Nat → UInt8) (offs : Nat) : countAt d offs < 2 ^ 32 :=
  Fields.number_lt d offs

/-! ## the decoders -/

theorem wp_readData_iff {n : Nat} {Q : List UInt8 → Utc → Prop} :
    wp (readData d dataLen offs n) Q u ↔ offs + n ≤ dataLen ∧ Q (bytesAt d offs n) u := by
  rw [readData]
  by_cases h : dataLen < offs + n
  · rw [if_pos h, wp_throw]
    exact iff_of_false id fun hq => absurd hq.1 (by omega)
  · rw [if_neg h, wp_pure]
    exact (and_iff_right (by omega)).symm

theorem opU32FromBinaryHelper_exact (hlen : dataLen < 2 ^ 32) (ho : offs ≤ dataLen)
    {Q : Option (Nat × Nat) → Utc → Prop} :
    wp (opU32FromBinaryHelper (some d) dataLen offs) Q u ↔
      if offs + 4 ≤ dataLen then Q (some (countAt d offs, offs + 4)) u
      else offs + 4 < 2 ^ 32 ∧ Q none u := by
  rw [opU32FromBinaryHelper]
  by_cases hw : offs + 4 < 2 ^ 32
  · rw [Nat.mod_eq_of_lt hw]
    by_cases h4 : dataLen < offs + 4
    · rw [if_pos h4, if_neg (by omega), wp_pure]
      exact (and_iff_right hw).symm
    · rw [if_neg h4, if_pos (by omega), wp_bind, wp_readData_iff, wp_pure]
      exact and_iff_right (by omega)
  · -- the offset wraps around and passes the check
    have h4 : ¬ dataLen < (offs + 4) % 2 ^ 32 := by omega
    rw [if_neg h4, if_neg (by omega), wp_bind, wp_readData_iff]
    exact iff_of_false (fun h => absurd h.1 (by omega)) fun h => hw h.1

/-- the length `n` behind the number is inside the form, with the check of the source -/
theorem behind_iff {n : Nat} {P R : Prop} (hlen : dataLen < 2 ^ 32) (hn : n < 2 ^ 32)
    (ho : offs ≤ dataLen) (hP : P → offs + n ≤ dataLen) :
    (dataLen < (offs + n) % 2 ^ 32 → R) ∧ (¬ dataLen < (offs + n) % 2 ^ 32 → P) ↔
      if offs + n ≤ dataLen then P else offs + n < 2 ^ 32 ∧ R := by
  by_cases hw : offs + n < 2 ^ 32
  · rw [Nat.mod_eq_of_lt hw]
    by_cases h : dataLen < offs + n
    · rw [if_neg (by omega)]
      exact ⟨fun hr => ⟨hw, hr.1 h⟩, fun hr => ⟨fun _ => hr.2, fun hno => absurd h hno⟩⟩
    · rw [if_pos (by omega)]
      exact ⟨fun hr => hr.2 h, fun hp => ⟨fun hlt => absurd hlt h, fun _ => hp⟩⟩
  · have h : ¬ dataLen < (offs + n) % 2 ^ 32 := by omega
    rw [if_neg (by omega)]
    exact iff_of_false (fun hr => absurd (hP (hr.2 h)) (by omega)) fun hr => hw hr.1

theorem opAttrBignumFromBinary_exact {own own' bn v : Nat} {x : Attr} {m m' : Member}
    (hq : u.heap.blocks q = some (.attr own x)) (hm : x.get? m = some bn)
    (hb : u.heap.blocks bn = some (.bignum own' m' v)) (hlen : dataLen < 2 ^ 32)
    (ho : offs ≤ dataLen) {Q : Option Nat → Utc → Prop} :
    wp (opAttrBignumFromBinary p q m (some d) dataLen offs) Q u ↔
      if offs + 4 ≤ dataLen then
        if offs + 4 + countAt d offs ≤ dataLen then
          Q (if (p.bin2bn (bytesAt d (offs + 4) (countAt d offs)) v).1 then
              some (offs + 4 + countAt d offs) else none)
            (u.store bn (.bignum own' m' (p.bin2bn (bytesAt d (offs + 4) (countAt d offs)) v).2))
        else offs + 4 + countAt d offs < 2 ^ 32 ∧ Q none u
      else offs + 4 < 2 ^ 32 ∧ Q none u := by
  rw [opAttrBignumFromBinary, wp_bind, opU32FromBinaryHelper_exact hlen ho]
  by_cases h4 : offs + 4 ≤ dataLen
  · rw [if_pos h4, if_pos h4]
    show wp (if dataLen < (offs + 4 + countAt d offs) % 2 ^ 32 then _ else _) Q u ↔ _
    rw [wp_ite, wp_pure]
    simp only [wp_bind, wp_memberAt hq hm, wp_bignumAt hb, readCounted, wp_readData_iff,
      wp_setBignum hb]
    rw [behind_iff hlen (countAt_lt d offs) h4 fun h => h.1]
    by_cases hn : offs + 4 + countAt d offs ≤ dataLen
    · have hw : (offs + 4 + countAt d offs) % 2 ^ 32 = offs + 4 + countAt d offs :=
        Nat.mod_eq_of_lt (by omega)
      rw [if_pos hn, if_pos hn, and_iff_right hn, hw]
      rw [wp_ite, wp_pure, wp_pure]
      cases (p.bin2bn (bytesAt d (offs + 4) (countAt d offs)) v).1 <;> simp
    · rw [if_neg hn, if_neg hn]
  · rw [if_neg h4, if_neg h4]
    exact Iff.rfl

theorem opAttrSecretValueFromBinary_exact {own k n : Nat} {bytes : List UInt8}
    (hq : u.heap.blocks q = some (.attr own (.secret k n bytes))) (hl : bytes.length = n)
    (hlen : dataLen < 2 ^ 32) (ho : offs ≤ dataLen) {Q : Option Nat → Utc → Prop} :
    wp (opAttrSecretValueFromBinary q (some d) dataLen offs) Q u ↔
      if offs + 4 ≤ dataLen then
        if n < countAt d offs then Q none u
        else if offs + 4 + countAt d offs ≤ dataLen then
          Q (some (offs + 4 + countAt d offs)) (u.store q (.attr own (.secret (countAt d offs) n
            (bytesAt d (offs + 4) (countAt d offs) ++ bytes.drop (countAt d offs)))))
        else offs + 4 + countAt d offs < 2 ^ 32 ∧ Q none u
      else offs + 4 < 2 ^ 32 ∧ Q none u := by
  rw [opAttrSecretValueFromBinary, wp_bind, opU32FromBinaryHelper_exact hlen ho]
  by_cases h4 : offs + 4 ≤ dataLen
  · rw [if_pos h4, if_pos h4]
    show wp (if dataLen < (offs + 4 + countAt d offs) % 2 ^ 32 then _ else _) Q u ↔ _
    rw [wp_ite, wp_pure, wp_bind, wp_blockAt hq]
    by_cases hs : n < countAt d offs
    · -- a number above the room of the key is refused, whether the sum wraps around or not
      rw [if_pos hs]
      dsimp only
      rw [if_pos hs, wp_pure]
      exact ⟨fun h => (Decidable.em _).elim h.1 h.2, fun h => ⟨fun _ => h, fun _ => h⟩⟩
    · rw [if_neg hs]
      dsimp only
      rw [if_neg hs]
      have hb : ¬ bytes.length < countAt d offs := by omega
      simp only [wp_bind, readCounted, wp_readData_iff, if_neg hb, wp_storeAt, wp_pure]
      rw [behind_iff hlen (countAt_lt d offs) h4 fun h => h.1]
      by_cases hin : offs + 4 + countAt d offs ≤ dataLen
      · have hw : (offs + 4 + countAt d offs) % 2 ^ 32 = offs + 4 + countAt d offs :=
          Nat.mod_eq_of_lt (by omega)
        rw [if_pos hin, if_pos hin, and_iff_right hin, hw]
      · rw [if_neg hin, if_neg hin]
  · rw [if_neg h4, if_neg h4]
    exact Iff.rfl

/-! ## the table -/

/-- the attribute is the bignum `v` of the block `x` -/
def NumberAt (u : Utc) (own : Nat) (x : Attr) (ta : TypeAttr) (v : Nat) : Prop :=
  ta.opsIndex = .bignum ∧ ∃ bn, x.get? ta.raw = some bn ∧
    u.heap.blocks bn = some (.bignum own ta.raw v)

/-- the other members of the block keep their bignums -/
theorem NumberAt.store {own bn v v' w : Nat} {x : Attr} {ta : TypeAttr} {m : Member}
    (h : NumberAt u own x ta v) (hb : u.heap.blocks bn = some (.bignum own m v'))
    (hm : ta.raw ≠ m) : NumberAt (u.store bn (.bignum own m w)) own x ta v := by
  obtain ⟨hops, bn', hg, hv⟩ := h
  have hne : bn' ≠ bn := by
    intro e
    rw [e, hb] at hv
    cases hv
    exact hm rfl
  refine ⟨hops, bn', hg, ?_⟩
  rw [Utc.store_blocks, if_neg hne]
  exact hv

/-- a table whose numbers are followed by a value is never decoded to its end -/
theorem attrsFromBinary_stopped {own : Nat} {x : Attr} {ta : TypeAttr} {l : List TypeAttr}
    {vs : List Nat} {Q : Nat → Utc → Prop} (hq : u.heap.blocks q = some (.attr own x))
    (hl : List.Forall₂ (NumberAt u own x) l vs) (hnd : (l.map TypeAttr.raw).Nodup)
    (hta : ta.opsIndex = .value) (hlen : dataLen < 2 ^ 32) (ho : offs ≤ dataLen)
    (hQ : ∀ t, Q teeErrorCorruptObject t) :
    wp (attrsFromBinary p q (some d) dataLen (l ++ [ta]) offs) Q u ↔
      Stopped p d dataLen vs offs := by
  induction l generalizing u vs offs with
  | nil =>
    cases hl
    show wp (attrFromBinary p q ta (some d) dataLen offs >>= _) Q u ↔ _
    rw [wp_bind, attrFromBinary, hta]
    exact Iff.rfl
  | cons tb l ih =>
    obtain ⟨v, vs, ⟨hops, bn, hg, hv⟩, htl, rfl⟩ := List.forall₂_cons_left_iff.mp hl
    obtain ⟨hnot, hnd⟩ := List.nodup_cons.mp hnd
    show wp (attrFromBinary p q tb (some d) dataLen offs >>= _) Q u ↔ _
    rw [wp_bind, attrFromBinary, hops]
    show wp (opAttrBignumFromBinary p q tb.raw (some d) dataLen offs) _ u ↔ _
    rw [opAttrBignumFromBinary_exact hq hg hv hlen ho, Stopped]
    by_cases h4 : offs + 4 ≤ dataLen
    · rw [if_pos h4, if_pos h4]
      by_cases hn : offs + 4 + countAt d offs ≤ dataLen
      · rw [if_pos hn, if_pos hn]
        by_cases hr : (p.bin2bn (bytesAt d (offs + 4) (countAt d offs)) v).1 = true
        · -- the rest of the table does not see the bignum that was written
          have hne : q ≠ bn := by
            intro e
            rw [← e, hq] at hv
            cases hv
          have hraw : ∀ tc ∈ l, tc.raw ≠ tb.raw :=
            fun tc htc e => hnot (List.mem_map.mpr ⟨tc, htc, e⟩)
          have hrest := List.Forall₂.imp (fun tc w (h : tc.raw ≠ tb.raw ∧ NumberAt u own x tc w) =>
            h.2.store (w := (p.bin2bn (bytesAt d (offs + 4) (countAt d offs)) v).2) hv h.1)
            ((List.forall₂_and_left l vs).mpr ⟨hraw, htl⟩)
          rw [if_pos hr, or_iff_right (by rw [hr]; exact Bool.noConfusion)]
          exact ih (by rw [Utc.store_blocks, if_neg hne]; exact hq) hrest hnd hn
        · rw [if_neg hr, Bool.eq_false_iff.mpr hr]
          exact iff_of_true (hQ _) (Or.inl rfl)
      · rw [if_neg hn, if_neg hn]
        exact and_iff_left (hQ u)
    · rw [if_neg h4, if_neg h4]
      exact and_iff_left (hQ u)

theorem number_eq {own bn v : Nat} {m : Member}
    (h : u.heap.blocks bn = some (.bignum own m v)) : u.number bn = v := by
  rw [Utc.number, h]

theorem NumberAt.of_isBignum {own bn : Nat} {x : Attr} {ta : TypeAttr}
    (hops : ta.opsIndex = .bignum) (hg : x.get? ta.raw = some bn)
    (h : IsBignum u.heap.blocks own ta.raw bn) : NumberAt u own x ta (u.number bn) := by
  obtain ⟨v, hv⟩ := h
  exact ⟨hops, bn, hg, by rw [number_eq hv]; exact hv⟩

/-- the secret of a key is decoded safely -/
theorem attrsFromBinary_secret {own k n : Nat} {bytes : List UInt8}
    {data : Option (Nat → UInt8)} {Q : Nat → Utc → Prop}
    (hq : u.heap.blocks q = some (.attr own (.secret k n bytes))) (hl : bytes.length = n)
    (hn : n < 2 ^ 31) (hlen : dataLen < 2 ^ 32) (hbad : ∀ t, Q teeErrorCorruptObject t)
    (hgood : ∀ d t, data = some d → InPlace d dataLen teeCrypObjSecretValueAttrs →
      Q teeSuccess t) :
    wp (attrsFromBinary p q data dataLen teeCrypObjSecretValueAttrs 0) Q u := by
  show wp (opAttrSecretValueFromBinary q data dataLen 0 >>= _) Q u
  rw [wp_bind]
  cases data with
  | none => exact hbad u
  | some d =>
    rw [opAttrSecretValueFromBinary_exact hq hl hlen (Nat.zero_le dataLen)]
    by_cases h4 : 0 + 4 ≤ dataLen
    · rw [if_pos h4]
      by_cases hs : n < countAt d 0
      · rw [if_pos hs]
        exact hbad u
      · rw [if_neg hs]
        by_cases hin : 0 + 4 + countAt d 0 ≤ dataLen
        · rw [if_pos hin]
          refine hgood d _ rfl ⟨fun r hr => ?_, encodings_disjoint _ _⟩
          obtain rfl := List.mem_singleton.mp hr
          show 0 + (4 + countAt d 0) ≤ dataLen
          omega
        · rw [if_neg hin]
          exact ⟨by omega, hbad u⟩
    · rw [if_neg h4]
      exact ⟨by omega, hbad u⟩

/-- the key pair is safe exactly when the decoder stops before the curve -/
theorem attrsFromBinary_keypair {own e f g c : Nat} {tp : TypeProps}
    {data : Option (Nat → UInt8)} {Q : Nat → Utc → Prop}
    (hq : u.heap.blocks q = some (.attr own (.ecc e f g c)))
    (hx : AttrOk u.heap.blocks own tp (.ecc e f g c)) (hlen : dataLen < 2 ^ 32)
    (hbad : ∀ t, Q teeErrorCorruptObject t) :
    wp (attrsFromBinary p q data dataLen teeCrypObjEccKeypairAttrs 0) Q u ↔
      ∀ d, data = some d → Stopped p d dataLen (u.numbers q) 0 := by
  obtain ⟨-, he, hf, hg⟩ := hx
  cases data with
  | none =>
    refine iff_of_true ?_ fun d hd => ?_
    · exact hbad u
    · cases hd
  | some d =>
    have hnum : u.numbers q = [u.number e, u.number f, u.number g] := by
      rw [Utc.numbers, hq]
    have hl : List.Forall₂ (NumberAt u own (.ecc e f g c)) (teeCrypObjEccKeypairAttrs.take 3)
        (u.numbers q) := by
      rw [hnum]
      exact .cons (.of_isBignum rfl rfl he) (.cons (.of_isBignum rfl rfl hf)
        (.cons (.of_isBignum rfl rfl hg) .nil))
    have hstop : wp (attrsFromBinary p q (some d) dataLen (teeCrypObjEccKeypairAttrs.take 3 ++
        [⟨teeAttrEccCurve, teeTypeAttrRequired, .value, .curve⟩]) 0) Q u ↔
        Stopped p d dataLen (u.numbers q) 0 :=
      attrsFromBinary_stopped hq hl (by decide) rfl hlen (Nat.zero_le dataLen) hbad
    refine hstop.trans ⟨fun h d' hd => ?_, fun h => h d rfl⟩
    cases hd
    exact h

/-- one ECC key pair more -/
def Utc.withKeypair (u : Utc) : Utc :=
  match uteeCrypObjAlloc teeTypeEcdsaKeypair 256 u with
  | .ok (_, t) => t
  | .error _ => u

theorem withKeypair_core (hc : Core p u) : Core p u.withKeypair := by
  have hspec := @uteeCrypObjAlloc_spec p _ hc teeTypeEcdsaKeypair 256
  obtain ⟨r, t, e, hr⟩ := wp_iff.mp hspec
  rw [Utc.withKeypair, e]
  obtain ⟨-, hu⟩ | ⟨-, x, -, ha, -⟩ := hr
  · exact hu.core
  · exact ha.core

/-- an ECC key pair at `0x1000` -/
def keypairState : Utc := (Utc.empty sampleAnswers).withKeypair

theorem keypairState_core (p : Provider) : Core p keypairState :=
  withKeypair_core (Core.empty sampleAnswers)

def keypairObj : TeeObj :=
  ⟨⟨teeTypeEcdsaKeypair, 0, 256, teeUsageDefault, 0⟩, false, 0, 0x1001⟩

theorem keypairState_obj : keypairState.obj 0x1000 = some keypairObj := by decide

/-- four bytes that claim `2 ^ 32 - 4` more -/
def hugeForm (i : Nat) : UInt8 := if i = 3 then 0xfc else 0xff

end

end MTower.Cryp
