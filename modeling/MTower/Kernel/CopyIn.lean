import MTower.Kernel.Dispatch

/-!
# What an invoke decodes

A message has `num_params` parameters, any number of them, and its attribute words are arbitrary.
`copy_in_params` fills `pt[n]` for the slots that are there and packs all four into the types word.

* `copyOutParam_frame`  `copy_out_param` writes the output fields of the slots that are there;
* `Decoded`             a `tee_ta_param` that is the message, slot by slot;
* `decoded_four`        it is, when there are four parameters;
* `decodesWell_iff`     when decoding does not depend on what the stack held.
-/

set_option linter.unusedVariables false

namespace MTower.Kernel
open Lib

/-! ## the way back -/

/-- word `i` of a message is an output field of one of its parameters -/
def ReplyWord (w : Words) (i : Nat) : Prop :=
  ∃ n < w msgNumParamsWord,
    (i = msgParamsWord + 4 * n + 1 ∧ OutValue ((typeOfAttr (msgParams w n).attr).getD 0)) ∨
    (i = msgParamsWord + 4 * n + 2 ∧ (OutValue ((typeOfAttr (msgParams w n).attr).getD 0) ∨
      OutMemref ((typeOfAttr (msgParams w n).attr).getD 0)))

/-- a word that one iteration changes is an output field of its slot -/
theorem copyOutStep_changes (q : TeeTaParam) (savedAttr : Nat → Nat) (base : Nat) {w : Words}
    {n i : Nat} (h : copyOutStep q savedAttr base w n i ≠ w i) :
    (i = base + 4 * n + 1 ∧ OutValue (teeParamTypeGet q.types n)) ∨
      (i = base + 4 * n + 2 ∧
        (OutValue (teeParamTypeGet q.types n) ∨ OutMemref (teeParamTypeGet q.types n))) := by
  unfold copyOutStep at h
  split at h
  · rename_i hm
    split at h
    · by_cases hi : i = base + 4 * n + 2
      · exact Or.inr ⟨hi, Or.inr hm⟩
      · exact absurd (Function.update_of_ne hi _ _) h
    · exact absurd rfl h
  · split at h
    · rename_i hv
      by_cases hi : i = base + 4 * n + 2
      · exact Or.inr ⟨hi, Or.inl hv⟩
      · rw [Function.update_of_ne hi] at h
        by_cases hj : i = base + 4 * n + 1
        · exact Or.inl ⟨hj, hv⟩
        · exact absurd (Function.update_of_ne hj _ _) h
    · exact absurd rfl h

/-- **`copy_out_param` writes output fields only.** -/
theorem copyOutParam_frame {w : Words} {q : TeeTaParam} {savedAttr : Nat → Nat}
    (hq : ∀ n < w msgNumParamsWord,
      teeParamTypeGet q.types n = (typeOfAttr (msgParams w n).attr).getD 0) {i : Nat}
    (h : copyOutParam q (w msgNumParamsWord) savedAttr msgParamsWord w i ≠ w i) :
    ReplyWord w i := by
  by_contra hnot
  apply h
  refine foldl_range_inv (fun _ (x : Words) => x i = w i) ?_ rfl
  intro n x hn hx
  by_contra hne
  rw [← hx] at hne
  have hc := copyOutStep_changes q savedAttr msgParamsWord hne
  rw [hq n hn] at hc
  exact hnot ⟨n, hn, hc⟩

/-! ## the way in -/

section
variable (params : Nat → MsgParam) (k : Nat)

/-- the type of slot `n` of a message with `k` parameters -/
def sentType (n : Nat) : Nat := if n < k then (typeOfAttr (params n).attr).getD 0 else paramTypeNone

/-- the `tee_ta_param` is the message: its types word, its slots, and nothing behind them -/
structure Decoded (p : TeeTaParam) : Prop where
  types : p.types = teeParamTypes (sentType params k 0) (sentType params k 1)
    (sentType params k 2) (sentType params k 3)
  slots : ∀ n < k, p.u n = slotOfMsg (params n)
  unused : ∀ n, k ≤ n → n < 4 → p.u n = .zero

theorem sentType_lt (n : Nat) : sentType params k n < 16 := by
  unfold sentType
  split
  · exact typeOfAttr_lt _
  · decide

variable {params k}

theorem Decoded.type {p : TeeTaParam} (h : Decoded params k p) {n : Nat} (hn : n < 4) :
    teeParamTypeGet p.types n = sentType params k n := by
  rw [h.types]
  exact teeParamTypeGet_teeParamTypes (fun m _ => sentType_lt params k m) hn

end

/-- the `tee_ta_param` that `copy_in_params` makes with `junk` on the stack -/
def copiedIn (junk : Nat → Nat) (params : Nat → MsgParam) (k : Nat) : TeeTaParam :=
  ⟨teeParamTypes (typesIn junk params k 0) (typesIn junk params k 1) (typesIn junk params k 2)
    (typesIn junk params k 3), slotsIn params k⟩

theorem copyInParams_decodes (junk : Nat → Nat) {params : Nat → MsgParam} {k : Nat}
    (h : Decodes params k) :
    copyInParams junk params k = .ok (copiedIn junk params k, attrsIn params k) := by
  rw [copyInParams_eq, if_pos h]
  rfl

/-- **Four parameters leave nothing to the stack.** -/
theorem decoded_four (junk : Nat → Nat) (params : Nat → MsgParam) :
    Decoded params 4 (copiedIn junk params 4) := by
  have ht : ∀ n < 4, typesIn junk params 4 n = sentType params 4 n := by
    intro n hn
    rw [typesIn, filled_lt _ _ hn, sentType, if_pos hn]
  constructor
  · show teeParamTypes _ _ _ _ = _
    rw [ht 0 (by decide), ht 1 (by decide), ht 2 (by decide), ht 3 (by decide)]
  · intro n hn
    show slotsIn params 4 n = _
    exact filled_lt _ _ hn
  · intro n h4 hn
    exact absurd hn (Nat.not_lt.mpr h4)

/-- Fewer parameters take the type of the next slot from the stack. -/
theorem not_decoded_few {params : Nat → MsgParam} {k : Nat} (hk : k < 4) :
    ¬ Decoded params k (copiedIn (fun _ => paramTypeValueInput) params k) := by
  intro h
  have hlt : ∀ m ≤ k, typesIn (fun _ => paramTypeValueInput) params k m < 16 := by
    intro m _
    unfold typesIn filled
    dsimp only
    split
    · exact typeOfAttr_lt _
    · decide
  have hget : teeParamTypeGet (copiedIn (fun _ => paramTypeValueInput) params k).types k
      = typesIn (fun _ => paramTypeValueInput) params k k := teeParamTypeGet_teeParamTypes hlt hk
  rw [h.type hk, sentType, if_neg (lt_irrefl k), typesIn, filled_ge _ _ (le_refl k)] at hget
  cases hget

/-! ## every message -/

section
variable {τ : Type}

/-- Whatever the stack held, either the message is rejected and no TA is entered, or the
`tee_ta_param` is the message and the reply changes output fields only. -/
def DecodesWell (tas : Tas τ) (k : State τ) (w : Words) : Prop :=
  ∀ junk : τ → Nat → Nat, (∀ x n, junk x n < 256) →
    (copyInParams (junk k.world) (msgParams w) (w msgNumParamsWord)
        = .error teeErrorBadParameters ∧
      wp (teeIoctlInvoke { tas with ptJunk := junk } w) (fun r t =>
        r.1 = teeErrorBadParameters ∧ t.calls = k.calls ∧ t.entered = k.entered) k) ∨
    ∃ p savedAttr, copyInParams (junk k.world) (msgParams w) (w msgNumParamsWord)
        = .ok (p, savedAttr) ∧
      Decoded (msgParams w) (w msgNumParamsWord) p ∧
      ∀ q : TeeTaParam, q.types = p.types → ∀ i,
        copyOutParam q (w msgNumParamsWord) savedAttr msgParamsWord w i ≠ w i → ReplyWord w i

/-- **When decoding is well defined**: when the message is rejected, or has all four parameters. -/
theorem decodesWell_iff (tas : Tas τ) (k : State τ) (hk : Reached tas k) (w : Words) :
    DecodesWell tas k w ↔ ¬ MsgDecodes w ∨ w msgNumParamsWord = 4 := by
  constructor
  · intro h
    by_contra hn
    push Not at hn
    obtain ⟨hd, h4⟩ := hn
    have hlt : w msgNumParamsWord < 4 := lt_of_le_of_ne hd.1 h4
    have hin := copyInParams_decodes (fun _ => paramTypeValueInput) hd
    rcases h (fun _ _ => paramTypeValueInput) (fun _ _ => by decide) with ⟨he, -⟩ | ⟨p, a, e, hp, -⟩
    · rw [hin] at he
      cases he
    · rw [hin] at e
      cases e
      exact not_decoded_few hlt hp
  · intro h junk _
    by_cases hd : MsgDecodes w
    · right
      have h4 := h.resolve_left fun hnd => hnd hd
      have hdec : Decoded (msgParams w) (w msgNumParamsWord)
          (copiedIn (junk k.world) (msgParams w) (w msgNumParamsWord)) := by
        rw [h4]
        exact decoded_four _ _
      refine ⟨_, _, copyInParams_decodes _ hd, hdec, ?_⟩
      intro q hq i hi
      refine copyOutParam_frame ?_ hi
      intro n hn
      rw [hq, hdec.type (by omega), sentType, if_pos hn]
    · left
      have hnd : ¬ Decodes (msgParams w) (w msgNumParamsWord) := hd
      refine ⟨?_, ?_⟩
      · rw [copyInParams_eq, if_neg hnd]
      · rw [invoke_rejected _ hk.table.linked hd]
        exact ⟨rfl, rfl, rfl⟩

/-- a message with four parameters for an open session -/
theorem decodesWell_iff_four : DecodesWell (sampleTas teeSuccess) sampleOpened
    (Function.update (Function.update (fun _ => 0) msgSessionWord 0x20000000) msgNumParamsWord 4) :=
  (decodesWell_iff (sampleTas teeSuccess) sampleOpened
    ⟨sampleAnswers, (), [⟨iocOpenSession, fun _ => 0⟩], rfl⟩ _).mpr (Or.inr rfl)

/-- no parameters for an open session: the types word is four bytes of the stack -/
theorem decodesWell_fails : ¬ ∀ (tas : Tas Unit) (k : State Unit), Reached tas k →
    ∀ w, DecodesWell tas k w := by
  intro h
  have hw := h (sampleTas teeSuccess) sampleOpened
    ⟨sampleAnswers, (), [⟨iocOpenSession, fun _ => 0⟩], rfl⟩
    (Function.update (fun _ => 0) msgSessionWord 0x20000000)
  have hd : MsgDecodes (Function.update (fun _ => 0) msgSessionWord 0x20000000) := by decide
  rcases hw (fun _ _ => paramTypeValueInput) (fun _ _ => by decide) with ⟨he, -⟩ | ⟨p, a, e, hp, -⟩
  · rw [copyInParams_decodes _ hd] at he
    cases he
  · rw [copyInParams_decodes _ hd] at e
    cases e
    exact not_decoded_few (by decide) hp

end

end MTower.Kernel
