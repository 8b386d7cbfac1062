import MTower.Oper.Registry

/-!
# Handles that are not registered

* `Act`, `act`          one call of a Trusted Application, on handles or on objects and states;
* `Refuses`             a call ends in `TEE_Panic` or gives an error, and changes nothing;
* `Entry.Checked`       the calls that look at the registry, or at another argument, before they
                        use the handle;
* `refused_iff`         in every reached state exactly these refuse a handle without registration.

A handle without registration has no handle block, so reading or writing a field of it is a fault.
-/

set_option linter.unusedVariables false

namespace MTower.Oper
open Lib Kernel Cryp

variable {c : Crypto} {s t : Sys} {h : Nat}

/-! ## runs -/

def Sys.start (u : Utc) (answers : Nat → Nat) : Sys := ⟨u, Heap.empty answers, [], []⟩

/-- a call on handles, or a system call on objects and states -/
inductive Act where
  | api (e : Entry)
  | system (x : Call)

def act (c : Crypto) : Act → O Nat
  | .api e => entry c e
  | .system x => Prod.fst <$> sys (call c.provider x)

theorem start_wellFormed (u : Utc) (answers : Nat → Nat) : WellFormed (Sys.start u answers) where
  null := rfl
  elem := by
    intro e he
    cases he
  nodup := List.nodup_nil
  registered := by
    intro a b hb
    cases hb
  buffer := by
    intro a b hb
    cases hb
  own := by
    intro a a' b hb
    cases hb

theorem act_wellFormed (hw : WellFormed s) (a : Act) :
    wlp (act c a) (fun _ t => WellFormed t) s := by
  cases a with
  | api e => exact entry_wellFormed hw e
  | system x => exact Maintains.map Prod.fst (keeps_sys (call c.provider x)) s hw

/-! ## the calls that look first -/

/-- the handles a call is given -/
def Entry.handles : Entry → List Nat
  | .allocateOperation _ _ _ _ => []
  | .freeOperation h => [h]
  | .getOperationInfo h _ => [h]
  | .getOperationInfoMultiple h _ _ => [h]
  | .resetOperation h => [h]
  | .setOperationKey h _ => [h]
  | .setOperationKey2 h _ _ => [h]
  | .copyOperation d s => [d, s]
  | .digestUpdate h _ _ => [h]
  | .digestDoFinal h _ _ _ _ => [h]
  | .cipherInit h _ _ => [h]
  | .cipherUpdate h _ _ _ _ => [h]
  | .cipherDoFinal h _ _ _ _ => [h]
  | .macInit h => [h]
  | .macUpdate h _ _ => [h]
  | .macComputeFinal h _ _ _ _ => [h]
  | .macCompareFinal h _ _ _ _ => [h]
  | .aeInit h _ _ _ => [h]
  | .aeUpdateAad h _ _ => [h]
  | .aeUpdate h _ _ _ _ => [h]

/-- a pointer that is `NULL` although it should lead to `n` bytes -/
def Ptr.Missing (p : Ptr) (n : Nat) : Prop := p = none ∧ n ≠ 0

/-- an output whose length is not given, or is not zero although the pointer is `NULL` -/
def MissingOutput (dest : Bool) (destLen : Option Nat) : Prop :=
  ∀ dl, destLen = some dl → dest = false ∧ dl ≠ 0

/-- a chunk that is too long -/
def LongChunk (maxChunk srcLen : Nat) (destLen : Option Nat) : Prop :=
  ∀ dl, destLen = some dl → maxChunk < srcLen ∨ maxChunk < dl

/-- no field of a handle is used before the handle or another argument is refused -/
def Entry.Checked (maxChunk : Nat) : Entry → Prop
  | .getOperationInfo h info => h = 0 ∨ info = false
  | .copyOperation d s => d = 0 ∨ s = 0
  | .cipherUpdate h src n dest dl =>
    h = 0 ∨ src.Missing n ∨ MissingOutput dest dl ∨ LongChunk maxChunk n dl
  | .cipherDoFinal h src n dest dl => h = 0 ∨ src.Missing n ∨ MissingOutput dest dl
  | .macCompareFinal h _ _ _ _ => h = 0
  | .aeInit h nonce _ _ => h = 0 ∨ nonce = none
  | .aeUpdateAad h aad n => h = 0 ∨ aad.Missing n
  | _ => True

/-- some handle of the call is not registered -/
def Entry.Forged (e : Entry) (s : Sys) : Prop := ∃ h ∈ e.handles, ¬ Registered s h

/-- `TEE_Panic`, or an error that leaves the state -/
def Refuses (x : O Nat) (s : Sys) : Prop :=
  (∃ code, x s = .error (.panic code)) ∨ ∃ res, res ≠ teeSuccess ∧ x s = .ok (res, s)

/-! ## refusals and faults -/

theorem refuses_panic {x : O Nat} {n : Nat} (h : x s = .error (.panic n)) : Refuses x s :=
  .inl ⟨n, h⟩

theorem not_refuses_fault {x : O Nat} {f : Cryp.Fault} (h : x s = .error (.fault f)) :
    ¬ Refuses x s := by
  rintro (⟨code, hc⟩ | ⟨res, -, hr⟩)
  · rw [h] at hc
    cases hc
  · rw [h] at hr
    cases hr

theorem map_error {α β : Type} {f : α → β} {x : O α} {e : Stop} (h : x s = .error e) :
    (f <$> x) s = .error e := by
  show (x s >>= fun p => pure (f p.1, p.2)) = _
  rw [h]
  rfl

theorem leave_panic {ok : List Nat} {res : Nat} (h : res ∉ ok) :
    leave ok res s = .error (.panic res) := by
  unfold leave
  rw [if_neg h]
  rfl

/-- an `out` label that does not return `TEE_ERROR_BAD_PARAMETERS` -/
theorem refuses_leave {β : Type} {x : O (Nat × β)} {ok : List Nat} {b : β}
    (hok : teeErrorBadParameters ∉ ok) (hx : x s = .ok ((teeErrorBadParameters, b), t)) :
    Refuses (Prod.fst <$> (x >>= fun r => leave ok r.1 >>= fun res => pure (res, r.2))) s := by
  refine refuses_panic (n := teeErrorBadParameters) (map_error ?_)
  rw [bind_of_ok hx]
  exact bind_of_error (leave_panic hok)

theorem fault_leave {β : Type} {x : O (Nat × β)} {ok : List Nat}
    (hx : ∃ y, x s = .error (.fault y)) :
    ¬ Refuses (Prod.fst <$> (x >>= fun r => leave ok r.1 >>= fun res => pure (res, r.2))) s := by
  obtain ⟨y, hy⟩ := hx
  exact not_refuses_fault (map_error (bind_of_error hy))

/-- the check fails for a handle that is not registered -/
theorem unknown_true (hw : WellFormed s) (hn : ¬ Registered s h) :
    unknown h s = .ok (true, s) := by
  by_cases h0 : h = 0
  · unfold unknown
    rw [if_pos h0]
    rfl
  · obtain ⟨b, hb, hbt⟩ := unknown_eq hw h0
    rw [hbt.mpr hn] at hb
    exact hb

/-- reading an address without a handle is a fault -/
theorem opAt_fault {a : Nat} (hop : ∀ o, s.heap.blocks a ≠ some (.op o)) :
    ∃ f, opAt a s = .error (.fault f) := by
  cases hb : s.heap.blocks a with
  | none =>
    have hf : blockAt a s = .error (.fault (faultAt a)) := by
      unfold blockAt
      rw [bind_of_ok get_eq, hb]
      rfl
    exact ⟨_, bind_of_error hf⟩
  | some b =>
    refine ⟨.danglingPointer, ?_⟩
    unfold opAt
    rw [bind_of_ok (blockAt_eq hb)]
    cases b with
    | op o => exact absurd hb (hop o)
    | elem addr => rfl
    | buffer d => rfl

/-- a handle that is not registered has no block -/
theorem WellFormed.not_op (hw : WellFormed s) (hn : ¬ Registered s h) (o : Operation) :
    s.heap.blocks h ≠ some (.op o) :=
  fun ho => hn (hw.registered h o.buffer (frame_op.mpr ⟨o, ho, rfl⟩))

section
variable (hw : WellFormed s) (hn : ¬ Registered s h)
include hw hn

/-- an entry point that panics at once -/
theorem panic_unknown {α : Type} {f : Bool → O α} {code : Nat} (hf : f true = teePanic code) :
    (unknown h >>= f) s = .error (.panic code) := by
  rw [bind_of_ok (unknown_true hw hn), hf]
  rfl

/-- an entry point that panics at its `out` label -/
theorem leave_unknown {α β : Type} {f : Bool → O α} {g : α → O β} {a : α} {code : Nat}
    (hf : f true = pure a) (hg : ∀ s, g a s = .error (.panic code)) :
    (unknown h >>= f >>= g) s = .error (.panic code) := by
  have h1 : (unknown h >>= f) s = .ok (a, s) := by
    rw [bind_of_ok (unknown_true hw hn), hf]
    rfl
  rw [bind_of_ok h1]
  exact hg s

end

/-! ## the calls that do not look at the registry -/

section
variable (hw : WellFormed s) (hn : ¬ Registered s h)
include hw hn

/-- a call that reads the handle next does not refuse it -/
theorem opAt_bind_fault {α : Type} {f : Operation → O α} :
    ∃ y, (opAt h >>= f) s = .error (.fault y) := by
  obtain ⟨y, hy⟩ := opAt_fault (hw.not_op hn)
  exact ⟨y, bind_of_error hy⟩

theorem getOperationInfo_forged {i : Bool} :
    Refuses ((fun _ => teeSuccess) <$> teeGetOperationInfo h i) s ↔ h = 0 ∨ i = false := by
  unfold teeGetOperationInfo
  by_cases h0 : h = 0
  · rw [if_pos h0]
    exact iff_of_true (refuses_panic (n := 0) (map_error rfl)) (.inl h0)
  · rw [if_neg h0]
    by_cases hi : i = false
    · rw [if_pos hi]
      exact iff_of_true (refuses_panic (n := 0) (map_error rfl)) (.inr hi)
    · rw [if_neg hi]
      refine iff_of_false ?_ (by simp [h0, hi])
      obtain ⟨y, hy⟩ := opAt_bind_fault hw hn (f := fun o => pure o.info)
      exact not_refuses_fault (map_error hy)

theorem cipherUpdate_forged {src : Ptr} {n : Nat} {dest : Bool} {dl : Option Nat} :
    Refuses (Prod.fst <$> teeCipherUpdate c h src n dest dl) s ↔
      h = 0 ∨ src.Missing n ∨ MissingOutput dest dl ∨ LongChunk c.maxChunk n dl := by
  have hbad : ∀ l, cipherUpdate c h src n dest dl s = .ok ((teeErrorBadParameters, l), s) →
      Refuses (Prod.fst <$> teeCipherUpdate c h src n dest dl) s :=
    fun l hl => refuses_leave (by decide) hl
  by_cases h1 : h = 0 ∨ (src = none ∧ n ≠ 0)
  · refine iff_of_true (hbad 0 ?_) ?_
    · unfold cipherUpdate
      rw [if_pos h1]
      rfl
    · exact h1.imp id .inl
  · cases dl with
    | none =>
      refine iff_of_true (hbad 0 ?_) (.inr (.inr (.inl (by intro l hl; cases hl))))
      unfold cipherUpdate
      rw [if_neg h1]
      rfl
    | some l =>
      by_cases h2 : (dest = false ∧ l ≠ 0) ∨ c.maxChunk < n ∨ c.maxChunk < l
      · refine iff_of_true (hbad l ?_) ?_
        · unfold cipherUpdate
          rw [if_neg h1]
          show (if (dest = false ∧ l ≠ 0) ∨ c.maxChunk < n ∨ c.maxChunk < l then
            pure (teeErrorBadParameters, l) else _ : O (Nat × Nat)) s = _
          rw [if_pos h2]
          rfl
        · refine .inr (.inr (h2.imp ?_ ?_))
          · rintro h3 l' hl
            cases hl
            exact h3
          · rintro h3 l' hl
            cases hl
            exact h3
      · refine iff_of_false ?_ ?_
        · refine fault_leave ?_
          unfold cipherUpdate
          rw [if_neg h1]
          show ∃ y, (if (dest = false ∧ l ≠ 0) ∨ c.maxChunk < n ∨ c.maxChunk < l then
            pure (teeErrorBadParameters, l) else _ : O (Nat × Nat)) s = .error (.fault y)
          rw [if_neg h2]
          exact opAt_bind_fault hw hn
        · rintro (h3 | h3 | h3 | h3)
          · exact h1 (.inl h3)
          · exact h1 (.inr h3)
          · exact h2 (.inl (h3 l rfl))
          · exact h2 (.inr (h3 l rfl))

theorem cipherDoFinal_forged {src : Ptr} {n : Nat} {dest : Bool} {dl : Option Nat} :
    Refuses (Prod.fst <$> teeCipherDoFinal c h src n dest dl) s ↔
      h = 0 ∨ src.Missing n ∨ MissingOutput dest dl := by
  have hbad : ∀ l, cipherDoFinal c h src n dest dl s = .ok ((teeErrorBadParameters, l), s) →
      Refuses (Prod.fst <$> teeCipherDoFinal c h src n dest dl) s :=
    fun l hl => refuses_leave (by decide) hl
  by_cases h1 : h = 0 ∨ (src = none ∧ n ≠ 0)
  · refine iff_of_true (hbad 0 ?_) ?_
    · unfold cipherDoFinal
      rw [if_pos h1]
      rfl
    · exact h1.imp id .inl
  · cases dl with
    | none =>
      refine iff_of_true (hbad 0 ?_) (.inr (.inr (by intro l hl; cases hl)))
      unfold cipherDoFinal
      rw [if_neg h1]
      rfl
    | some l =>
      by_cases h2 : dest = false ∧ l ≠ 0
      · refine iff_of_true (hbad l ?_) ?_
        · unfold cipherDoFinal
          rw [if_neg h1]
          show (if dest = false ∧ l ≠ 0 then
            pure (teeErrorBadParameters, l) else _ : O (Nat × Nat)) s = _
          rw [if_pos h2]
          rfl
        · refine .inr (.inr ?_)
          rintro l' hl
          cases hl
          exact h2
      · refine iff_of_false ?_ ?_
        · refine fault_leave ?_
          unfold cipherDoFinal
          rw [if_neg h1]
          show ∃ y, (if dest = false ∧ l ≠ 0 then
            pure (teeErrorBadParameters, l) else _ : O (Nat × Nat)) s = .error (.fault y)
          rw [if_neg h2]
          exact opAt_bind_fault hw hn
        · rintro (h3 | h3 | h3)
          · exact h1 (.inl h3)
          · exact h1 (.inr h3)
          · exact h2 (h3 l rfl)

theorem macCompareFinal_forged {p : Ptr} {n : Nat} {m : Ptr} {l : Nat} :
    Refuses (teeMacCompareFinal c h p n m l) s ↔ h = 0 := by
  unfold teeMacCompareFinal macCompareFinal
  by_cases h0 : h = 0
  · rw [if_pos h0]
    have hp : teeErrorBadParameters ∉ [teeSuccess, teeErrorMacInvalid] := by decide
    exact iff_of_true (refuses_panic (leave_panic (s := s) hp)) h0
  · rw [if_neg h0]
    refine iff_of_false ?_ h0
    obtain ⟨y, hy⟩ := opAt_fault (hw.not_op hn)
    exact not_refuses_fault (bind_of_error (bind_of_error hy))

theorem aeInit_forged {nonce : Ptr} {n k : Nat} :
    Refuses (teeAeInit c h nonce n k) s ↔ h = 0 ∨ nonce = none := by
  unfold teeAeInit aeInit
  by_cases h0 : h = 0 ∨ nonce = none
  · rw [if_pos h0]
    have hp : teeErrorBadParameters ∉ [teeSuccess, teeErrorNotSupported] := by decide
    exact iff_of_true (refuses_panic (leave_panic (s := s) hp)) h0
  · rw [if_neg h0]
    refine iff_of_false ?_ h0
    obtain ⟨y, hy⟩ := opAt_fault (hw.not_op hn)
    exact not_refuses_fault (bind_of_error (bind_of_error hy))

theorem aeUpdateAad_forged {aad : Ptr} {n : Nat} :
    Refuses ((fun _ => teeSuccess) <$> teeAeUpdateAad c h aad n) s ↔ h = 0 ∨ aad.Missing n := by
  unfold teeAeUpdateAad
  by_cases h0 : h = 0 ∨ (aad = none ∧ n ≠ 0)
  · rw [if_pos h0]
    exact iff_of_true (refuses_panic (n := 0) (map_error rfl)) h0
  · rw [if_neg h0]
    refine iff_of_false ?_ h0
    obtain ⟨y, hy⟩ := opAt_fault (hw.not_op hn)
    exact not_refuses_fault (map_error (bind_of_error hy))

end

/-- `TEE_CopyOperation` reads both handles -/
theorem copyOperation_forged {d k : Nat} (hw : WellFormed s)
    (hn : ¬ Registered s d ∨ ¬ Registered s k) :
    Refuses ((fun _ => teeSuccess) <$> teeCopyOperation c d k) s ↔ d = 0 ∨ k = 0 := by
  unfold teeCopyOperation
  by_cases h0 : d = 0 ∨ k = 0
  · rw [if_pos h0]
    exact iff_of_true (refuses_panic (n := 0) (map_error rfl)) h0
  · rw [if_neg h0]
    refine iff_of_false ?_ h0
    -- the target is read first, then the source
    have hfault : ∀ {a : Nat} {f : Operation → O Unit}, ¬ Registered s a →
        ∃ y, (opAt a >>= f) s = .error (.fault y) := fun hn => opAt_bind_fault hw hn
    by_cases hd : ∃ o, s.heap.blocks d = some (.op o)
    · obtain ⟨o, ho⟩ := hd
      have hk : ¬ Registered s k := by
        rcases hn with hd | hk
        · exact absurd ho (hw.not_op hd o)
        · exact hk
      obtain ⟨y, hy⟩ := opAt_fault (hw.not_op hk)
      refine not_refuses_fault (f := y) (map_error ?_)
      rw [bind_of_ok (opAt_eq ho)]
      exact bind_of_error hy
    · obtain ⟨y, hy⟩ := opAt_fault (not_exists.mp hd)
      exact not_refuses_fault (map_error (bind_of_error hy))

/-! ## every call -/

/-- **Exactly the checked calls refuse a handle that is not registered.** -/
theorem forged_iff (hw : WellFormed s) {e : Entry} (hf : e.Forged s) :
    Refuses (entry c e) s ↔ e.Checked c.maxChunk := by
  have hpanic : ∀ {α : Type} {h : Nat} {f : Bool → O α} {g : α → Nat}, ¬ Registered s h →
      f true = teePanic 0 → Refuses (g <$> (unknown h >>= f)) s := by
    intro α h f g hn hf
    exact refuses_panic (map_error (panic_unknown hw hn hf))
  have hleave : ∀ {β : Type} {h : Nat} {f : Bool → O (Nat × β)} {ok : List Nat} {b : β},
      ¬ Registered s h → f true = pure (teeErrorBadParameters, b) → teeErrorBadParameters ∉ ok →
      Refuses (Prod.fst <$> (unknown h >>= f >>= fun r => leave ok r.1 >>= fun res =>
        pure (res, r.2))) s := by
    intro β h f ok b hn hf hok
    refine refuses_leave (b := b) (t := s) hok ?_
    rw [bind_of_ok (unknown_true hw hn), hf]
    rfl
  have hout : ∀ {h : Nat} {f : Bool → O Nat} {ok : List Nat}, ¬ Registered s h →
      f true = pure teeErrorBadParameters → teeErrorBadParameters ∉ ok →
      Refuses (unknown h >>= f >>= fun res => leave ok res) s := by
    intro h f ok hn hf hok
    exact refuses_panic (leave_unknown hw hn hf fun s => leave_panic hok)
  obtain ⟨x, hm, hn⟩ := hf
  cases e with
  | allocateOperation p a m n => exact absurd hm List.not_mem_nil
  | copyOperation d k =>
    refine copyOperation_forged hw ?_
    rcases List.mem_pair.mp hm with rfl | rfl
    · exact .inl hn
    · exact .inr hn
  | getOperationInfo h i =>
    cases List.mem_singleton.mp hm
    exact getOperationInfo_forged hw hn
  | cipherUpdate h p n o l =>
    cases List.mem_singleton.mp hm
    exact cipherUpdate_forged hw hn
  | cipherDoFinal h p n o l =>
    cases List.mem_singleton.mp hm
    exact cipherDoFinal_forged hw hn
  | macCompareFinal h p n m l =>
    cases List.mem_singleton.mp hm
    exact macCompareFinal_forged hw hn
  | aeInit h p n k =>
    cases List.mem_singleton.mp hm
    exact aeInit_forged hw hn
  | aeUpdateAad h p n =>
    cases List.mem_singleton.mp hm
    exact aeUpdateAad_forged hw hn
  | freeOperation h =>
    cases List.mem_singleton.mp hm
    exact iff_of_true (hpanic hn rfl) trivial
  | resetOperation h =>
    cases List.mem_singleton.mp hm
    exact iff_of_true (hpanic hn rfl) trivial
  | digestUpdate h p n =>
    cases List.mem_singleton.mp hm
    exact iff_of_true (hpanic hn rfl) trivial
  | cipherInit h p n =>
    cases List.mem_singleton.mp hm
    exact iff_of_true (hpanic hn rfl) trivial
  | macInit h =>
    cases List.mem_singleton.mp hm
    exact iff_of_true (hpanic hn rfl) trivial
  | macUpdate h p n =>
    cases List.mem_singleton.mp hm
    exact iff_of_true (hpanic hn rfl) trivial
  | getOperationInfoMultiple h i n =>
    cases List.mem_singleton.mp hm
    exact iff_of_true (hleave hn rfl (by decide)) trivial
  | digestDoFinal h p n o l =>
    cases List.mem_singleton.mp hm
    exact iff_of_true (hleave hn rfl (by decide)) trivial
  | macComputeFinal h p n o l =>
    cases List.mem_singleton.mp hm
    exact iff_of_true (hleave hn rfl (by decide)) trivial
  | aeUpdate h p n o l =>
    cases List.mem_singleton.mp hm
    exact iff_of_true (hleave hn rfl (by decide)) trivial
  | setOperationKey h k =>
    cases List.mem_singleton.mp hm
    exact iff_of_true (hout hn rfl (by decide)) trivial
  | setOperationKey2 h k l =>
    cases List.mem_singleton.mp hm
    exact iff_of_true (hout hn rfl (by decide)) trivial

/-- **Every call of every run.** -/
theorem refused_iff (c : Crypto) (u : Utc) (answers : Nat → Nat) (l : List Act) (e : Entry) :
    wlp (run (act c) l) (fun _ t => e.Forged t → (Refuses (entry c e) t ↔ e.Checked c.maxChunk))
      (Sys.start u answers) := by
  refine wlp_mono (wlp_run (fun a s hs => act_wellFormed hs a) (start_wellFormed u answers)) ?_
  intro _ t hw hf
  exact forged_iff hw hf

/-! ## a handle after its release -/

theorem always_ran : ∀ (log : List Event) (e : Event), teeSuccess = teeSuccess → true = true :=
  fun _ _ _ => rfl

theorem never_short : ∀ (log : List Event) (e : Event),
    teeSuccess = teeErrorShortBuffer → true = false := fun _ _ h => absurd h (by decide)

/-- a library that does what it is asked -/
def sampleCrypto : Crypto where
  provider := sampleProvider
  answer := fun _ _ => teeSuccess
  ran := fun _ _ => true
  ran_success := always_ran
  ran_short := never_short
  length := fun _ _ => 0
  mac := fun _ _ => 0
  maxChunk := 1024

def teeAlgSha256 : Nat := 0x50000004

/-- a handle is allocated and released -/
def releaseHandle : List Act :=
  [.api (.allocateOperation true teeAlgSha256 teeModeDigest 0), .api (.freeOperation 0x1000)]

/-- every call refuses the handles that are not registered after the run `l` -/
def AllRefused (c : Crypto) (u : Utc) (answers : Nat → Nat) (l : List Act) : Prop :=
  ∀ e : Entry, wlp (run (act c) l) (fun _ t => e.Forged t → Refuses (entry c e) t)
    (Sys.start u answers)

/-- the registry after a run -/
def elemsAfter (c : Crypto) (u : Utc) (answers : Nat → Nat) (l : List Act) : Option (List Nat) :=
  match run (act c) l (Sys.start u answers) with
  | .ok (_, t) => some t.elems
  | .error _ => none

/-- with an empty registry `TEE_GetOperationInfo` reads what it is given -/
theorem not_allRefused {u : Utc} {answers : Nat → Nat} {l : List Act}
    (hx : elemsAfter c u answers l = some []) : ¬ AllRefused c u answers l := by
  intro hall
  unfold elemsAfter at hx
  have hw := wlp_run (fun a s hs => act_wellFormed (c := c) hs a) (start_wellFormed u answers)
    (l := l)
  have hall := hall (.getOperationInfo 0x1000 true)
  cases hrun : run (act c) l (Sys.start u answers) with
  | error y =>
    rw [hrun] at hx
    cases hx
  | ok r =>
    rw [hrun] at hx
    rw [wlp_of_eq hrun] at hw hall
    have he : r.2.elems = [] := Option.some.inj hx
    have hf : (Entry.getOperationInfo 0x1000 true).Forged r.2 := by
      refine ⟨0x1000, List.mem_singleton.mpr rfl, ?_⟩
      rintro ⟨e, hm, -⟩
      have hm : e ∈ r.2.elems := hm
      rw [he] at hm
      cases hm
    rcases (forged_iff hw hf).mp (hall hf) with h0 | h0
    · cases h0
    · cases h0

/-- `TEE_GetOperationInfo` reads the released handle -/
theorem refused_fails : ¬ AllRefused sampleCrypto (Utc.empty Cryp.sampleAnswers) Cryp.sampleAnswers
    releaseHandle := not_allRefused (by decide +kernel)

end MTower.Oper
