import MTower.Kernel.Requests

/-!
# What a request hands to a TA and takes back

A user TA works on the parameters of the `tee_ta_param` itself, a static TA on a copy; `given` and
`taken` are the two directions for either kind, so that one lemma covers both.

* `teeParamTypeGet_teeParamTypes`  the four types of a types word;
* `copyOutParam_out`, `copyOutParam_value`, `copyOutParam_memref`  `copy_out_param`, word by word;
* `wp_teeIoctlInvoke`              an invoke of a live session, as a function of the message;
* `ioctlOpenSession_opened`        an open that enters its TA, as a function of the message.
-/

set_option linter.unusedVariables false

namespace MTower.Kernel
open Lib

/-! ## the types word -/

theorem testBit_nibble {t : Nat} (h : t < 16) {j : Nat} (hj : 4 ≤ j) : t.testBit j = false := by
  apply Nat.testBit_lt_two_pow
  calc t < 2 ^ 4 := h
    _ ≤ 2 ^ j := Nat.pow_le_pow_right (by decide) hj

/-- the types of later slots do not matter, whatever they are -/
theorem teeParamTypeGet_teeParamTypes {t : Nat → Nat} {i : Nat} (ht : ∀ m ≤ i, t m < 16)
    (hi : i < 4) : teeParamTypeGet (teeParamTypes (t 0) (t 1) (t 2) (t 3)) i = t i := by
  have hm : (0xF : Nat) = 2 ^ 4 - 1 := rfl
  apply Nat.eq_of_testBit_eq
  intro j
  unfold teeParamTypeGet teeParamTypes
  rw [hm, Nat.testBit_and, Nat.testBit_two_pow_sub_one, Nat.testBit_shiftRight]
  simp only [Nat.testBit_or, Nat.testBit_shiftLeft]
  by_cases hj : j < 4
  · have key : ∀ m < 4, (decide (i * 4 + j ≥ 4 * m) && (t m).testBit (i * 4 + j - 4 * m))
        = (decide (m = i) && (t i).testBit j) := by
      intro m hm4
      by_cases hmi : m = i
      · subst hmi
        have e : m * 4 + j - 4 * m = j := by omega
        have hge : m * 4 + j ≥ 4 * m := by omega
        rw [e, decide_eq_true hge, decide_eq_true rfl]
      · rw [decide_eq_false hmi, Bool.false_and]
        by_cases hge : i * 4 + j ≥ 4 * m
        · rw [testBit_nibble (ht m (by omega)) (by omega), Bool.and_false]
        · rw [decide_eq_false hge, Bool.false_and]
    have k0 := key 0 (by decide)
    have k1 := key 1 (by decide)
    have k2 := key 2 (by decide)
    have k3 := key 3 (by decide)
    simp only [Nat.mul_zero, Nat.zero_le, ge_iff_le, decide_true, Bool.true_and, Nat.sub_zero,
      Nat.mul_one] at k0 k1
    rw [k0, k1, k2, k3, decide_eq_true hj, Bool.and_true]
    have hcases : i = 0 ∨ i = 1 ∨ i = 2 ∨ i = 3 := by omega
    rcases hcases with rfl | rfl | rfl | rfl <;> simp
  · rw [decide_eq_false hj, Bool.and_false, testBit_nibble (ht i (le_refl i)) (by omega)]

/-! ## `copy_out_param` -/

section
variable (p : TeeTaParam) (savedAttr : Nat → Nat) (base : Nat)

/-- one iteration writes its own two words at most -/
theorem copyOutStep_out (w : Words) {n i : Nat} (h1 : i ≠ base + 4 * n + 1)
    (h2 : i ≠ base + 4 * n + 2) : copyOutStep p savedAttr base w n i = w i := by
  unfold copyOutStep
  split
  · split
    · exact Function.update_of_ne h2 _ _
    · rfl
  · split
    · rw [Function.update_of_ne h2, Function.update_of_ne h1]
    · rfl

/-- what it writes does not depend on the words that are there -/
theorem copyOutStep_congr {w x : Words} {n i : Nat} (h : x i = w i) :
    copyOutStep p savedAttr base x n i = copyOutStep p savedAttr base w n i := by
  unfold copyOutStep
  split
  · split
    · simp only [Function.update_apply, h]
    · exact h
  · split
    · simp only [Function.update_apply, h]
    · exact h

/-- the words before the parameters -/
theorem copyOutParam_out (k : Nat) (w : Words) {i : Nat} (hi : i ≤ base) :
    copyOutParam p k savedAttr base w i = w i := by
  refine foldl_range_inv (fun _ (x : Words) => x i = w i) ?_ rfl
  intro n x hn hx
  rw [copyOutStep_out p savedAttr base x (by omega) (by omega), hx]

/-- the words of parameter `n` are written in iteration `n` -/
theorem copyOutParam_slot {k : Nat} (w : Words) {n j : Nat} (hn : n < k) (hj : j < 4) :
    copyOutParam p k savedAttr base w (base + 4 * n + j)
      = copyOutStep p savedAttr base w n (base + 4 * n + j) := by
  have hinv := foldl_range_inv (k := k) (s := w) (f := copyOutStep p savedAttr base)
    (fun m x => x (base + 4 * n + j) = if n < m
      then copyOutStep p savedAttr base w n (base + 4 * n + j) else w (base + 4 * n + j)) ?_ rfl
  · rw [if_pos hn] at hinv
    exact hinv
  · intro m x hm hx
    by_cases hmn : m = n
    · subst hmn
      rw [if_neg (lt_irrefl m)] at hx
      rw [if_pos (Nat.lt_succ_self m), copyOutStep_congr p savedAttr base hx]
    · rw [copyOutStep_out p savedAttr base x (by omega) (by omega), hx]
      have hiff : n < m ↔ n < m + 1 := by omega
      simp only [hiff]

/-- both words of a value output -/
theorem copyOutParam_value {k : Nat} (w : Words) {n : Nat} (hn : n < k)
    (ht : teeParamTypeGet p.types n = paramTypeValueOutput ∨
      teeParamTypeGet p.types n = paramTypeValueInout) :
    copyOutParam p k savedAttr base w (base + 4 * n + 1) = (p.u n).a ∧
      copyOutParam p k savedAttr base w (base + 4 * n + 2) = (p.u n).b := by
  have hm : ¬ (teeParamTypeGet p.types n = paramTypeMemrefOutput ∨
      teeParamTypeGet p.types n = paramTypeMemrefInout) := by
    unfold paramTypeValueOutput paramTypeValueInout at ht
    unfold paramTypeMemrefOutput paramTypeMemrefInout
    omega
  rw [copyOutParam_slot p savedAttr base w hn (by decide),
    copyOutParam_slot p savedAttr base w hn (by decide)]
  simp only [copyOutStep, if_neg hm, if_pos ht]
  rw [Function.update_of_ne (by omega), Function.update_self, Function.update_self]
  exact ⟨rfl, rfl⟩

/-- the size of a memref output -/
theorem copyOutParam_memref {k : Nat} (w : Words) {n : Nat} (hn : n < k)
    (ht : teeParamTypeGet p.types n = paramTypeMemrefOutput ∨
      teeParamTypeGet p.types n = paramTypeMemrefInout)
    (ha : savedAttr n &&& msgAttrTypeMask = msgAttrTmemOutput ∨
      savedAttr n &&& msgAttrTypeMask = msgAttrTmemInout ∨
      savedAttr n &&& msgAttrTypeMask = msgAttrRmemOutput ∨
      savedAttr n &&& msgAttrTypeMask = msgAttrRmemInout) :
    copyOutParam p k savedAttr base w (base + 4 * n + 2) = (p.u n).b := by
  rw [copyOutParam_slot p savedAttr base w hn (by decide)]
  simp only [copyOutStep, if_pos ht, if_pos ha, Function.update_self]

end

/-! ## either kind of TA -/

section
variable {τ : Type} {k : State τ}

/-- the head of the TA of a context block -/
def Block.head : Block τ → Option (TaHead τ)
  | .session _ => none
  | .userCtx ta _ => some ta
  | .pseudoCtx ta => some ta

/-- what the entry point gets: the `TEE_Param` overlaid on `param->u`, or a copy -/
def Block.given (c : Block τ) (tas : Tas τ) (world : τ) (p : TeeTaParam) : TeeParams :=
  match c with
  | .pseudoCtx _ => pseudoCopyIn p (tas.paramJunk world)
  | _ => p.params

/-- what is left in the `tee_ta_param` -/
def Block.taken (c : Block τ) (p : TeeTaParam) (q : TeeParams) : TeeTaParam :=
  match c with
  | .pseudoCtx _ => pseudoUpdateOut q p
  | _ => p.write q

theorem Block.taken_types (c : Block τ) (p : TeeTaParam) (q : TeeParams) :
    (c.taken p q).types = p.types := by
  cases c <;> rfl

/-- the origin of the result of an open entry point: set for a static TA only -/
def Block.openOrigin (c : Block τ) (eo : Nat) : Nat :=
  match c with
  | .pseudoCtx _ => teeOriginTrustedApp
  | _ => eo

theorem wp_enterInvokeCmd {s : Nat} {b : Session} {c : Block τ} {ta : TaHead τ} (tas : Tas τ)
    (cmd : Nat) (param : TeeTaParam) {Q : Nat × TeeTaParam × Nat → State τ → Prop}
    (hs : k.heap.blocks s = some (.session b)) (hc : k.heap.blocks b.ctx = some c)
    (hta : c.head = some ta) : wp (enterInvokeCmd tas b.ctx s cmd param) Q k ↔
      let q := c.given tas k.world param
      let r := ta.invokeCommand k.world b.userCtx cmd param.types q
      Q (r.res, c.taken param r.params, teeOriginTrustedApp)
        (k.entryCall .invokeCmd s b.ctx cmd param.types q r.world) := by
  cases c with
  | session _ => cases hta
  | userCtx ta' l =>
    cases hta
    exact wp_enterInvokeCmd_user tas cmd param hs hc
  | pseudoCtx ta' =>
    cases hta
    exact wp_enterInvokeCmd_pseudo tas cmd param hs hc

theorem wp_enterOpenSession {s : Nat} {b : Session} {c : Block τ} {ta : TaHead τ}
    {f : τ → Nat → TeeParams → Nat → OpenReturn τ} (tas : Tas τ) (param : TeeTaParam) (eo : Nat)
    {Q : Nat × TeeTaParam × Nat → State τ → Prop}
    (hs : k.heap.blocks s = some (.session b)) (hc : k.heap.blocks b.ctx = some c)
    (hta : c.head = some ta) (hf : ta.openSession = some f) :
    wp (enterOpenSession tas b.ctx s param eo) Q k ↔
      let q := c.given tas k.world param
      let r := f k.world param.types q b.userCtx
      Q (r.res, c.taken param r.params, c.openOrigin eo)
        ((k.entryCall .openSession s b.ctx 0 param.types q r.world).store s
          (.session { b with userCtx := r.userCtx })) := by
  cases c with
  | session _ => cases hta
  | userCtx ta' l =>
    cases hta
    rw [wp_enterOpenSession_user tas param eo hs hc, hf]
    exact Iff.rfl
  | pseudoCtx ta' =>
    cases hta
    rw [wp_enterOpenSession_pseudo tas param eo hs hc, hf]
    exact Iff.rfl

/-! ## the two requests -/

/-- the types word that `copy_in_params` builds for four parameters -/
def msgTypes (w : Words) : Nat :=
  teeParamTypes ((typeOfAttr (msgParams w 0).attr).getD 0)
    ((typeOfAttr (msgParams w 1).attr).getD 0) ((typeOfAttr (msgParams w 2).attr).getD 0)
    ((typeOfAttr (msgParams w 3).attr).getD 0)

/-- the `tee_ta_param` of a message with four parameters -/
def msgTaParam (w : Words) : TeeTaParam := ⟨msgTypes w, slotsIn (msgParams w) 4⟩

/-- **An invoke of a live session.** -/
theorem wp_teeIoctlInvoke (tas : Tas τ) (hk : Linked k) {w : Words} (hn : w msgNumParamsWord = 4)
    (hd : Typed (msgParams w) 4) (hid : w msgSessionWord ∈ k.openSessions) {b : Session}
    {c : Block τ} {ta : TaHead τ} (hb : k.heap.blocks (w msgSessionWord) = some (.session b))
    (hc : k.heap.blocks b.ctx = some c) (hta : c.head = some ta)
    {Q : Nat × Words → State τ → Prop} : wp (teeIoctlInvoke tas w) Q k ↔
      let q := c.given tas k.world (msgTaParam w)
      let r := ta.invokeCommand k.world b.userCtx (w msgFuncWord) (msgTypes w) q
      Q (r.res, Function.update (copyOutParam (c.taken (msgTaParam w) r.params) 4
          (attrsIn (msgParams w) 4) msgParamsWord w) msgRetWord r.res)
        (k.entryCall .invokeCmd (w msgSessionWord) b.ctx (w msgFuncWord) (msgTypes w) q
          r.world) := by
  have hdec : Decodes (msgParams w) 4 := ⟨le_refl 4, hd⟩
  simp only [teeIoctlInvoke, wp_bind, wp_teeTaGetSession hk, wp_get, hn, copyInParams_eq,
    if_pos hdec, if_pos hid, teeTaInvokeCommand, wp_sessionAt hb]
  exact wp_enterInvokeCmd tas _ _ hb hc hta

/-- the request buffer after an open that entered a TA: `ret` is what the entry point returned -/
def openedWords (k : State τ) (c : Block τ) (w : Words) (ret : OpenReturn τ) : Words :=
  Function.update (Function.update (Function.update
    (putRawTaParam w (c.taken (rawTaParam w) ret.params)) openSessionWord
    (if ret.res ≠ teeSuccess then 0 else k.sessAddr)) openRetWord ret.res) openRetOriginWord
    (c.openOrigin teeOriginTee)

/-- **An open that enters its TA.** -/
theorem ioctlOpenSession_opened (tas : Tas τ) {w : Words} {c : Block τ} {ta : TaHead τ}
    {f : τ → Nat → TeeParams → Nat → OpenReturn τ}
    (h : Openable tas k (teeUuidFromOctets (octetAt w)))
    (hc : findTa tas (teeUuidFromOctets (octetAt w)) = some c) (hta : c.head = some ta)
    (hf : ta.openSession = some f) :
    wp (teeIoctlOpenSession tas w) (fun r t =>
      let q := c.given tas k.world (rawTaParam w)
      let ret := f k.world (rawTaParam w).types q 0
      r = (teeSuccess, openedWords k c w ret) ∧
      t.calls = ⟨.openSession, k.ctxAddr, 0, (rawTaParam w).types, q, k.world⟩ :: k.calls ∧
      t.world = ret.world) k := by
  obtain ⟨-, -, -, -, hne⟩ := h.fresh
  rw [teeIoctlOpenSession, wp_bind, teeTaOpenSession, wp_bind]
  refine wp_mono (initSession_opened h hc) ?_
  rintro r t ⟨rfl, rfl⟩
  have hs : (k.withNew c).heap.blocks k.sessAddr = some (.session ⟨k.ctxAddr, 0⟩) := by
    show Function.update (Function.update k.heap.blocks k.sessAddr _) k.ctxAddr _ k.sessAddr = _
    rw [Function.update_of_ne hne.symm, Function.update_self]
  have hcb : (k.withNew c).heap.blocks k.ctxAddr = some c := Function.update_self _ _ _
  rw [if_neg (fun h => h rfl), wp_bind, wp_sessionAt hs, wp_bind,
    wp_enterOpenSession tas _ _ hs hcb hta hf]
  exact ⟨rfl, rfl, rfl⟩

/-- the state with a session for the TA of `c` -/
theorem Linked.withNew {tas : Tas τ} {uuid : Uuid} {c : Block τ} (hk : Linked k)
    (h : Openable tas k uuid) (hc : IsCtx c) : Linked (k.withNew c) := by
  obtain ⟨hs0, hsn, hc0, hcn, hne⟩ := h.fresh
  have hold : ∀ a, k.heap.blocks a ≠ none → (k.withNew c).heap.blocks a = k.heap.blocks a := by
    intro a ha
    have hac : a ≠ k.ctxAddr := by
      rintro rfl
      exact ha hcn
    have has : a ≠ k.sessAddr := by
      rintro rfl
      exact ha hsn
    show Function.update (Function.update k.heap.blocks k.sessAddr _) k.ctxAddr _ a = _
    rw [Function.update_of_ne hac, Function.update_of_ne has]
  constructor
  · intro s hs
    rcases List.mem_cons.mp hs with rfl | hs
    · refine ⟨⟨k.ctxAddr, 0⟩, c, ?_, Function.update_self _ _ _, hc⟩
      show Function.update (Function.update k.heap.blocks k.sessAddr _) k.ctxAddr _ k.sessAddr = _
      rw [Function.update_of_ne hne.symm, Function.update_self]
    · obtain ⟨b, d, hb, hd, hi⟩ := hk.sessions s hs
      refine ⟨b, d, ?_, ?_, hi⟩
      · rw [hold s (by rw [hb]; exact Option.some_ne_none _), hb]
      · rw [hold b.ctx (by rw [hd]; exact Option.some_ne_none _), hd]
  · show Function.update (Function.update k.heap.blocks k.sessAddr _) k.ctxAddr _ 0 = none
    rw [Function.update_of_ne hc0.symm, Function.update_of_ne hs0.symm]
    exact hk.zero

end

end MTower.Kernel
