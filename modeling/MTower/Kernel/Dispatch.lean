import MTower.Kernel.Entry

/-!
# One body as a static TA and as a user TA

A static TA works on a copy of the parameters and `update_out_param` takes some of them back, a user
TA works on the `tee_ta_param` itself.

* `wp_teeIoctlInvoke_message`  an invoke of a live session, for any message with valid attributes;
* `copyOutParam_agree`         when two `tee_ta_param` give the same reply;
* `sameReply_iff`              when the two kinds of TA do;
* `sameReply_blind`            the same, of a body that reads two words of each parameter.
-/

set_option linter.unusedVariables false

namespace MTower.Kernel
open Lib

/-! ## the parameters of a message -/

def OutValue (type : Nat) : Prop := type = paramTypeValueOutput ∨ type = paramTypeValueInout

def OutMemref (type : Nat) : Prop := type = paramTypeMemrefOutput ∨ type = paramTypeMemrefInout

instance (type : Nat) : Decidable (OutValue type) := inferInstanceAs (Decidable (_ ∨ _))
instance (type : Nat) : Decidable (OutMemref type) := inferInstanceAs (Decidable (_ ∨ _))

theorem typeOfAttr_lt (attr : Nat) : (typeOfAttr attr).getD 0 < 16 := by
  unfold typeOfAttr
  dsimp only
  split
  · show attr &&& msgAttrTypeMask < 16
    omega
  · split
    · show (attr &&& msgAttrTypeMask) - 4 < 16
      omega
    · show 0 < 16
      omega

/-- the attributes of the references whose size `copy_out_param` writes -/
def OutAttr (attr : Nat) : Prop :=
  attr &&& msgAttrTypeMask = msgAttrTmemOutput ∨ attr &&& msgAttrTypeMask = msgAttrTmemInout ∨
    attr &&& msgAttrTypeMask = msgAttrRmemOutput ∨ attr &&& msgAttrTypeMask = msgAttrRmemInout

theorem outAttr_of_outMemref {attr : Nat} (h : OutMemref ((typeOfAttr attr).getD 0)) :
    OutAttr attr := by
  unfold OutAttr
  unfold OutMemref typeOfAttr paramTypeMemrefOutput paramTypeMemrefInout at h
  unfold msgAttrTmemOutput msgAttrTmemInout msgAttrRmemOutput msgAttrRmemInout
  generalize attr &&& msgAttrTypeMask = t at h ⊢
  dsimp only at h
  split at h
  · simp only [Option.getD_some] at h
    omega
  · split at h
    · simp only [Option.getD_some] at h
      omega
    · simp only [Option.getD_none] at h
      omega

section
variable {τ : Type}

/-- the `tee_ta_param` of a message -/
def paramIn (tas : Tas τ) (world : τ) (w : Words) : TeeTaParam :=
  let type := typesIn (tas.ptJunk world) (msgParams w) (w msgNumParamsWord)
  ⟨teeParamTypes (type 0) (type 1) (type 2) (type 3), slotsIn (msgParams w) (w msgNumParamsWord)⟩

theorem paramIn_type (tas : Tas τ) (world : τ) {w : Words}
    (hd : MsgDecodes w) {n : Nat} (hn : n < w msgNumParamsWord) :
    teeParamTypeGet (paramIn tas world w).types n = (typeOfAttr (msgParams w n).attr).getD 0 := by
  obtain ⟨h4, -⟩ := hd
  have hn4 : n < 4 := Nat.lt_of_lt_of_le hn h4
  have ht : ∀ m ≤ n, typesIn (tas.ptJunk world) (msgParams w) (w msgNumParamsWord) m < 16 := by
    intro m hm
    rw [typesIn, filled_lt _ _ (by omega)]
    exact typeOfAttr_lt _
  unfold paramIn
  dsimp only
  rw [teeParamTypeGet_teeParamTypes ht hn4, typesIn, filled_lt _ _ hn]

/-- **An invoke of a live session**, for any message with valid attributes. -/
theorem wp_teeIoctlInvoke_message {k : State τ} (tas : Tas τ) (hk : Linked k) {w : Words}
    (hd : MsgDecodes w) (hid : w msgSessionWord ∈ k.openSessions)
    {b : Session} {c : Block τ} {ta : TaHead τ}
    (hb : k.heap.blocks (w msgSessionWord) = some (.session b))
    (hc : k.heap.blocks b.ctx = some c) (hta : c.head = some ta)
    {Q : Nat × Words → State τ → Prop} : wp (teeIoctlInvoke tas w) Q k ↔
      let p := paramIn tas k.world w
      let q := c.given tas k.world p
      let r := ta.invokeCommand k.world b.userCtx (w msgFuncWord) p.types q
      Q (r.res, Function.update (copyOutParam (c.taken p r.params) (w msgNumParamsWord)
          (attrsIn (msgParams w) (w msgNumParamsWord)) msgParamsWord w) msgRetWord r.res)
        (k.entryCall .invokeCmd (w msgSessionWord) b.ctx (w msgFuncWord) p.types q r.world) := by
  have hd' : Decodes (msgParams w) (w msgNumParamsWord) := hd
  simp only [teeIoctlInvoke, wp_bind, wp_teeTaGetSession hk, wp_get, copyInParams_eq,
    if_pos hd', if_pos hid, teeTaInvokeCommand, wp_sessionAt hb]
  exact wp_enterInvokeCmd tas _ _ hb hc hta

/-! ## equal replies -/

/-- the words of a slot that a reply carries -/
def Agree (type : Nat) (s s' : Slot) : Prop :=
  (OutValue type → s'.a = s.a ∧ s'.b = s.b) ∧ (OutMemref type → s'.b = s.b)

theorem OutValue.not_memref {type : Nat} (h : OutValue type) : ¬ OutMemref type := by
  unfold OutValue paramTypeValueOutput paramTypeValueInout at h
  unfold OutMemref paramTypeMemrefOutput paramTypeMemrefInout
  omega

/-- two `tee_ta_param` of the same types give the same words exactly when their output slots agree -/
theorem copyOutParam_agree {p q : TeeTaParam} (htypes : q.types = p.types) {k : Nat}
    {savedAttr : Nat → Nat} (base : Nat) (w : Words)
    (ha : ∀ n < k, OutMemref (teeParamTypeGet p.types n) → OutAttr (savedAttr n)) :
    (∀ i, base < i → copyOutParam q k savedAttr base w i = copyOutParam p k savedAttr base w i) ↔
      ∀ n < k, Agree (teeParamTypeGet p.types n) (p.u n) (q.u n) := by
  constructor
  · intro h n hn
    have h1 := h (base + 4 * n + 1) (by omega)
    have h2 := h (base + 4 * n + 2) (by omega)
    constructor
    · intro hv
      obtain ⟨e1, e2⟩ := copyOutParam_value p savedAttr base w hn hv
      rw [← htypes] at hv
      obtain ⟨e1', e2'⟩ := copyOutParam_value q savedAttr base w hn hv
      exact ⟨by rw [← e1', ← e1, h1], by rw [← e2', ← e2, h2]⟩
    · intro hm
      have e := copyOutParam_memref p savedAttr base w hn hm (ha n hn hm)
      have e' := copyOutParam_memref q savedAttr base w hn (htypes ▸ hm) (ha n hn hm)
      rw [← e', ← e, h2]
  · intro h i _
    have hstep : ∀ x, ∀ n ∈ List.range k,
        copyOutStep q savedAttr base x n = copyOutStep p savedAttr base x n := by
      intro x n hn
      obtain ⟨hv, hm⟩ := h n (List.mem_range.mp hn)
      unfold copyOutStep
      rw [htypes]
      dsimp only
      by_cases ho : OutMemref (teeParamTypeGet p.types n)
      · have ho' := ho
        unfold OutMemref at ho'
        rw [if_pos ho', if_pos ho', hm ho]
      · have ho' := ho
        unfold OutMemref at ho'
        rw [if_neg ho', if_neg ho']
        by_cases hval : OutValue (teeParamTypeGet p.types n)
        · have hval' := hval
          unfold OutValue at hval'
          rw [if_pos hval', if_pos hval', (hv hval).1, (hv hval).2]
        · unfold OutValue at hval
          rw [if_neg hval, if_neg hval]
    rw [copyOutParam, copyOutParam, List.foldl_ext _ _ _ hstep]

/-! ## the two kinds of TA -/

/-- another context in the place of a context keeps the sessions linked -/
theorem Linked.store_ctx {k : State τ} (hk : Linked k) {a : Nat} {c d : Block τ}
    (ha : k.heap.blocks a = some c) (hc : IsCtx c) (hd : IsCtx d) : Linked (k.store a d) := by
  have hself : (k.store a d).heap.blocks a = some d := Function.update_self _ _ _
  have hother : ∀ q, q ≠ a → (k.store a d).heap.blocks q = k.heap.blocks q :=
    fun q hq => Function.update_of_ne hq _ _
  constructor
  · intro s hs
    obtain ⟨b, e, hb, he, hi⟩ := hk.sessions s hs
    have hsa : s ≠ a := by
      rintro rfl
      rw [hb, Option.some_inj] at ha
      subst ha
      exact hc
    refine ⟨b, ?_⟩
    rw [hother s hsa]
    by_cases hba : b.ctx = a
    · exact ⟨d, hb, by rw [hba, hself], hd⟩
    · exact ⟨e, hb, by rw [hother _ hba, he], hi⟩
  · have h0 : (0 : Nat) ≠ a := by
      rintro rfl
      rw [hk.zero] at ha
      cases ha
    rw [hother 0 h0]
    exact hk.zero

section
variable (tas : Tas τ) (k : State τ) (w : Words) (b : Session) (ta : TaHead τ)

/-- what the body returns on the `tee_ta_param` itself -/
def onOverlay : InvokeReturn τ :=
  let p := paramIn tas k.world w
  ta.invokeCommand k.world b.userCtx (w msgFuncWord) p.types p.params

/-- what it returns on the copy of `copy_in_param` -/
def onCopy : InvokeReturn τ :=
  let p := paramIn tas k.world w
  ta.invokeCommand k.world b.userCtx (w msgFuncWord) p.types
    (pseudoCopyIn p (tas.paramJunk k.world))

/-- The body gives the same result and the same value outputs on both, and leaves the size of every
output memref as it found it. -/
def SameReply : Prop :=
  (onCopy tas k w b ta).res = (onOverlay tas k w b ta).res ∧
  ∀ n : Fin 4, n < w msgNumParamsWord →
    (OutValue (teeParamTypeGet (paramIn tas k.world w).types n) →
      ((onCopy tas k w b ta).params n).a = ((onOverlay tas k w b ta).params n).a ∧
      ((onCopy tas k w b ta).params n).b = ((onOverlay tas k w b ta).params n).b) ∧
    (OutMemref (teeParamTypeGet (paramIn tas k.world w).types n) →
      ((onOverlay tas k w b ta).params n).b = ((paramIn tas k.world w).params n).b)

end

theorem pseudoUpdateOut_agree {p : TeeTaParam} {q r : TeeParams} {n : Fin 4} :
    Agree (teeParamTypeGet p.types n) ((p.write r).u n) ((pseudoUpdateOut q p).u n) ↔
      (OutValue (teeParamTypeGet p.types n) → (q n).a = (r n).a ∧ (q n).b = (r n).b) ∧
      (OutMemref (teeParamTypeGet p.types n) → (r n).b = (p.params n).b) := by
  have hr : (p.write r).u n = r n := dif_pos n.isLt
  have hq : (pseudoUpdateOut q p).u n =
      if OutValue (teeParamTypeGet p.types n) then { p.u n with a := (q n).a, b := (q n).b }
      else p.u n := dif_pos n.isLt
  unfold Agree
  rw [hr, hq]
  by_cases hv : OutValue (teeParamTypeGet p.types n)
  · have hm := hv.not_memref
    rw [if_pos hv]
    exact ⟨fun h => ⟨h.1, fun h' => absurd h' hm⟩, fun h => ⟨h.1, fun h' => absurd h' hm⟩⟩
  · rw [if_neg hv]
    exact ⟨fun h => ⟨fun h' => absurd h' hv, fun h' => (h.2 h').symm⟩,
      fun h => ⟨fun h' => absurd h' hv, fun h' => (h.2 h').symm⟩⟩

/-- the two dispatches of one message give one reply -/
theorem dispatch_iff (tas : Tas τ) {k : State τ} (hk : Linked k) {w : Words} (hd : MsgDecodes w)
    (hid : w msgSessionWord ∈ k.openSessions) {b : Session}
    (hb : k.heap.blocks (w msgSessionWord) = some (.session b)) (ta : TaHead τ) (l : List Nat) :
    wp (teeIoctlInvoke tas w) (fun r _ => wp (teeIoctlInvoke tas w) (fun r' _ => r' = r)
      (k.store b.ctx (.pseudoCtx ta))) (k.store b.ctx (.userCtx ta l)) ↔
    SameReply tas k w b ta := by
  obtain ⟨b', c, hb', hc, hi⟩ := hk.sessions _ hid
  rw [hb, Option.some_inj, Block.session.injEq] at hb'
  subst hb'
  have hne : w msgSessionWord ≠ b.ctx := by
    intro e
    rw [e, hc, Option.some_inj] at hb
    subst hb
    exact hi
  have hs : ∀ d : Block τ, (k.store b.ctx d).heap.blocks (w msgSessionWord) = some (.session b) :=
    fun d => (Function.update_of_ne hne _ _).trans hb
  have hctx : ∀ d : Block τ, (k.store b.ctx d).heap.blocks b.ctx = some d :=
    fun d => Function.update_self _ _ _
  rw [wp_teeIoctlInvoke_message tas (hk.store_ctx (d := .userCtx ta l) hc hi trivial) hd hid (hs _)
      (hctx _) rfl,
    wp_teeIoctlInvoke_message tas (hk.store_ctx (d := .pseudoCtx ta) hc hi trivial) hd hid (hs _)
      (hctx _) rfl]
  show ((onCopy tas k w b ta).res, Function.update (copyOutParam (pseudoUpdateOut
      (onCopy tas k w b ta).params (paramIn tas k.world w)) (w msgNumParamsWord) _ msgParamsWord w)
      msgRetWord (onCopy tas k w b ta).res) =
    ((onOverlay tas k w b ta).res, Function.update (copyOutParam ((paramIn tas k.world w).write
      (onOverlay tas k w b ta).params) (w msgNumParamsWord) _ msgParamsWord w) msgRetWord
      (onOverlay tas k w b ta).res) ↔ _
  have hattr : ∀ n < w msgNumParamsWord,
      OutMemref (teeParamTypeGet (paramIn tas k.world w).types n) →
      OutAttr (attrsIn (msgParams w) (w msgNumParamsWord) n) := by
    intro n hn hm
    rw [paramIn_type tas k.world hd hn] at hm
    rw [attrsIn, filled_lt _ _ hn]
    exact outAttr_of_outMemref hm
  have hagree := copyOutParam_agree (p := (paramIn tas k.world w).write
    (onOverlay tas k w b ta).params) (q := pseudoUpdateOut (onCopy tas k w b ta).params
    (paramIn tas k.world w)) rfl msgParamsWord w hattr
  have hslots : (∀ n < w msgNumParamsWord, Agree (teeParamTypeGet (paramIn tas k.world w).types n)
      (((paramIn tas k.world w).write (onOverlay tas k w b ta).params).u n)
      ((pseudoUpdateOut (onCopy tas k w b ta).params (paramIn tas k.world w)).u n)) ↔
      ∀ n : Fin 4, n < w msgNumParamsWord → _ :=
    ⟨fun h n hn => pseudoUpdateOut_agree.mp (h n hn), fun h n hn =>
      pseudoUpdateOut_agree.mpr (h ⟨n, Nat.lt_of_lt_of_le hn hd.1⟩ hn)⟩
  have hwords := hagree.trans hslots
  unfold SameReply
  rw [← hwords, Prod.mk.injEq]
  refine and_congr_right fun hres => ?_
  rw [hres]
  constructor
  · intro h i hi
    have hi' : i ≠ msgRetWord := by
      unfold msgParamsWord at hi
      unfold msgRetWord
      omega
    have e := congrFun h i
    rw [Function.update_of_ne hi', Function.update_of_ne hi'] at e
    exact e
  · intro h
    congr 1
    funext i
    by_cases hi : msgParamsWord < i
    · exact h i hi
    · rw [copyOutParam_out _ _ _ _ _ (by omega), copyOutParam_out _ _ _ _ _ (by omega)]

/-! ## bodies that read two words -/

/-- The body does not look at the third word of a parameter, which a copy takes from the stack. -/
def TwoWords (ta : TaHead τ) : Prop :=
  ∀ world userCtx cmd types (q q' : TeeParams), (∀ i, (q i).a = (q' i).a ∧ (q i).b = (q' i).b) →
    (ta.invokeCommand world userCtx cmd types q).res
      = (ta.invokeCommand world userCtx cmd types q').res ∧
    ∀ i, ((ta.invokeCommand world userCtx cmd types q).params i).a
        = ((ta.invokeCommand world userCtx cmd types q').params i).a ∧
      ((ta.invokeCommand world userCtx cmd types q).params i).b
        = ((ta.invokeCommand world userCtx cmd types q').params i).b

/-- copy and overlay differ in the third words only -/
theorem pseudoCopyIn_two (tas : Tas τ) (world : τ) {w : Words} (hd : MsgDecodes w)
    (junk : TeeParams) (i : Fin 4) :
    (pseudoCopyIn (paramIn tas world w) junk i).a = ((paramIn tas world w).params i).a ∧
      (pseudoCopyIn (paramIn tas world w) junk i).b = ((paramIn tas world w).params i).b := by
  unfold pseudoCopyIn
  split
  · exact ⟨rfl, rfl⟩
  next hty =>
    have hz : (paramIn tas world w).params i = .zero := by
      show slotsIn (msgParams w) (w msgNumParamsWord) i = .zero
      by_cases hi : (i : Nat) < w msgNumParamsWord
      · rw [paramIn_type tas world hd hi] at hty
        rw [slotsIn, filled_lt _ _ hi, slotOfMsg, if_pos]
        have hsome := hd.2 i hi
        unfold typeOfAttr at hsome hty
        unfold IsValue IsMemref paramTypeValueInput paramTypeValueOutput paramTypeValueInout
          paramTypeMemrefInput paramTypeMemrefOutput paramTypeMemrefInout at hty
        generalize (msgParams w i).attr &&& msgAttrTypeMask = t at hsome hty ⊢
        dsimp only at hsome hty
        split at hty
        · simp only [Option.getD_some] at hty
          omega
        next h1 =>
          rw [if_neg h1] at hsome
          split at hty
          · simp only [Option.getD_some] at hty
            omega
          next h2 =>
            rw [if_neg h2] at hsome
            cases hsome
      · rw [slotsIn, filled_ge _ _ (by omega)]
    rw [hz]
    exact ⟨rfl, rfl⟩

/-- such a body is interchangeable when it leaves the sizes of the output memrefs alone -/
theorem sameReply_blind (tas : Tas τ) (k : State τ) {w : Words} (hd : MsgDecodes w) (b : Session)
    {ta : TaHead τ} (hta : TwoWords ta) : SameReply tas k w b ta ↔
      ∀ n : Fin 4, n < w msgNumParamsWord →
        OutMemref (teeParamTypeGet (paramIn tas k.world w).types n) →
        ((onOverlay tas k w b ta).params n).b = ((paramIn tas k.world w).params n).b := by
  obtain ⟨hres, hpar⟩ := hta k.world b.userCtx (w msgFuncWord) (paramIn tas k.world w).types _ _
    (pseudoCopyIn_two tas k.world hd (tas.paramJunk k.world))
  constructor
  · intro h n hn hm
    exact (h.2 n hn).2 hm
  · intro h
    exact ⟨hres, fun n hn => ⟨fun _ => hpar n, h n hn⟩⟩

/-- **When a body gives the same reply as a static TA and as a user TA**, for every body and every
message with valid attributes. -/
theorem sameReply_iff (tas : Tas τ) (k : State τ) (hk : Linked k) (w : Words) (hd : MsgDecodes w)
    (hid : w msgSessionWord ∈ k.openSessions) (b : Session)
    (hb : k.heap.blocks (w msgSessionWord) = some (.session b)) (ta : TaHead τ) (l : List Nat) :
    (wp (teeIoctlInvoke tas w) (fun r _ => wp (teeIoctlInvoke tas w) (fun r' _ => r' = r)
      (k.store b.ctx (.pseudoCtx ta))) (k.store b.ctx (.userCtx ta l)) ↔ SameReply tas k w b ta) ∧
    (TwoWords ta → (SameReply tas k w b ta ↔ ∀ n : Fin 4, n < w msgNumParamsWord →
      OutMemref (teeParamTypeGet (paramIn tas k.world w).types n) →
      ((onOverlay tas k w b ta).params n).b = ((paramIn tas k.world w).params n).b)) :=
  ⟨dispatch_iff tas hk hd hid hb ta l, sameReply_blind tas k hd b⟩

end

/-- a session of the sample TA is open -/
def sampleOpen : State Unit :=
  match ioctl (sampleTas teeSuccess) iocOpenSession (fun _ => 0) sampleBoot with
  | .ok (_, k) => k
  | .error _ => sampleBoot

theorem sampleOpen_linked : Linked sampleOpen := by
  have hboot : Table sampleBoot.view := Table.empty
  have hopen := serve_table_back (sampleTas teeSuccess) hboot ⟨iocOpenSession, fun _ => 0⟩
  exact ((wlp_of_eq rfl).mp hopen).linked

/-- an invoke with one output buffer of four bytes -/
def outputMsg : Words := fun i =>
  if i = msgSessionWord then 0x20000000 else if i = msgNumParamsWord then 1
  else if i = msgParamsWord then msgAttrTmemOutput else if i = msgParamsWord + 2 then 4 else 0

/-- a body that leaves one byte in its first parameter -/
def oneByteTa : TaHead Unit where
  uuid := teeUuidFromOctets fun _ => 0
  openSession := none
  invokeCommand := fun _ _ _ _ p => ⟨teeSuccess, Function.update p 0 { p 0 with b := 1 }, ()⟩
  closeSession := none

theorem oneByte_not_same : ¬ SameReply (sampleTas teeSuccess) sampleOpen outputMsg
    ⟨0x20000100, 0⟩ oneByteTa := by
  rintro ⟨-, h⟩
  have hsize : (1 : Nat) = 4 := (h 0 (by decide)).2 (by decide)
  exact absurd hsize (by decide)

theorem sameReply_iff_oneByte : ¬ wp (teeIoctlInvoke (sampleTas teeSuccess) outputMsg)
    (fun r _ => wp (teeIoctlInvoke (sampleTas teeSuccess) outputMsg) (fun r' _ => r' = r)
      (sampleOpen.store 0x20000100 (.pseudoCtx oneByteTa)))
    (sampleOpen.store 0x20000100 (.userCtx oneByteTa [])) := by
  have hnot := oneByte_not_same
  have hl := sampleOpen_linked
  have hid : outputMsg msgSessionWord ∈ sampleOpen.openSessions := by decide +kernel
  have hb : sampleOpen.heap.blocks (outputMsg msgSessionWord)
      = some (.session ⟨0x20000100, 0⟩) := rfl
  generalize sampleOpen = k at *
  rw [(sameReply_iff (sampleTas teeSuccess) k hl outputMsg (by decide) hid ⟨0x20000100, 0⟩ hb
    oneByteTa []).1]
  exact hnot

/-- the client of the static TA still sees four bytes -/
theorem sameReply_fails : ¬ ∀ (ta : TaHead Unit) (l : List Nat),
    wp (teeIoctlInvoke (sampleTas teeSuccess) outputMsg)
      (fun r _ => wp (teeIoctlInvoke (sampleTas teeSuccess) outputMsg) (fun r' _ => r' = r)
        (sampleOpen.store 0x20000100 (.pseudoCtx ta)))
      (sampleOpen.store 0x20000100 (.userCtx ta l)) := by
  have hnot := oneByte_not_same
  have hl := sampleOpen_linked
  have hid : outputMsg msgSessionWord ∈ sampleOpen.openSessions := by decide +kernel
  have hb : sampleOpen.heap.blocks (outputMsg msgSessionWord)
      = some (.session ⟨0x20000100, 0⟩) := rfl
  generalize sampleOpen = k at *
  intro h
  have hrun := h oneByteTa []
  rw [dispatch_iff (sampleTas teeSuccess) hl (by decide) hid hb] at hrun
  exact hnot hrun

end MTower.Kernel
