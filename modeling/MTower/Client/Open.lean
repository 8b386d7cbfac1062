import MTower.Client.Invoke
import MTower.Client.Outcome

/-!
# `TEEC_OpenSession` from end to end

`tee_ioctl_open_session` does not convert the parameters of its request: it takes the words behind
its argument as a `tee_ta_param`.  There the types word is the attribute of slot 0 and, from slot 1
on, every parameter is one word off.

* `openSession_enters`  an open that enters its TA, as a function of the request;
* `openLikeInvoke_iff`  for which operations it gives the TA what an invoke would.
-/

set_option linter.unusedVariables false

namespace MTower.Client
open Lib
open Kernel (Words MsgParam msgParamAt Slot TeeParams TeeTaParam Uuid)

/-! ## the request -/

theorem octetAt_uuidWords {w : Words} {destination : Uuid}
    (hw : ∀ i < 4, w i = uuidWords destination i) {i : Nat} (hi : i < 16) :
    Kernel.octetAt w i = uuidToOctets destination i := by
  have hlt : ∀ j, uuidToOctets destination j < 256 := by
    intro j
    unfold uuidToOctets
    split
    · omega
    · split
      · omega
      · split <;> omega
  have hq : i / 4 < 4 := by omega
  have hr : i % 4 < 4 := by omega
  have h0 := hlt (4 * (i / 4))
  have h1 := hlt (4 * (i / 4) + 1)
  have h2 := hlt (4 * (i / 4) + 2)
  have h3 := hlt (4 * (i / 4) + 3)
  have hi' : i = 4 * (i / 4) + i % 4 := by omega
  unfold Kernel.octetAt
  rw [hw _ hq, uuidWords, if_pos hq]
  conv_rhs => rw [hi']
  generalize i / 4 = q at *
  generalize i % 4 = r at *
  have hcases : r = 0 ∨ r = 1 ∨ r = 2 ∨ r = 3 := by omega
  rcases hcases with rfl | rfl | rfl | rfl
  · simp only [Nat.pow_zero, Nat.add_zero]
    omega
  · simp only [Nat.pow_one]
    omega
  · show _ / 65536 % 256 = _
    omega
  · show _ / 16777216 % 256 = _
    omega

theorem teeUuidFromOctets_congr {s t : Nat → Nat} (h : ∀ i < 16, s i = t i) :
    Kernel.teeUuidFromOctets s = Kernel.teeUuidFromOctets t := by
  have hnode : (List.range 8).map (fun i => s (8 + i)) = (List.range 8).map fun i => t (8 + i) := by
    apply List.map_congr_left
    intro i hi
    have := List.mem_range.mp hi
    exact h (8 + i) (by omega)
  unfold Kernel.teeUuidFromOctets
  rw [hnode, h 0 (by decide), h 1 (by decide), h 2 (by decide), h 3 (by decide),
    h 4 (by decide), h 5 (by decide), h 6 (by decide), h 7 (by decide)]

/-- the UUID that the TEE reads from the request -/
def wireUuid (destination : Uuid) : Uuid := Kernel.teeUuidFromOctets (uuidToOctets destination)

theorem openArg_uuid (destination : Uuid) (login : Nat) {i : Nat} (hi : i < 4) :
    openArg destination login i = uuidWords destination i := by
  simp only [openArg, openArgCount, openArgClntLogin]
  rw [Function.update_of_ne (by omega), Function.update_of_ne (by omega)]

/-! ## the parameters as the TEE takes them -/

section
variable {op : TeecOperation} {block : Nat → Nat} {w : Words}

/-- the request holds the wire form of the operation -/
def Holds (op : TeecOperation) (block : Nat → Nat) (w : Words) : Prop :=
  ∀ n < 4, msgParamAt w (openArgWords + 4 * n) = wire op (block n) n

theorem Holds.types (h : Holds op block w) (h0 : Passed (op.type 0)) :
    (Kernel.rawTaParam w).types = op.type 0 := by
  have e := congrArg MsgParam.attr (h 0 (by decide))
  rw [wire_attr h0] at e
  exact e

theorem Holds.first (h : Holds op block w) :
    (Kernel.rawTaParam w).u 0 = (wire op (block 0) 0).u :=
  congrArg MsgParam.u (h 0 (by decide))

/-- slots 1 to 3 are empty -/
def OnlyFirst (op : TeecOperation) : Prop := ∀ n, 1 ≤ n → n < 4 → op.type n = teecNone

instance (op : TeecOperation) : Decidable (OnlyFirst op) :=
  decidable_of_iff (∀ n < 4, 1 ≤ n → op.type n = teecNone)
    ⟨fun h n h1 h4 => h n h4 h1, fun h n h4 h1 => h n h1 h4⟩

theorem wire_none {n b : Nat} (h : op.type n = teecNone) : wire op b n = ⟨0, .zero⟩ := by
  have hv : ¬ IsValue (op.type n) := fun hv => hv.not_none h
  have ht : ¬ IsTmpref (op.type n) := fun ht => ht.not_none h
  rw [wire, if_neg hv, if_neg ht]

/-- with empty slots the words of the later parameters are zero, wherever they are read from -/
theorem Holds.rest (h : Holds op block w) (ho : OnlyFirst op) {n : Nat} (h1 : 1 ≤ n)
    (h4 : n < 4) : (Kernel.rawTaParam w).u n = .zero := by
  have hz : ∀ i, openArgWords + 4 ≤ i → i < openArgWords + 16 → w i = 0 := by
    intro i hlo hhi
    have hm : 1 ≤ (i - openArgWords) / 4 := by omega
    have hm4 : (i - openArgWords) / 4 < 4 := by omega
    have e := h _ hm4
    rw [wire_none (ho _ hm hm4)] at e
    have ei : i = openArgWords + 4 * ((i - openArgWords) / 4) + (i - openArgWords) % 4 := by omega
    have hcases : (i - openArgWords) % 4 = 0 ∨ (i - openArgWords) % 4 = 1 ∨
        (i - openArgWords) % 4 = 2 ∨ (i - openArgWords) % 4 = 3 := by omega
    rw [ei]
    rcases hcases with hc | hc | hc | hc <;> rw [hc]
    · exact congrArg MsgParam.attr e
    · exact congrArg (fun p => p.u.a) e
    · exact congrArg (fun p => p.u.b) e
    · exact congrArg (fun p => p.u.c) e
  have hw : openArgWords = Kernel.openArgWords := rfl
  rw [hw] at hz
  show Slot.mk (w _) (w _) (w _) = _
  rw [hz _ (by omega) (by omega), hz _ (by omega) (by omega), hz _ (by omega) (by omega)]
  rfl

/-- an open gives what an invoke would give when slot 0 is the only one -/
theorem Holds.wireParam_eq (h : Holds op block w) (hty : ∀ n < 4, Passed (op.type n))
    (ho : OnlyFirst op) : (Kernel.rawTaParam w).types = (wireParam op block).types ∧
      ∀ n < 4, (Kernel.rawTaParam w).u n = (wireParam op block).u n := by
  have h0 := hty 0 (by decide)
  constructor
  · rw [h.types h0]
    show op.type 0 = Kernel.teeParamTypes (teeType (op.type 0)) (teeType (op.type 1))
      (teeType (op.type 2)) (teeType (op.type 3))
    rw [ho 1 (by decide) (by decide), ho 2 (by decide) (by decide), ho 3 (by decide) (by decide),
      h0.codes.1]
    show op.type 0 = op.type 0 ||| 0 ||| 0 ||| 0
    simp only [Nat.or_zero]
  · intro n hn
    show _ = if n < 4 then (wire op (block n) n).u else .zero
    rw [if_pos hn]
    by_cases hn0 : n = 0
    · subst hn0
      exact h.first
    · rw [h.rest ho (by omega) hn, wire_none (ho n (by omega) hn)]

/-- the types words agree only then -/
theorem onlyFirst_of_types (hty : ∀ n < 4, Passed (op.type n)) (h : teeTypes op = op.type 0) :
    OnlyFirst op := by
  intro n h1 h4
  have hw : (wireParam op fun _ => 0).types = op.type 0 := h
  have hget : Kernel.teeParamTypeGet (wireParam op fun _ => 0).types n = op.type n :=
    teeParamTypeGet_wire hty h4
  have hlt := (hty 0 (by decide)).lt
  rw [hw] at hget
  have hbig : op.type 0 < 2 ^ (n * 4) := by
    calc op.type 0 < 2 ^ 4 := by omega
      _ ≤ 2 ^ (n * 4) := Nat.pow_le_pow_right (by decide) (by omega)
  have hz : op.type 0 >>> (n * 4) = 0 := by
    rw [Nat.shiftRight_eq_div_pow]
    exact Nat.div_eq_of_lt hbig
  rw [← hget]
  show op.type 0 >>> (n * 4) &&& 0xF = 0
  rw [hz]
  rfl

/-- after the open, the words of slot 0 are where the client reads them -/
theorem openedWords_replies {τ : Type} (k : Kernel.State τ) (c : Kernel.Block τ)
    (ret : Kernel.OpenReturn τ) (ho : OnlyFirst op) :
    Replies op openArgWords (Kernel.openedWords k c w ret)
      (c.taken (Kernel.rawTaParam w) ret.params).u := by
  intro n hn
  by_cases h0 : n = 0
  · subst h0
    exact ⟨fun _ => ⟨rfl, rfl⟩, fun _ => rfl⟩
  · have hnone := ho n (by omega) hn
    rw [hnone]
    exact ⟨fun h => absurd h (by decide), fun h => absurd h (by decide)⟩

end

section
variable {υ : Type} {sys : System υ} {op : TeecOperation}

/-- **An open that enters its TA.** -/
theorem openSession_enters (tas : Kernel.Tas (Shared υ)) (hty : ∀ n < 4, Passed (op.type n))
    (ha : sys.heap.Serves (tempSizes op 4)) (ctx : TeecContext) (session : TeecSession)
    (destination : Uuid) (connectionMethod : Nat) {c : Kernel.Block (Shared υ)}
    {ta : Kernel.TaHead (Shared υ)}
    {f : Shared υ → Nat → TeeParams → Nat → Kernel.OpenReturn (Shared υ)}
    (hopen : Kernel.Openable tas sys.kernel (wireUuid destination))
    (hc : Kernel.findTa tas (wireUuid destination) = some c) (hta : c.head = some ta)
    (hf : ta.openSession = some f) :
    wp (teecOpenSession (direct tas) (some ctx) (some session) destination connectionMethod
      (some op)) (fun r t => ∃ w, Holds op (blockOf sys.heap op) w ∧
        (let p := Kernel.rawTaParam w
         let q := c.given tas (sys.packed op) p
         let ret := f (sys.packed op) p.types q 0
         t.kernel.calls
            = ⟨.openSession, sys.kernel.ctxAddr, 0, p.types, q, sys.packed op⟩ :: sys.kernel.calls ∧
          (OnlyFirst op → ∃ op', r.operation = some op' ∧
            Returned op (blockOf sys.heap op) (c.taken p ret.params).u ret.world.bytes sys.mem op'
              t.mem))) sys := by
  have hnull : ¬ (some ctx = none ∨ some session = none) :=
    not_or.mpr ⟨Option.some_ne_none _, Option.some_ne_none _⟩
  rw [teecOpenSession, if_neg hnull, wp_bind]
  refine wp_mono (preProcess_packed (openArg_zero destination connectionMethod)
    (marshals_of_passed hty ha)) ?_
  rintro ⟨res, w, shm⟩ u ⟨hr, hl⟩
  have hshm : ∀ n < 4, IsTmpref (op.type n) → (shm n).buffer = blockOf sys.heap op n :=
    fun n hn ht => (hl.shm n hn ht).1
  have hholds : Holds op (blockOf sys.heap op) w := hl.params
  have huuid : Kernel.teeUuidFromOctets (Kernel.octetAt w) = wireUuid destination := by
    refine teeUuidFromOctets_congr fun i hi => octetAt_uuidWords ?_ hi
    intro j hj
    have hj' : j < openArgWords := by
      unfold openArgWords
      omega
    rw [← openArg_uuid destination connectionMethod hj]
    exact hl.rest j (Or.inl hj')
  have hmem := hl.mem
  have hkernel : u.kernel = { sys.kernel with world := sys.packed op } := hl.kernel
  clear hl
  obtain ⟨um, uh, uk⟩ := u
  simp only at hmem hkernel
  subst hmem hkernel
  rw [if_neg (fun h => h hr), wp_bind, wp_send_direct]
  show wp (Kernel.teeIoctlOpenSession tas w) _ { sys.kernel with world := sys.packed op }
  rw [← huuid] at hopen hc
  refine wp_mono (Kernel.ioctlOpenSession_opened tas (w := w) hopen hc hta hf) ?_
  rintro o t ⟨rfl, hcalls, hworld⟩
  show wp (if (0 : Nat) ≠ 0 then _ else _) _ _
  rw [if_neg (fun h => h rfl), wp_bind]
  refine wp_mono (postProcess_back op openArgWords _ _) ?_
  rintro o v ⟨op', rfl, hback⟩
  rw [wp_pure]
  refine ⟨w, hholds, ?_, fun ho => ⟨op', rfl, ?_⟩⟩
  · rw [hback.state]
    exact hcalls
  · have h := hback.returned (openedWords_replies _ c _ ho) hshm
    rw [hworld] at h
    exact h

theorem given_congr (c : Kernel.Block (Shared υ)) (tas : Kernel.Tas (Shared υ)) (world : Shared υ)
    {p p' : TeeTaParam} (ht : p.types = p'.types) (hu : ∀ n < 4, p.u n = p'.u n) :
    c.given tas world p = c.given tas world p' := by
  have hparams : p.params = p'.params := funext fun i => hu i i.isLt
  cases c with
  | session _ => exact hparams
  | userCtx _ _ => exact hparams
  | pseudoCtx ta =>
    funext i
    show (if _ then _ else _) = if _ then _ else _
    rw [ht, hu i i.isLt]

/-- a user TA works on the `tee_ta_param` itself -/
theorem taken_user {c : Kernel.Block (Shared υ)} (hc : ∀ ta, c ≠ .pseudoCtx ta) (p : TeeTaParam)
    (q : TeeParams) {n : Nat} (hn : n < 4) : (c.taken p q).u n = leftOf q n := by
  have e : (p.write q).u n = leftOf q n := by
    show (if h : n < 4 then q ⟨n, h⟩ else p.u n) = if h : n < 4 then q ⟨n, h⟩ else .zero
    rw [dif_pos hn, dif_pos hn]
  cases c with
  | session _ => exact e
  | userCtx _ _ => exact e
  | pseudoCtx ta => exact absurd rfl (hc ta)

/-- of a static TA only value outputs come back -/
theorem taken_static (ta : Kernel.TaHead (Shared υ)) (p : TeeTaParam) (q : TeeParams) {n : Nat}
    (hn : n < 4) : ((Kernel.Block.pseudoCtx ta).taken p q).u n
      = if IsValueOut (Kernel.teeParamTypeGet p.types n)
        then ⟨(leftOf q n).a, (leftOf q n).b, (p.u n).c⟩ else p.u n := by
  show (if h : n < 4 then _ else _) = _
  rw [dif_pos hn, leftOf, dif_pos hn]
  rfl

/-! ## open and invoke -/

/-- `call` is what the invoke entry point of the TA of `c` gets for the operation: the same types
word, parameters and blocks, from every state of the TEE with a live session of that TA -/
def LikeInvoke (tas : Kernel.Tas (Shared υ)) (sys : System υ) (op : TeecOperation)
    (ctx : TeecContext) (c : Kernel.Block (Shared υ)) (call : Kernel.Call (Shared υ)) : Prop :=
  ∀ (k : Kernel.State (Shared υ)) (id cmd : Nat) (b : Kernel.Session), Kernel.Linked k →
    k.world = sys.kernel.world → id ∈ k.openSessions → k.heap.blocks id = some (.session b) →
    k.heap.blocks b.ctx = some c →
    wp (teecInvokeCommand (direct tas) (some ⟨some ctx, id⟩) cmd (some op)) (fun _ t => ∃ call',
      t.kernel.calls = call' :: k.calls ∧ call'.types = call.types ∧
      call'.params = call.params ∧ call'.world = call.world) { sys with kernel := k }

/-- The open entry point `f` is entered as an invoke would enter its TA, and what it leaves comes
back to the client. -/
def OpenLikeInvoke (tas : Kernel.Tas (Shared υ)) (sys : System υ) (op : TeecOperation)
    (ctx : TeecContext) (session : TeecSession) (destination : Uuid) (connectionMethod : Nat)
    (c : Kernel.Block (Shared υ))
    (f : Shared υ → Nat → TeeParams → Nat → Kernel.OpenReturn (Shared υ)) : Prop :=
  wp (teecOpenSession (direct tas) (some ctx) (some session) destination connectionMethod
    (some op)) (fun r t => ∃ call, t.kernel.calls = call :: sys.kernel.calls ∧
      LikeInvoke tas sys op ctx c call ∧
      (let ret := f call.world call.types call.params 0
       ∃ op', r.operation = some op' ∧ Returned op (fun n => (leftOf call.params n).a)
        (leftOf ret.params) ret.world.bytes sys.mem op' t.mem)) sys

/-- what the open entry point returns when it gets the operation as an invoke gives it -/
def openReturn (tas : Kernel.Tas (Shared υ)) (sys : System υ) (op : TeecOperation)
    (c : Kernel.Block (Shared υ))
    (f : Shared υ → Nat → TeeParams → Nat → Kernel.OpenReturn (Shared υ)) :
    Kernel.OpenReturn (Shared υ) :=
  f (sys.packed op) (teeTypes op)
    (c.given tas (sys.packed op) (wireParam op (blockOf sys.heap op))) 0

theorem likeInvoke_wireParam (tas : Kernel.Tas (Shared υ)) (hty : ∀ n < 4, Passed (op.type n))
    (ha : sys.heap.Serves (tempSizes op 4)) (ctx : TeecContext) {c : Kernel.Block (Shared υ)}
    {ta : Kernel.TaHead (Shared υ)} (hta : c.head = some ta) (kind : Kernel.EntryKind)
    (a cmd : Nat) : LikeInvoke tas sys op ctx c ⟨kind, a, cmd, teeTypes op,
      c.given tas (sys.packed op) (wireParam op (blockOf sys.heap op)), sys.packed op⟩ := by
  intro k id cmd b hk hworld hid hb hc
  have hpacked : System.packed { sys with kernel := k } op = sys.packed op := by
    unfold System.packed
    simp only [hworld]
  have henter := @invokeCommand_enters υ { sys with kernel := k } op tas hk hty ha ctx id cmd b c
    ta hid hb hc hta
  refine wp_mono henter ?_
  rintro r t ⟨hcalls, -⟩
  rw [hpacked] at hcalls
  exact ⟨_, hcalls, rfl, rfl, rfl⟩

/-- the types word of an invoke; there is one: of the session that this very open creates -/
theorem LikeInvoke.types_eq {tas : Kernel.Tas (Shared υ)} {ctx : TeecContext}
    {c : Kernel.Block (Shared υ)} {call : Kernel.Call (Shared υ)} {uuid : Uuid}
    {ta : Kernel.TaHead (Shared υ)} (hlike : LikeInvoke tas sys op ctx c call)
    (hk : Kernel.Linked sys.kernel) (hty : ∀ n < 4, Passed (op.type n))
    (ha : sys.heap.Serves (tempSizes op 4)) (hopen : Kernel.Openable tas sys.kernel uuid)
    (hc : Kernel.findTa tas uuid = some c) (hta : c.head = some ta) :
    call.types = teeTypes op := by
  have hl : Kernel.Linked (sys.kernel.withNew c) := hk.withNew hopen (Kernel.findTa_isCtx hc)
  obtain ⟨-, -, -, -, hne⟩ := hopen.fresh
  have hs : (sys.kernel.withNew c).heap.blocks sys.kernel.sessAddr
      = some (.session ⟨sys.kernel.ctxAddr, 0⟩) := by
    show Function.update (Function.update sys.kernel.heap.blocks sys.kernel.sessAddr _)
      sys.kernel.ctxAddr _ sys.kernel.sessAddr = _
    rw [Function.update_of_ne hne.symm, Function.update_self]
  have hcb : (sys.kernel.withNew c).heap.blocks sys.kernel.ctxAddr = some c :=
    Function.update_self _ _ _
  have h1 := hlike _ sys.kernel.sessAddr 0 _ hl rfl List.mem_cons_self hs hcb
  have h2 := likeInvoke_wireParam tas hty ha ctx hta .openSession 0 0 _ sys.kernel.sessAddr 0 _ hl
    rfl List.mem_cons_self hs hcb
  obtain ⟨r, t, e, call1, hc1, ht1, -⟩ := wp_iff.mp h1
  obtain ⟨call2, hc2, ht2, -⟩ := (wp_of_eq e).mp h2
  rw [hc1] at hc2
  obtain ⟨rfl, -⟩ := List.cons.inj hc2
  exact ht1.symm.trans ht2

/-- the buffer of a reference is its block -/
theorem given_tmpref (c : Kernel.Block (Shared υ)) (tas : Kernel.Tas (Shared υ))
    (world : Shared υ) (block : Nat → Nat) (hty : ∀ n < 4, Passed (op.type n)) {n : Nat}
    (hn : n < 4) (ht : IsTmpref (op.type n)) :
    (leftOf (c.given tas world (wireParam op block)) n).a = block n := by
  have e : (wireParam op block).params ⟨n, hn⟩ = ⟨block n, (op.params n).size, 0⟩ :=
    wireParam_tmpref block (i := ⟨n, hn⟩) ht
  have hparams : ((wireParam op block).params ⟨n, hn⟩).a = block n := by rw [e]
  rw [leftOf, dif_pos hn]
  cases c with
  | session _ => exact hparams
  | userCtx _ _ => exact hparams
  | pseudoCtx ta =>
    have htype : Kernel.teeParamTypeGet (wireParam op block).types n = op.type n :=
      teeParamTypeGet_wire hty hn
    have hmem : Kernel.IsValue (Kernel.teeParamTypeGet (wireParam op block).types n) ∨
        Kernel.IsMemref (Kernel.teeParamTypeGet (wireParam op block).types n) := by
      rw [htype]
      exact Or.inr ht
    show (if _ then _ else _ : Slot).a = _
    rw [if_pos hmem]
    exact hparams

/-- the size in a reference that a static TA cannot change -/
theorem taken_static_size (ta : Kernel.TaHead (Shared υ)) (block : Nat → Nat) (q : TeeParams)
    (hty : ∀ n < 4, Passed (op.type n)) {p : TeeTaParam}
    (hp : p.types = (wireParam op block).types) (hu : ∀ n < 4, p.u n = (wireParam op block).u n)
    {n : Nat} (hn : n < 4) (ho : IsTmprefOut (op.type n)) :
    (((Kernel.Block.pseudoCtx ta).taken p q).u n).b = (op.params n).size := by
  have ht := ((isTmprefOut_iff _).mp ho).1
  have e : (wireParam op block).u n = ⟨block n, (op.params n).size, 0⟩ :=
    wireParam_tmpref block (i := ⟨n, hn⟩) ht
  have hnv : ¬ IsValueOut (Kernel.teeParamTypeGet p.types n) := by
    rw [hp, teeParamTypeGet_wire hty hn]
    unfold IsTmprefOut teecMemrefTempOutput teecMemrefTempInout at ho
    unfold IsValueOut teecValueOutput teecValueInout
    omega
  rw [taken_static ta p q hn, if_neg hnv, hu n hn, e]

theorem OpenLikeInvoke.onlyFirst {tas : Kernel.Tas (Shared υ)} {ctx : TeecContext}
    {session : TeecSession} {destination : Uuid} {connectionMethod : Nat}
    {c : Kernel.Block (Shared υ)} {ta : Kernel.TaHead (Shared υ)}
    {f : Shared υ → Nat → TeeParams → Nat → Kernel.OpenReturn (Shared υ)}
    (h : OpenLikeInvoke tas sys op ctx session destination connectionMethod c f)
    (hk : Kernel.Linked sys.kernel) (hty : ∀ n < 4, Passed (op.type n))
    (ha : sys.heap.Serves (tempSizes op 4))
    (hopen : Kernel.Openable tas sys.kernel (wireUuid destination))
    (hc : Kernel.findTa tas (wireUuid destination) = some c) (hta : c.head = some ta)
    (hf : ta.openSession = some f) : OnlyFirst op := by
  obtain ⟨r, t, e, w, hw, hcalls, -⟩ := wp_iff.mp
    (openSession_enters tas hty ha ctx session destination connectionMethod hopen hc hta hf)
  obtain ⟨call, hcall, hlike, -⟩ := (wp_of_eq e).mp h
  rw [hcalls] at hcall
  obtain ⟨rfl, -⟩ := List.cons.inj hcall
  refine onlyFirst_of_types hty ?_
  rw [← hw.types (hty 0 (by decide))]
  exact (hlike.types_eq hk hty ha hopen hc hta).symm

/-- **When an open gives its TA what an invoke would**: slot 0 is the only one in use, and a static
TA leaves the size of an output reference in it. -/
theorem openLikeInvoke_iff (tas : Kernel.Tas (Shared υ)) (sys : System υ)
    (hk : Reached tas sys.kernel) (op : TeecOperation) (hty : ∀ n < 4, Passed (op.type n))
    (ha : sys.heap.Serves (tempSizes op 4)) (ctx : TeecContext) (session : TeecSession)
    (destination : Uuid) (connectionMethod : Nat)
    (hopen : Kernel.Openable tas sys.kernel (wireUuid destination))
    (c : Kernel.Block (Shared υ)) (hc : Kernel.findTa tas (wireUuid destination) = some c)
    (ta : Kernel.TaHead (Shared υ)) (hta : c.head = some ta)
    (f : Shared υ → Nat → TeeParams → Nat → Kernel.OpenReturn (Shared υ))
    (hf : ta.openSession = some f) :
    OpenLikeInvoke tas sys op ctx session destination connectionMethod c f ↔
      OnlyFirst op ∧ (c = .pseudoCtx ta → IsTmprefOut (op.type 0) →
        ((openReturn tas sys op c f).params 0).b = (op.params 0).size) := by
  obtain ⟨r, t, e, w, hw, hcalls, hret⟩ := wp_iff.mp
    (openSession_enters tas hty ha ctx session destination connectionMethod hopen hc hta hf)
  have hsame : OnlyFirst op → c.given tas (sys.packed op) (Kernel.rawTaParam w)
      = c.given tas (sys.packed op) (wireParam op (blockOf sys.heap op)) := fun ho =>
    given_congr c tas _ (hw.wireParam_eq hty ho).1 (hw.wireParam_eq hty ho).2
  have htypes : OnlyFirst op → (Kernel.rawTaParam w).types = teeTypes op := fun ho =>
    (hw.wireParam_eq hty ho).1
  constructor
  · intro h
    have honly := h.onlyFirst hk.table.linked hty ha hopen hc hta hf
    obtain ⟨call, hcall, -, op', hop, hr⟩ := (wp_of_eq e).mp h
    rw [hcalls] at hcall
    obtain ⟨rfl, -⟩ := List.cons.inj hcall
    refine ⟨honly, fun hps hto => ?_⟩
    obtain ⟨op'', hop'', hr''⟩ := hret honly
    rw [hop] at hop''
    obtain rfl := Option.some.inj hop''
    have h1 := hr.params 0 (by decide)
    have h2 := hr''.params 0 (by decide)
    have hnv : ¬ IsValueOut (op.type 0) := by
      unfold IsTmprefOut teecMemrefTempOutput teecMemrefTempInout at hto
      unfold IsValueOut teecValueOutput teecValueInout
      omega
    rw [h2, backParam, backParam, if_neg hnv, if_neg hnv, if_pos hto, if_pos hto] at h1
    have hb := congrArg TeecParameter.b h1
    subst hps
    simp only at hb
    rw [taken_static_size ta _ _ hty (htypes honly) (hw.wireParam_eq hty honly).2 (by decide) hto,
      hsame honly, htypes honly] at hb
    exact hb.symm
  · rintro ⟨honly, hstatic⟩
    rw [OpenLikeInvoke, wp_of_eq e]
    have hp := (hw.wireParam_eq hty honly).1
    have hu := (hw.wireParam_eq hty honly).2
    rw [hsame honly, htypes honly] at hcalls
    have hret := hret honly
    rw [hsame honly, htypes honly] at hret
    refine ⟨_, hcalls, likeInvoke_wireParam tas hty ha ctx hta _ _ _, ?_⟩
    obtain ⟨op', hop, hr⟩ := hret
    refine ⟨op', hop, hr.congr ?_ ?_ ?_⟩
    · exact fun n hn ht => given_tmpref c tas _ _ hty hn ht
    · intro n hn hv
      by_cases hps : c = .pseudoCtx ta
      · subst hps
        have hv' : IsValueOut (Kernel.teeParamTypeGet (Kernel.rawTaParam w).types n) := by
          rw [hp, teeParamTypeGet_wire hty hn]
          exact hv
        rw [taken_static ta _ _ hn, if_pos hv']
        exact ⟨rfl, rfl⟩
      · rw [taken_user ?_ _ _ hn]
        · exact ⟨rfl, rfl⟩
        · rintro ta' rfl
          cases hta
          exact hps rfl
    · intro n hn ho
      have hn0 : n = 0 := by
        by_contra hn0
        rw [honly n (by omega) hn] at ho
        exact absurd ho (by decide)
      subst hn0
      by_cases hps : c = .pseudoCtx ta
      · have hsz := hstatic hps ho
        subst hps
        rw [taken_static_size ta _ _ hty hp hu hn ho]
        exact hsz
      · rw [taken_user ?_ _ _ hn]
        rintro ta' rfl
        cases hta
        exact hps rfl

end

/-- a pair in slot `n` -/
def pairOp (n : Nat) : TeecOperation where
  paramTypes := teecValueInput <<< (4 * n)
  params := fun _ => ⟨5, 7, 0⟩
  session := none

/-- the open entry point of the sample TA -/
def aliasOpen : Shared Unit → Nat → TeeParams → Nat → Kernel.OpenReturn (Shared Unit) :=
  fun w _ p u => ⟨Kernel.teeSuccess, p, u, w⟩

/-- the hypotheses of an open hold of the sample, with a pair in any slot -/
theorem bootSystem_ready : Reached aliasTas bootSystem.kernel ∧
    Kernel.Openable aliasTas bootSystem.kernel (wireUuid aliasTa.uuid) ∧
    Kernel.findTa aliasTas (wireUuid aliasTa.uuid) = some (.userCtx aliasTa []) ∧
    (∀ m < 4, ∀ n < 4, Passed ((pairOp m).type n)) ∧
    ∀ m < 4, bootSystem.heap.Serves (tempSizes (pairOp m) 4) :=
  ⟨.boot _ _, by decide +kernel, rfl, by decide, by decide⟩

theorem openLikeInvoke_iff_first : OpenLikeInvoke aliasTas bootSystem (pairOp 0)
    teecInitializeContext ⟨none, 0⟩ aliasTa.uuid 0 (.userCtx aliasTa []) aliasOpen := by
  obtain ⟨hk, hopen, hc, hty, ha⟩ := bootSystem_ready
  have hty := hty 0 (by decide)
  have ha := ha 0 (by decide)
  have honly : OnlyFirst (pairOp 0) := by decide
  generalize bootSystem = sys at *
  exact (openLikeInvoke_iff aliasTas sys hk (pairOp 0) hty ha teecInitializeContext ⟨none, 0⟩
    aliasTa.uuid 0 hopen (.userCtx aliasTa []) hc aliasTa rfl aliasOpen rfl).mpr
    ⟨honly, fun h => nomatch h⟩

/-- a pair in slot 1 does not arrive: the types word of the open has no slot 1 -/
theorem openLikeInvoke_fails : ¬ OpenLikeInvoke aliasTas bootSystem (pairOp 1)
    teecInitializeContext ⟨none, 0⟩ aliasTa.uuid 0 (.userCtx aliasTa []) aliasOpen := by
  obtain ⟨hk, hopen, hc, hty, ha⟩ := bootSystem_ready
  have hty := hty 1 (by decide)
  have ha := ha 1 (by decide)
  have honly : ¬ OnlyFirst (pairOp 1) := by decide
  generalize bootSystem = sys at *
  intro h
  exact honly (h.onlyFirst hk.table.linked hty ha hopen hc rfl rfl)

end MTower.Client
