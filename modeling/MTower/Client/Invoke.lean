import MTower.Client.Marshal

/-!
# `TEEC_InvokeCommand` from end to end

An operation crosses five layouts on its way to a TA and back: `TEEC_Operation`, `tee_ioctl_param`,
`optee_msg_param`, `tee_ta_param` and `TEE_Param`.  `wireParam` is what arrives, as a function of the
operation and of the allocator; `Given` and `Returned` say what the two directions mean to the client.

* `invokeCommand_enters`        an invoke of a live session of any TA, as a function of the operation;
* `teecInvokeCommand_delivers`  what a user TA gets and what it leaves.
-/

set_option linter.unusedVariables false

namespace MTower.Client
open Lib
open Kernel (Words MsgParam msgParamAt msgParams Slot TeeParams TeeTaParam teeParamTypes)

/-! ## the message -/

/-- the seven types of the marshalling -/
def Passed (type : Nat) : Prop := type = teecNone ∨ IsValue type ∨ IsTmpref type

instance (type : Nat) : Decidable (Passed type) := inferInstanceAs (Decidable (_ ∨ _ ∨ _))

/-- the `TEE_PARAM_TYPE_*` of a `TEEC_*` type -/
def teeType (type : Nat) : Nat :=
  if type = teecValueInput then Kernel.paramTypeValueInput
  else if type = teecValueOutput then Kernel.paramTypeValueOutput
  else if type = teecValueInout then Kernel.paramTypeValueInout
  else if type = teecMemrefTempInput then Kernel.paramTypeMemrefInput
  else if type = teecMemrefTempOutput then Kernel.paramTypeMemrefOutput
  else if type = teecMemrefTempInout then Kernel.paramTypeMemrefInout
  else Kernel.paramTypeNone

/-- `TEE_PARAM_TYPES` of the types of an operation -/
def teeTypes (op : TeecOperation) : Nat :=
  teeParamTypes (teeType (op.type 0)) (teeType (op.type 1)) (teeType (op.type 2))
    (teeType (op.type 3))

/-- the `tee_ta_param` of an operation whose slot `n` has the block `block n` -/
def wireParam (op : TeecOperation) (block : Nat → Nat) : TeeTaParam where
  types := teeTypes op
  u := fun n => if n < 4 then (wire op (block n) n).u else .zero

section
variable {op : TeecOperation}

theorem Passed.supported {type : Nat} (h : Passed type) : Supported type :=
  h.elim Or.inl fun h => h.elim (fun h => Or.inr (Or.inl h)) fun h => Or.inr (Or.inr (Or.inl h))

theorem Passed.lt {type : Nat} (h : Passed type) : type < 8 := by
  unfold Passed IsValue IsTmpref teecNone teecValueInput teecValueOutput teecValueInout
    teecMemrefTempInput teecMemrefTempOutput teecMemrefTempInout at h
  omega

/-- the two numberings agree, and `copy_in_params` knows each of the codes -/
theorem Passed.teeType_eq {type : Nat} (h : Passed type) : teeType type = type := by
  rcases h with rfl | (rfl | rfl | rfl) | rfl | rfl | rfl <;> rfl

theorem Supported.codes {type : Nat} (h : Supported type) :
    Kernel.typeOfAttr (teeType type) = some (teeType type) ∧
      teeType type &&& 0xff = teeType type ∧ teeType type < 8 := by
  rcases h with rfl | (rfl | rfl | rfl) | (rfl | rfl | rfl) | rfl | rfl | rfl | rfl <;> decide

theorem Passed.codes {type : Nat} (h : Passed type) :
    teeType type = type ∧ Kernel.typeOfAttr type = some type ∧ type &&& 0xff = type := by
  have hc := h.supported.codes
  rw [h.teeType_eq] at hc
  exact ⟨h.teeType_eq, hc.1, hc.2.1⟩

/-- a registered reference travels as `TEEC_NONE` -/
theorem wire_teeType {block n : Nat} (h : Supported (op.type n)) :
    (wire op block n).attr = teeType (op.type n) := by
  unfold wire
  by_cases hv : IsValue (op.type n)
  · rw [if_pos hv, Passed.teeType_eq (Or.inr (Or.inl hv))]
  rw [if_neg hv]
  by_cases ht : IsTmpref (op.type n)
  · rw [if_pos ht, Passed.teeType_eq (Or.inr (Or.inr ht))]
  rw [if_neg ht]
  rcases h with h | h | h | h
  · rw [h]
    rfl
  · exact absurd h hv
  · exact absurd h ht
  · rcases h with h | h | h | h <;> rw [h] <;> rfl

theorem wire_attr {block n : Nat} (h : Passed (op.type n)) :
    (wire op block n).attr = op.type n := by
  rw [wire_teeType h.supported, h.teeType_eq]

theorem slotOfMsg_wire {block n : Nat} (h : Supported (op.type n)) :
    Kernel.slotOfMsg (wire op block n) = (wire op block n).u := by
  unfold Kernel.slotOfMsg
  rw [wire_teeType h, show Kernel.msgAttrTypeMask = 0xff from rfl, h.codes.2.1]
  unfold wire
  by_cases hv : IsValue (op.type n)
  · have h0 : teeType (op.type n) ≠ 0 := by
      rw [Passed.teeType_eq (Or.inr (Or.inl hv))]
      exact hv.not_none
    rw [if_neg h0, if_pos hv]
  rw [if_neg hv]
  by_cases ht : IsTmpref (op.type n)
  · have h0 : teeType (op.type n) ≠ 0 := by
      rw [Passed.teeType_eq (Or.inr (Or.inr ht))]
      exact ht.not_none
    rw [if_neg h0, if_pos ht]
  · rw [if_neg ht]
    split <;> rfl

variable {block : Nat → Nat} {w : Words}

theorem msgTaParam_wire (hty : ∀ n < 4, Supported (op.type n))
    (hw : ∀ n < 4, msgParams w n = wire op (block n) n) :
    Kernel.Typed (msgParams w) 4 ∧ Kernel.msgTaParam w = wireParam op block := by
  have hattr : ∀ n < 4, Kernel.typeOfAttr (msgParams w n).attr = some (teeType (op.type n)) := by
    intro n hn
    rw [hw n hn, wire_teeType (hty n hn)]
    exact (hty n hn).codes.1
  constructor
  · intro n hn
    rw [hattr n hn]
    rfl
  · have hu : Kernel.slotsIn (msgParams w) 4
        = fun n => if n < 4 then (wire op (block n) n).u else .zero := by
      funext n
      unfold Kernel.slotsIn filled
      by_cases hn : n < 4
      · rw [if_pos hn, if_pos hn]
        show Kernel.slotOfMsg (msgParams w n) = _
        rw [hw n hn, slotOfMsg_wire (hty n hn)]
      · rw [if_neg hn, if_neg hn]
    unfold Kernel.msgTaParam wireParam Kernel.msgTypes teeTypes
    rw [hu, hattr 0 (by decide), hattr 1 (by decide), hattr 2 (by decide), hattr 3 (by decide)]
    rfl

theorem typeGet_wire (hty : ∀ n < 4, Supported (op.type n)) {n : Nat} (hn : n < 4) :
    Kernel.teeParamTypeGet (wireParam op block).types n = teeType (op.type n) := by
  refine Kernel.teeParamTypeGet_teeParamTypes (t := fun n => teeType (op.type n)) ?_ hn
  intro i hi
  show teeType (op.type i) < 16
  have := (hty i (by omega)).codes.2.2
  omega

/-- the type of slot `n`, as `copy_out_param` and the static TAs read it -/
theorem teeParamTypeGet_wire (hty : ∀ n < 4, Passed (op.type n)) {n : Nat} (hn : n < 4) :
    Kernel.teeParamTypeGet (wireParam op block).types n = op.type n := by
  rw [typeGet_wire (fun n hn => (hty n hn).supported) hn, (hty n hn).teeType_eq]

end

/-! ## what the client gets back -/

/-- The operation and the memory of the client after a call that left `left` in the parameters and
`bytes` in the blocks: a value output is the pair, an output reference has the new size, other
slots are unchanged; a byte that several output references cover is the one of the last slot. -/
structure Returned (op : TeecOperation) (block : Nat → Nat) (left : Nat → Slot)
    (bytes : Nat → Nat → UInt8) (m : Mem) (op' : TeecOperation) (m' : Mem) : Prop where
  types : op'.paramTypes = op.paramTypes
  params : ∀ n < 4, op'.params n = backParam op n (left n).a (left n).b
  kept : ∀ a, (∀ n < 4, ¬ Covers op (fun i => (left i).b) n a) → m' a = m a
  last : ∀ n < 4, ∀ a, Covers op (fun i => (left i).b) n a →
    (∀ n', n < n' → n' < 4 → ¬ Covers op (fun i => (left i).b) n' a) →
    m' a = bytes (block n) (a - (op.params n).buffer)

section
variable {υ : Type} {op op' : TeecOperation} {base : Nat} {w : Words}
  {shm : Nat → TeecSharedMemory} {t u : System υ} {block : Nat → Nat} {left : Nat → Slot}

/-- the reply has the output words of `left` -/
def Replies (op : TeecOperation) (base : Nat) (w : Words) (left : Nat → Slot) : Prop :=
  ∀ n < 4,
    (IsValueOut (op.type n) → w (firstWord base n) = (left n).a ∧
      w (secondWord base n) = (left n).b) ∧
    (IsTmprefOut (op.type n) → w (secondWord base n) = (left n).b)

theorem Replies.covers (hw : Replies op base w left) {n a : Nat} (hn : n < 4) :
    Covers op (fun i => w (secondWord base i)) n a ↔ Covers op (fun i => (left i).b) n a := by
  unfold Covers
  refine and_congr_right fun ho => ?_
  have e := (hw n hn).2 ho
  simp only [e]

theorem Back.returned (hb : Back op base ⟨w, shm⟩ t 4 op' u) (hw : Replies op base w left)
    (hs : ∀ n < 4, IsTmpref (op.type n) → (shm n).buffer = block n) :
    Returned op block left t.kernel.world.bytes t.mem op' u.mem := by
  refine ⟨hb.types, ?_, ?_, ?_⟩
  · intro n hn
    rw [hb.done n hn]
    show backParam op n (w (firstWord base n)) (w (secondWord base n)) = _
    unfold backParam
    by_cases hv : IsValueOut (op.type n)
    · rw [if_pos hv, if_pos hv, ((hw n hn).1 hv).1, ((hw n hn).1 hv).2]
    rw [if_neg hv, if_neg hv]
    by_cases ho : IsTmprefOut (op.type n)
    · rw [if_pos ho, if_pos ho, (hw n hn).2 ho]
    · rw [if_neg ho, if_neg ho]
  · intro a ha
    refine hb.kept a fun n hn hc => ha n hn ?_
    exact (hw.covers hn).mp hc
  · intro n hn a hc hl
    rw [← hs n hn ((isTmprefOut_iff _).mp hc.1).1]
    refine hb.last n hn a ((hw.covers hn).mpr hc) ?_
    exact fun n' h1 h2 hc' => hl n' h1 h2 ((hw.covers h2).mp hc')

/-- only the words of output slots matter -/
theorem Returned.congr {block' : Nat → Nat} {left' : Nat → Slot} {bytes : Nat → Nat → UInt8}
    {m m' : Mem} (h : Returned op block left bytes m op' m')
    (hb : ∀ n < 4, IsTmpref (op.type n) → block' n = block n)
    (hv : ∀ n < 4, IsValueOut (op.type n) → (left' n).a = (left n).a ∧ (left' n).b = (left n).b)
    (ho : ∀ n < 4, IsTmprefOut (op.type n) → (left' n).b = (left n).b) :
    Returned op block' left' bytes m op' m' := by
  have hcov : ∀ n < 4, ∀ a, Covers op (fun i => (left' i).b) n a ↔
      Covers op (fun i => (left i).b) n a := by
    intro n hn a
    unfold Covers
    refine and_congr_right fun hout => ?_
    simp only [ho n hn hout]
  refine ⟨h.types, ?_, ?_, ?_⟩
  · intro n hn
    rw [h.params n hn]
    unfold backParam
    by_cases hvo : IsValueOut (op.type n)
    · rw [if_pos hvo, if_pos hvo, (hv n hn hvo).1, (hv n hn hvo).2]
    rw [if_neg hvo, if_neg hvo]
    by_cases hto : IsTmprefOut (op.type n)
    · rw [if_pos hto, if_pos hto, ho n hn hto]
    · rw [if_neg hto, if_neg hto]
  · intro a ha
    exact h.kept a fun n hn hc => ha n hn ((hcov n hn a).mpr hc)
  · intro n hn a hc hlast
    rw [hb n hn ((isTmprefOut_iff _).mp hc.1).1]
    refine h.last n hn a ((hcov n hn a).mp hc) ?_
    exact fun n' h1 h2 hc' => hlast n' h1 h2 ((hcov n' h2 a).mpr hc')

theorem IsValueOut.teeType_eq {type : Nat} (h : IsValueOut type) : teeType type = type := by
  rcases h with rfl | rfl <;> rfl

theorem IsTmprefOut.teeType_eq {type : Nat} (h : IsTmprefOut type) : teeType type = type := by
  rcases h with rfl | rfl <;> rfl

/-- `copy_out_param` on the parameters of an operation -/
theorem copyOut_replies (res : Nat) (hty : ∀ n < 4, Supported (op.type n))
    (hw : ∀ n < 4, msgParams w n = wire op (block n) n) {p : TeeTaParam}
    (hp : p.types = (wireParam op block).types) :
    Replies op invokeArgWords (Function.update (Kernel.copyOutParam p 4
      (Kernel.attrsIn (msgParams w) 4) Kernel.msgParamsWord w) Kernel.msgRetWord res) p.u := by
  intro n hn
  have htype : Kernel.teeParamTypeGet p.types n = teeType (op.type n) := by
    rw [hp, typeGet_wire hty hn]
  have hne1 : firstWord invokeArgWords n ≠ Kernel.msgRetWord := by
    simp only [firstWord, invokeArgWords, Kernel.msgRetWord]
    omega
  have hne2 : secondWord invokeArgWords n ≠ Kernel.msgRetWord := by
    simp only [secondWord, invokeArgWords, Kernel.msgRetWord]
    omega
  rw [Function.update_of_ne hne1, Function.update_of_ne hne2]
  constructor
  · intro hv
    refine Kernel.copyOutParam_value p _ _ w hn ?_
    rw [htype, hv.teeType_eq]
    exact hv
  · intro ho
    have hattr : Kernel.attrsIn (msgParams w) 4 n &&& Kernel.msgAttrTypeMask = op.type n := by
      unfold Kernel.attrsIn
      rw [filled_lt _ _ hn, hw n hn, wire_teeType (hty n hn)]
      exact (hty n hn).codes.2.1.trans ho.teeType_eq
    refine Kernel.copyOutParam_memref p _ _ w hn ?_ ?_
    · rw [htype, ho.teeType_eq]
      exact ho
    · rw [hattr]
      exact Or.inr (Or.inr ho)

end

/-! ## an invoke -/

section
variable {υ : Type} {sys : System υ} {op : TeecOperation}

/-- the operation with `operation->session` set -/
def TeecOperation.within (op : TeecOperation) (session : TeecSession) : TeecOperation :=
  { op with session := some session }

theorem tempSizes_within (op : TeecOperation) (session : TeecSession) (n : Nat) :
    tempSizes (op.within session) n = tempSizes op n := by
  induction n with
  | zero => rfl
  | succ n ih =>
    rw [tempSizes, tempSizes, ih]
    rfl

theorem blockOf_within (h : Heap Nat) (op : TeecOperation) (session : TeecSession) (n : Nat) :
    blockOf h (op.within session) n = blockOf h op n := by
  rw [blockOf, tempSizes_within, blockOf]

theorem Returned.of_within {session : TeecSession} {block : Nat → Nat} {left : Nat → Slot}
    {bytes : Nat → Nat → UInt8} {m m' : Mem} {op' : TeecOperation}
    (h : Returned (op.within session) block left bytes m op' m') :
    Returned op block left bytes m op' m' :=
  ⟨h.types, h.params, h.kept, h.last⟩

theorem packedBytes_within (op : TeecOperation) (session : TeecSession) (h : Heap Nat) (m : Mem)
    (bytes : Nat → Nat → UInt8) (n : Nat) :
    packedBytes (op.within session) h m bytes n = packedBytes op h m bytes n := by
  induction n with
  | zero => rfl
  | succ n ih =>
    rw [packedBytes, packedBytes, ih, blockOf_within]
    rfl

/-- the world of the TAs when the call is made: the blocks hold the client's bytes -/
def System.packed (s : System υ) (op : TeecOperation) : Shared υ :=
  { s.kernel.world with bytes := packedBytes op s.heap s.mem s.kernel.world.bytes 4 }

theorem marshals_of_passed {ctx : TeecContext} (hty : ∀ n < 4, Passed (op.type n))
    (ha : sys.heap.Serves (tempSizes op 4)) : Marshals (some ctx) op sys.heap :=
  ⟨fun n hn => (hty n hn).supported, ha, fun _ _ _ => Option.some_ne_none ctx⟩

/-- **An invoke of a live session.**  `arg->ret_origin` stays as the client zeroed it. -/
theorem invokeCommand_entered (tas : Kernel.Tas (Shared υ)) (hk : Kernel.Linked sys.kernel)
    (session : TeecSession) (hm : Marshals session.ctx op sys.heap) (cmd : Nat)
    {b : Kernel.Session} {c : Kernel.Block (Shared υ)} {ta : Kernel.TaHead (Shared υ)}
    (hid : session.sessionId ∈ sys.kernel.openSessions)
    (hb : sys.kernel.heap.blocks session.sessionId = some (.session b))
    (hc : sys.kernel.heap.blocks b.ctx = some c) (hta : c.head = some ta) :
    wp (teecInvokeCommand (direct tas) (some session) cmd (some op)) (fun r t =>
      let p := wireParam op (blockOf sys.heap op)
      let q := c.given tas (sys.packed op) p
      let ret := ta.invokeCommand (sys.packed op) b.userCtx cmd p.types q
      t.kernel.calls = ⟨.invokeCmd, b.ctx, cmd, p.types, q, sys.packed op⟩ :: sys.kernel.calls ∧
      t.heap.blocks = sys.heap.blocks ∧
      r.res = ret.res ∧
      (ret.res = Kernel.teeSuccess → r.origin = 0 ∧ ∃ op', r.operation = some op' ∧
        Returned op (blockOf sys.heap op) (c.taken p ret.params).u ret.world.bytes sys.mem op'
          t.mem) ∧
      (ret.res ≠ Kernel.teeSuccess → r.origin = teecOriginComms ∧
        r.operation = some (op.within session) ∧ t.mem = sys.mem)) sys := by
  obtain ⟨hty, hserve, hctx⟩ := hm
  rw [teecInvokeCommand, Option.map_some, wp_bind]
  have hm : Marshals session.ctx (op.within session) sys.heap := by
    refine ⟨hty, ?_, hctx⟩
    rw [tempSizes_within]
    exact hserve
  refine wp_mono (preProcess_packed (invokeArg_zero session cmd) hm) ?_
  rintro r u ⟨hr, hl⟩
  obtain ⟨res, w, shm⟩ := r
  have hmsg : ∀ n < 4, msgParams w n = wire op (blockOf sys.heap op n) n := by
    intro n hn
    rw [← blockOf_within sys.heap op session]
    exact hl.params n hn
  obtain ⟨htyped, hparam⟩ := msgTaParam_wire hty hmsg
  have hw0 : w Kernel.msgFuncWord = cmd := hl.rest Kernel.msgFuncWord (Or.inl (by decide))
  have hw1 : w Kernel.msgSessionWord = session.sessionId :=
    hl.rest Kernel.msgSessionWord (Or.inl (by decide))
  have hw4 : w invokeArgRetOrigin = 0 := hl.rest invokeArgRetOrigin (Or.inl (by decide))
  have hw5 : w Kernel.msgNumParamsWord = 4 :=
    hl.rest Kernel.msgNumParamsWord (Or.inl (by decide))
  have hshm : ∀ n < 4, IsTmpref (op.type n) → (shm n).buffer = blockOf sys.heap op n := by
    intro n hn ht
    rw [← blockOf_within sys.heap op session]
    exact (hl.shm n hn ht).1
  have hheld := hl.held (le_refl 4)
  have hmem := hl.mem
  have hkernel : u.kernel = { sys.kernel with world := sys.packed op } := by
    rw [hl.kernel, System.packed, ← packedBytes_within op session]
    rfl
  clear hl
  obtain ⟨um, uh, uk⟩ := u
  simp only at hmem hkernel hheld
  subst hmem hkernel
  have hk' : Kernel.Linked ({ sys.kernel with world := sys.packed op } :
      Kernel.State (Shared υ)) := ⟨hk.sessions, hk.zero⟩
  have htypes : Kernel.msgTypes w = (wireParam op (blockOf sys.heap op)).types :=
    congrArg TeeTaParam.types hparam
  rw [if_neg (fun h => h hr), wp_bind, wp_send_direct]
  show wp (Kernel.teeIoctlInvoke tas w) _ { sys.kernel with world := sys.packed op }
  rw [← hw1] at hid hb
  rw [Kernel.wp_teeIoctlInvoke tas hk' hw5 htyped hid hb hc hta]
  simp only [hparam, htypes, hw0]
  generalize hq : c.given tas (sys.packed op) (wireParam op (blockOf sys.heap op)) = q
  generalize hret : ta.invokeCommand (sys.packed op) b.userCtx cmd
    (wireParam op (blockOf sys.heap op)).types q = ret
  by_cases hres : ret.res = 0
  · rw [if_neg (fun h => h hres), wp_bind]
    refine wp_mono (postProcess_back (op.within session) invokeArgWords _ _) ?_
    rintro o v ⟨op', rfl, hback⟩
    have hreply := copyOut_replies ret.res hty hmsg
      (c.taken_types (wireParam op (blockOf sys.heap op)) ret.params)
    have hreturned := (hback.returned hreply hshm).of_within
    have hheld' : Held sys.heap op' shm v.heap := by
      have hvh : v.heap = uh := by rw [hback.state]
      rw [hvh]
      refine ⟨?_, hheld.fresh, hheld.distinct, hheld.other⟩
      intro m h
      rw [hback.type_eq]
      exact hheld.typed m h
    have hretword : ∀ x : Words, Function.update x Kernel.msgRetWord ret.res invokeArgRet
        = ret.res := fun x => Function.update_self Kernel.msgRetWord ret.res x
    have horigin : ∀ p s, Function.update (Kernel.copyOutParam p 4 s Kernel.msgParamsWord w)
        Kernel.msgRetWord ret.res invokeArgRetOrigin = 0 := by
      intro p s
      rw [Function.update_of_ne (by decide), Kernel.copyOutParam_out _ _ _ _ _ (by decide), hw4]
    rw [wp_bind]
    refine wp_mono (freeTempRefs_held hheld') ?_
    rintro _ x ⟨hx, hx'⟩
    rw [wp_pure]
    have hxm : x.mem = v.mem := by rw [hx']
    refine ⟨?_, hx, ?_, ?_, ?_⟩
    · rw [hx', hback.state]
      rfl
    · simp only [hretword]
    · rw [hxm]
      exact fun _ => ⟨horigin _ _, op', rfl, hreturned⟩
    · exact fun h => absurd hres h
  · rw [if_pos hres, wp_bind]
    refine wp_mono (freeTempRefs_held (h := sys.heap) hheld) ?_
    rintro _ v ⟨hv, hv'⟩
    rw [wp_pure]
    refine ⟨?_, hv, rfl, fun h => absurd h hres, ?_⟩
    · rw [hv']
      rfl
    · rw [hv']
      exact fun _ => ⟨rfl, rfl, rfl⟩

/-- an invoke with an operation of the seven types -/
theorem invokeCommand_enters (tas : Kernel.Tas (Shared υ)) (hk : Kernel.Linked sys.kernel)
    (hty : ∀ n < 4, Passed (op.type n)) (ha : sys.heap.Serves (tempSizes op 4))
    (ctx : TeecContext) {id : Nat} (cmd : Nat) {b : Kernel.Session}
    {c : Kernel.Block (Shared υ)} {ta : Kernel.TaHead (Shared υ)}
    (hid : id ∈ sys.kernel.openSessions) (hb : sys.kernel.heap.blocks id = some (.session b))
    (hc : sys.kernel.heap.blocks b.ctx = some c) (hta : c.head = some ta) :
    wp (teecInvokeCommand (direct tas) (some ⟨some ctx, id⟩) cmd (some op)) (fun r t =>
      let p := wireParam op (blockOf sys.heap op)
      let q := c.given tas (sys.packed op) p
      let ret := ta.invokeCommand (sys.packed op) b.userCtx cmd p.types q
      t.kernel.calls = ⟨.invokeCmd, b.ctx, cmd, p.types, q, sys.packed op⟩ :: sys.kernel.calls ∧
      t.heap.blocks = sys.heap.blocks ∧
      r.res = ret.res ∧
      (ret.res = Kernel.teeSuccess → ∃ op', r.operation = some op' ∧
        Returned op (blockOf sys.heap op) (c.taken p ret.params).u ret.world.bytes sys.mem op'
          t.mem)) sys := by
  refine wp_mono (invokeCommand_entered tas hk ⟨some ctx, id⟩ (marshals_of_passed hty ha) cmd hid
    hb hc hta) ?_
  rintro r t ⟨hcalls, hheap, hres, hok, -⟩
  exact ⟨hcalls, hheap, hres, fun h => (hok h).2⟩

/-! ## user TAs -/

/-- The TEE at work: from boot, the normal world writes shared memory and sends requests. -/
inductive Reached (tas : Kernel.Tas (Shared υ)) : Kernel.State (Shared υ) → Prop where
  | boot (answers : Nat → Nat) (world : Shared υ) : Reached tas (.boot answers world)
  | write {k : Kernel.State (Shared υ)} (bytes : Nat → Nat → UInt8) : Reached tas k →
      Reached tas { k with world := { k.world with bytes := bytes } }
  | request {k k' : Kernel.State (Shared υ)} {r : Nat × Words} (cmd : Nat) (w : Words) :
      Reached tas k → Kernel.ioctl tas cmd w k = .ok (r, k') → Reached tas k'

theorem Reached.table {tas : Kernel.Tas (Shared υ)} {k : Kernel.State (Shared υ)}
    (h : Reached tas k) : Kernel.Table k.view := by
  induction h with
  | boot answers world => exact Kernel.Table.empty
  | write bytes _ ih => exact ih
  | request cmd w _ e ih => exact (wlp_of_eq e).mp (Kernel.serve_table_back tas ih ⟨cmd, w⟩)

/-- The entry point got the operation: the types word, zeros for `TEEC_NONE`, the pairs, and for
each temporary reference a buffer of its own with the client's size and bytes. -/
structure Given (op : TeecOperation) (m : Mem) (types : Nat) (params : TeeParams)
    (bytes : Nat → Nat → UInt8) : Prop where
  types_eq : types = teeTypes op
  none : ∀ i : Fin 4, op.type i = teecNone → params i = .zero
  value : ∀ i : Fin 4, IsValue (op.type i) →
    (params i).a = (op.params i).a ∧ (params i).b = (op.params i).b
  size : ∀ i : Fin 4, IsTmpref (op.type i) → (params i).b = (op.params i).size
  buffer : ∀ i : Fin 4, IsTmpref (op.type i) → ∀ j < (op.params i).size,
    bytes (params i).a j = m ((op.params i).buffer + j)
  apart : ∀ i j : Fin 4, IsTmpref (op.type i) → IsTmpref (op.type j) → i ≠ j →
    (params i).a ≠ (params j).a

theorem wireParam_tmpref (block : Nat → Nat) {i : Fin 4} (h : IsTmpref (op.type i)) :
    (wireParam op block).params i = ⟨block i, (op.params i).size, 0⟩ := by
  show (if (i : Nat) < 4 then (wire op (block i) i).u else .zero) = _
  rw [if_pos i.isLt, wire, if_neg h.not_value, if_pos h]

theorem given_wireParam (ha : sys.heap.Serves (tempSizes op 4)) :
    Given op sys.mem (wireParam op (blockOf sys.heap op)).types
      (wireParam op (blockOf sys.heap op)).params (sys.packed op).bytes := by
  refine ⟨rfl, ?_, ?_, ?_, ?_, ?_⟩
  · intro i h0
    show (if (i : Nat) < 4 then (wire op _ i).u else .zero) = _
    have hv : ¬ IsValue (op.type i) := fun h => h.not_none h0
    have ht : ¬ IsTmpref (op.type i) := fun h => h.not_none h0
    rw [if_pos i.isLt, wire, if_neg hv, if_neg ht]
  · intro i hv
    have e : (wireParam op (blockOf sys.heap op)).params i
        = ⟨(op.params i).a, (op.params i).b, 0⟩ := by
      show (if (i : Nat) < 4 then (wire op _ i).u else .zero) = _
      rw [if_pos i.isLt, wire, if_pos hv]
    rw [e]
    exact ⟨rfl, rfl⟩
  · intro i ht
    rw [wireParam_tmpref _ ht]
  · intro i ht j hj
    rw [wireParam_tmpref _ ht]
    exact packedBytes_eq ha _ _ i i.isLt ht j hj
  · intro i j hi hj hne
    rw [wireParam_tmpref _ hi, wireParam_tmpref _ hj]
    rcases lt_trichotomy (i : Nat) j with h | h | h
    · exact blockOf_ne ha h j.isLt hi hj
    · exact absurd (Fin.ext h) hne
    · exact (blockOf_ne ha h i.isLt hj hi).symm

/-- the parameters an entry point left, by slot number -/
def leftOf (params : TeeParams) : Nat → Slot := fun n => if h : n < 4 then params ⟨n, h⟩ else .zero

/-- **An invoke delivers an operation and brings it back.**  For every operation of the seven types
whose references can be allocated, and every live session of a user TA: the entry point is called
once, with the operation; when it returns success the client gets success, the value outputs, the
new sizes and the bytes of the output references, and nothing else of the operation or of the
client's memory changes. -/
theorem teecInvokeCommand_delivers (tas : Kernel.Tas (Shared υ)) (sys : System υ)
    (hk : Reached tas sys.kernel) (op : TeecOperation) (hty : ∀ n < 4, Passed (op.type n))
    (ha : sys.heap.Serves (tempSizes op 4)) (ctx : TeecContext) (id cmd : Nat)
    (hid : id ∈ sys.kernel.openSessions) (b : Kernel.Session)
    (hb : sys.kernel.heap.blocks id = some (.session b)) (ta : Kernel.TaHead (Shared υ))
    (l : List Nat) (hc : sys.kernel.heap.blocks b.ctx = some (.userCtx ta l)) :
    wp (teecInvokeCommand (direct tas) (some ⟨some ctx, id⟩) cmd (some op)) (fun r t => ∃ call,
      t.kernel.calls = call :: sys.kernel.calls ∧ call.kind = .invokeCmd ∧ call.ctx = b.ctx ∧
      call.cmd = cmd ∧ Given op sys.mem call.types call.params call.world.bytes ∧
      (let ret := ta.invokeCommand call.world b.userCtx cmd call.types call.params
       ret.res = Kernel.teeSuccess → r.res = teecSuccess ∧ ∃ op', r.operation = some op' ∧
        Returned op (fun n => (leftOf call.params n).a) (leftOf ret.params) ret.world.bytes sys.mem
          op' t.mem)) sys := by
  refine wp_mono (invokeCommand_enters tas hk.table.linked hty ha ctx cmd hid hb hc rfl) ?_
  rintro r t ⟨hcalls, -, hres, hok⟩
  refine ⟨_, hcalls, rfl, rfl, rfl, given_wireParam ha, ?_⟩
  intro ret hret
  refine ⟨hres.trans hret, ?_⟩
  obtain ⟨op', hop, hr⟩ := hok hret
  have hleft : ∀ n < 4, leftOf ret.params n = (Kernel.TeeTaParam.write
      (wireParam op (blockOf sys.heap op)) ret.params).u n := by
    intro n hn
    show leftOf ret.params n = if h : n < 4 then ret.params ⟨n, h⟩ else _
    rw [leftOf, dif_pos hn, dif_pos hn]
  refine ⟨op', hop, hr.congr ?_ ?_ ?_⟩
  · intro n hn ht
    have e := wireParam_tmpref (blockOf sys.heap op) (i := ⟨n, hn⟩) ht
    simp only [leftOf, dif_pos hn]
    exact congrArg Slot.a e
  · intro n hn _
    rw [hleft n hn]
    exact ⟨rfl, rfl⟩
  · intro n hn _
    rw [hleft n hn]
    rfl

end

/-- two output references to one byte -/
def aliasOp : TeecOperation where
  paramTypes := 0x66
  params := fun _ => ⟨0x100, 1, 0⟩
  session := none

/-- a TA that writes `1` through its first reference and `2` through its second -/
def aliasTa : Kernel.TaHead (Shared Unit) where
  uuid := Kernel.teeUuidFromOctets fun _ => 0
  openSession := some fun w _ p u => ⟨Kernel.teeSuccess, p, u, w⟩
  invokeCommand := fun w _ _ _ p => ⟨Kernel.teeSuccess, p,
    { w with bytes := Function.update (Function.update w.bytes (p 0).a (fun _ => 1)) (p 1).a
               (fun _ => 2) }⟩
  closeSession := none

def aliasTas : Kernel.Tas (Shared Unit) where
  pseudo := []
  user := [aliasTa]
  ptJunk := fun _ _ => 0
  paramJunk := fun _ _ => .zero
  sweep := fun _ w => w

def aliasBoot : Kernel.State (Shared Unit) := .boot Kernel.sampleAnswers ⟨fun _ _ => 0, ()⟩

/-- a session with that TA is open -/
def aliasSystem : System Unit where
  mem := fun _ => 0
  heap := .empty fun n => 0x30000000 + 0x100 * n
  kernel :=
    match Kernel.ioctl aliasTas Kernel.iocOpenSession (fun _ => 0) aliasBoot with
    | .ok (_, k) => k
    | .error _ => aliasBoot

theorem aliasSystem_reached : Reached aliasTas aliasSystem.kernel :=
  .request Kernel.iocOpenSession (fun _ => 0) (.boot Kernel.sampleAnswers ⟨fun _ _ => 0, ()⟩) rfl

/-- the first bytes of every output reference are the TA's bytes, when they fit -/
def FirstBytes (op : TeecOperation) (block : Nat → Nat) (left : Nat → Slot)
    (bytes : Nat → Nat → UInt8) (m' : Mem) : Prop :=
  ∀ n < 4, IsTmprefOut (op.type n) → (left n).b ≤ (op.params n).size → ∀ j < (left n).b,
    m' ((op.params n).buffer + j) = bytes (block n) j

/-- the hypotheses of an invoke hold of the sample -/
theorem aliasSystem_ready : Reached aliasTas aliasSystem.kernel ∧
    (∀ n < 4, Passed (aliasOp.type n)) ∧ aliasSystem.heap.Serves (tempSizes aliasOp 4) ∧
    0x20000000 ∈ aliasSystem.kernel.openSessions ∧
    aliasSystem.kernel.heap.blocks 0x20000000 = some (.session ⟨0x20000100, 0⟩) ∧
    aliasSystem.kernel.heap.blocks 0x20000100 = some (.userCtx aliasTa []) :=
  ⟨aliasSystem_reached, by decide, by decide +kernel, by decide +kernel, rfl, rfl⟩

theorem teecInvokeCommand_delivers_alias : ∃ r t call,
    teecInvokeCommand (direct aliasTas) (some ⟨some teecInitializeContext, 0x20000000⟩) 0
      (some aliasOp) aliasSystem = .ok (r, t) ∧
    t.kernel.calls = call :: aliasSystem.kernel.calls ∧
    Given aliasOp aliasSystem.mem call.types call.params call.world.bytes ∧
    (aliasTa.invokeCommand call.world 0 0 call.types call.params).res = Kernel.teeSuccess ∧
    r.res = teecSuccess := by
  obtain ⟨hk, hty, ha, hid, hb, hc⟩ := aliasSystem_ready
  generalize aliasSystem = sys at *
  generalize aliasOp = op at *
  obtain ⟨r, t, e, call, hcalls, -, -, -, hgiven, hret⟩ := wp_iff.mp
    (teecInvokeCommand_delivers aliasTas sys hk op hty ha teecInitializeContext _ 0 hid _ hb
      aliasTa [] hc)
  exact ⟨r, t, call, e, hcalls, hgiven, rfl, (hret rfl).1⟩

/-- both references come back to the same byte: the first one's byte is lost -/
theorem firstBytes_fails :
    ¬ wp (teecInvokeCommand (direct aliasTas) (some ⟨some teecInitializeContext, 0x20000000⟩) 0
      (some aliasOp)) (fun r t => ∃ call, t.kernel.calls = call :: aliasSystem.kernel.calls ∧
        (let ret := aliasTa.invokeCommand call.world 0 0 call.types call.params
         ret.res = Kernel.teeSuccess → FirstBytes aliasOp (fun n => (leftOf call.params n).a)
          (leftOf ret.params) ret.world.bytes t.mem)) aliasSystem := by
  obtain ⟨hk, hty, ha, hid, hb, hc⟩ := aliasSystem_ready
  have hne : blockOf aliasSystem.heap aliasOp 0 ≠ blockOf aliasSystem.heap aliasOp 1 := by
    decide +kernel
  generalize aliasSystem = sys at *
  intro h
  have hrun := invokeCommand_enters aliasTas hk.table.linked hty ha teecInitializeContext 0 hid hb
    hc rfl
  obtain ⟨r, t, e, call, hcalls, hbytes⟩ := wp_iff.mp h
  obtain ⟨hcalls', -, -, hok⟩ := (wp_of_eq e).mp hrun
  obtain ⟨op', -, hret⟩ := hok rfl
  rw [hcalls'] at hcalls
  obtain ⟨rfl, -⟩ := List.cons.inj hcalls
  have h0 : t.mem 0x100 = Function.update (Function.update (sys.packed aliasOp).bytes
      (blockOf sys.heap aliasOp 0)
      (fun _ => 1)) (blockOf sys.heap aliasOp 1) (fun _ => 2) (blockOf sys.heap aliasOp 0) 0 :=
    hbytes rfl 0 (by decide) (by decide) (show 1 ≤ 1 from le_refl 1) 0
      (show 0 < 1 from Nat.one_pos)
  have h1 : t.mem 0x100 = Function.update (Function.update (sys.packed aliasOp).bytes
      (blockOf sys.heap aliasOp 0)
      (fun _ => 1)) (blockOf sys.heap aliasOp 1) (fun _ => 2) (blockOf sys.heap aliasOp 1) 0 := by
    refine hret.last 1 (by decide) 0x100 ⟨by decide, ?_, by decide, ?_⟩ ?_
    · show 1 ≤ 1
      exact le_refl 1
    · show 0x100 ≤ 0x100 ∧ 0x100 < 0x100 + 1
      omega
    · intro n' h1 h4 hcov
      have hn : n' = 2 ∨ n' = 3 := by omega
      rcases hn with rfl | rfl
      · exact absurd hcov.1 (by decide)
      · exact absurd hcov.1 (by decide)
  rw [h0, Function.update_of_ne hne, Function.update_self, Function.update_self] at h1
  exact absurd h1 (by decide)
end MTower.Client
