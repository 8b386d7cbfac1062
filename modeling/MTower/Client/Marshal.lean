import MTower.Client.Operation
import MTower.Kernel.Entry

/-!
# Marshalling of an operation

The three loops over the four slots.  Before the call each slot writes its own four words and each
temporary reference gets its own block (`Packed`); whatever the loop did, the blocks it holds are the
ones its `shm` array names (`Held`); after the call each output slot is read back and the last copy
to an address wins (`Back`).

* `preProcess_packed`  every slot has a type and every allocation succeeds;
* `preProcess_cases`   every slot is packed, or the first slot that fails stops the loop;
* `postProcess_back`    what comes back into the operation and into client memory;
* `freeTempRefs_held`   the blocks that are held are released, and no others.
-/

set_option linter.unusedVariables false

namespace MTower.Client
open Lib
open Kernel (Words MsgParam msgParamAt)

/-! ## slots -/

/-- a type that `teec_pre_process_operation` has a case for -/
def Supported (type : Nat) : Prop :=
  type = teecNone ∨ IsValue type ∨ IsTmpref type ∨ IsRegistered type

instance (type : Nat) : Decidable (Supported type) :=
  inferInstanceAs (Decidable (_ ∨ _ ∨ _ ∨ _))

/-- `TEEC_VALUE_OUTPUT` or `TEEC_VALUE_INOUT` -/
def IsValueOut (type : Nat) : Prop := type = teecValueOutput ∨ type = teecValueInout

/-- `TEEC_MEMREF_TEMP_OUTPUT` or `TEEC_MEMREF_TEMP_INOUT` -/
def IsTmprefOut (type : Nat) : Prop :=
  type = teecMemrefTempOutput ∨ type = teecMemrefTempInout

instance (type : Nat) : Decidable (IsValueOut type) := inferInstanceAs (Decidable (_ ∨ _))
instance (type : Nat) : Decidable (IsTmprefOut type) := inferInstanceAs (Decidable (_ ∨ _))

theorem isTmprefOut_iff (type : Nat) :
    IsTmprefOut type ↔ IsTmpref type ∧ type ≠ teecMemrefTempInput := by
  unfold IsTmprefOut IsTmpref teecMemrefTempInput teecMemrefTempOutput teecMemrefTempInout
  omega

theorem IsValue.not_none {type : Nat} (h : IsValue type) : type ≠ teecNone := by
  unfold IsValue teecValueInput teecValueOutput teecValueInout at h
  unfold teecNone
  omega

theorem IsTmpref.not_none {type : Nat} (h : IsTmpref type) : type ≠ teecNone := by
  unfold IsTmpref teecMemrefTempInput teecMemrefTempOutput teecMemrefTempInout at h
  unfold teecNone
  omega

theorem IsTmpref.not_value {type : Nat} (h : IsTmpref type) : ¬ IsValue type := by
  unfold IsTmpref teecMemrefTempInput teecMemrefTempOutput teecMemrefTempInout at h
  unfold IsValue teecValueInput teecValueOutput teecValueInout
  omega

theorem IsRegistered.not_other {type : Nat} (h : IsRegistered type) :
    type ≠ teecNone ∧ ¬ IsValue type ∧ ¬ IsTmpref type := by
  unfold IsRegistered teecMemrefWhole teecMemrefPartialInput teecMemrefPartialOutput
    teecMemrefPartialInout at h
  unfold IsValue IsTmpref teecNone teecValueInput teecValueOutput teecValueInout
    teecMemrefTempInput teecMemrefTempOutput teecMemrefTempInout
  omega

/-- the size `TEEC_AllocateSharedMemory` asks for -/
def allocSize (p : TeecParameter) : Nat := if p.size = 0 then 8 else p.size

/-- the allocations for the first `n` slots, in order -/
def tempSizes (op : TeecOperation) : Nat → List Nat
  | 0 => []
  | n + 1 => if IsTmpref (op.type n) then tempSizes op n ++ [allocSize (op.params n)]
    else tempSizes op n

/-- the block of slot `n`, when it has one -/
def blockOf (h : Heap Nat) (op : TeecOperation) (n : Nat) : Nat :=
  h.answers (h.calls + (tempSizes op n).length)

theorem tempSizes_grow (op : TeecOperation) {m n : Nat} (h : m ≤ n) :
    tempSizes op m <+: tempSizes op n := by
  induction n with
  | zero =>
    have e : m = 0 := by omega
    rw [e]
  | succ n ih =>
    by_cases hm : m = n + 1
    · rw [hm]
    · have ih := ih (by omega)
      rw [tempSizes]
      split
      · exact ih.trans (List.prefix_append _ _)
      · exact ih

theorem tempSizes_lt (op : TeecOperation) {m n : Nat} (h : m < n) (ht : IsTmpref (op.type m)) :
    (tempSizes op m).length < (tempSizes op n).length := by
  have hp := (tempSizes_grow op (m := m + 1) (n := n) (by omega)).length_le
  rw [tempSizes, if_pos ht, List.length_append, List.length_singleton] at hp
  omega

/-- each allocation belongs to a slot -/
theorem tempSizes_index (op : TeecOperation) {n i : Nat} (h : i < (tempSizes op n).length) :
    ∃ m < n, IsTmpref (op.type m) ∧ (tempSizes op m).length = i := by
  induction n with
  | zero => exact absurd h (by simp [tempSizes])
  | succ n ih =>
    by_cases hi : i < (tempSizes op n).length
    · obtain ⟨m, hm, ht, e⟩ := ih hi
      exact ⟨m, by omega, ht, e⟩
    · by_cases ht : IsTmpref (op.type n)
      · rw [tempSizes, if_pos ht, List.length_append, List.length_singleton] at h
        exact ⟨n, by omega, ht, by omega⟩
      · rw [tempSizes, if_neg ht] at h
        exact absurd h hi

/-- what the blocks hold after the first `n` slots: the client's bytes over what was there -/
def packedBytes (op : TeecOperation) (h : Heap Nat) (m : Mem) (bytes : Nat → Nat → UInt8) :
    Nat → Nat → Nat → UInt8
  | 0 => bytes
  | n + 1 => if IsTmpref (op.type n) then
      Function.update (packedBytes op h m bytes n) (blockOf h op n) fun j =>
        if j < (op.params n).size then m ((op.params n).buffer + j)
        else packedBytes op h m bytes n (blockOf h op n) j
    else packedBytes op h m bytes n

/-- the wire form of a slot whose block is `block` -/
def wire (op : TeecOperation) (block n : Nat) : MsgParam :=
  if IsValue (op.type n) then ⟨op.type n, (op.params n).a, (op.params n).b, 0⟩
  else if IsTmpref (op.type n) then ⟨op.type n, block, (op.params n).size, 0⟩
  else ⟨0, .zero⟩

/-! ## the request before the parameters -/

theorem invokeArg_zero (session : TeecSession) (cmd i : Nat) (hi : invokeArgWords ≤ i) :
    invokeArg session cmd i = 0 := by
  unfold invokeArgWords at hi
  simp only [invokeArg, invokeArgFunc, invokeArgSession, invokeArgCount]
  rw [Function.update_of_ne (by omega), Function.update_of_ne (by omega),
    Function.update_of_ne (by omega)]

theorem openArg_zero (destination : Kernel.Uuid) (connectionMethod i : Nat)
    (hi : openArgWords ≤ i) : openArg destination connectionMethod i = 0 := by
  unfold openArgWords at hi
  simp only [openArg, openArgCount, openArgClntLogin]
  have hn : ¬ i < 4 := by omega
  rw [Function.update_of_ne (by omega), Function.update_of_ne (by omega), uuidWords, if_neg hn]

/-! ## rules for the library's primitives -/

section
variable {υ : Type} {s : System υ}

theorem wp_malloc {size : Nat} {Q : Nat → System υ → Prop} :
    wp (malloc size) Q s ↔
      Q (s.heap.alloc size).1 { s with heap := (s.heap.alloc size).2 } := Iff.rfl

theorem wp_copyToShm {block src len : Nat} {Q : Unit → System υ → Prop} (h0 : block ≠ 0) :
    wp (copyToShm block src len) Q s ↔
      Q () (s.setBytes (Function.update s.kernel.world.bytes block fun j =>
        if j < len then s.mem (src + j) else s.kernel.world.bytes block j)) := by
  simp only [copyToShm, wp_bind, wp_get, if_neg h0, wp_set]

theorem wp_free {a : Nat} {b : Nat} {Q : Unit → System υ → Prop} (h0 : a ≠ 0)
    (h : s.heap.blocks a = some b) :
    wp (free a) Q s ↔ Q () { s with heap := s.heap.erase a } := by
  simp only [free, wp_bind, wp_get, if_neg h0, h, Option.isSome_some, if_true, wp_set]

theorem wp_send_direct {tas : Kernel.Tas (Shared υ)} {cmd : Nat} {w : Words}
    {Q : Nat × Words → System υ → Prop} : wp (send (direct tas) cmd w) Q s ↔
      wp (Kernel.ioctl tas cmd w) (fun r k => Q r { s with kernel := k }) s.kernel := by
  rw [send, wp_bind, wp_get]
  unfold direct
  cases h : Kernel.ioctl tas cmd w s.kernel with
  | error f =>
    unfold wp
    rw [h]
    exact Iff.rfl
  | ok p =>
    rw [wp_of_eq h]
    exact Iff.rfl

theorem wp_send_answering {f : Nat → Words → Mem → Kernel.State (Shared υ) →
      (Nat × Words) × Mem × Kernel.State (Shared υ)} {cmd : Nat} {w : Words}
    {Q : Nat × Words → System υ → Prop} : wp (send (answering f) cmd w) Q s ↔
      Q (f cmd w s.mem s.kernel).1
        { s with mem := (f cmd w s.mem s.kernel).2.1
                 kernel := (f cmd w s.mem s.kernel).2.2 } := Iff.rfl

/-- flags of a temporary reference pass the test of `TEEC_AllocateSharedMemory` -/
theorem tmprefAttr_some {type : Nat} (h : IsTmpref type) :
    ∃ flags, tmprefAttr type = some (type, flags) ∧
      ¬ (flags = 0 ∨ flags &&& (2 ^ 32 - 1 - (teecMemInput ||| teecMemOutput)) ≠ 0) := by
  rcases h with rfl | rfl | rfl
  · exact ⟨teecMemInput, rfl, by decide⟩
  · exact ⟨teecMemOutput, rfl, by decide⟩
  · exact ⟨teecMemInput ||| teecMemOutput, rfl, by decide⟩

theorem wp_allocate_full {ctx : TeecContext} {shm : TeecSharedMemory}
    {Q : Nat × TeecSharedMemory → System υ → Prop}
    (hf : ¬ (shm.flags = 0 ∨
      shm.flags &&& (2 ^ 32 - 1 - (teecMemInput ||| teecMemOutput)) ≠ 0))
    (hfull : s.heap.Full) : wp (teecAllocateSharedMemory (some ctx) shm) Q s ↔
      Q (teecErrorOutOfMemory, { shm with buffer := 0 })
        { s with heap := { s.heap with calls := s.heap.calls + 1 } } := by
  simp only [teecAllocateSharedMemory, if_neg hf, ctx.capable, if_true, wp_bind, wp_malloc,
    Heap.alloc_full _ hfull, wp_pure]

theorem wp_allocate {ctx : TeecContext} {shm : TeecSharedMemory}
    {Q : Nat × TeecSharedMemory → System υ → Prop}
    (hf : ¬ (shm.flags = 0 ∨
      shm.flags &&& (2 ^ 32 - 1 - (teecMemInput ||| teecMemOutput)) ≠ 0))
    (hfull : ¬ s.heap.Full) : wp (teecAllocateSharedMemory (some ctx) shm) Q s ↔
      Q (teecSuccess, { shm with buffer := s.heap.answers s.heap.calls, bufferAllocated := true })
        { s with heap := (s.heap.alloc (if shm.size = 0 then 8 else shm.size)).2 } := by
  have h0 := (Heap.not_full_iff.mp hfull).1
  simp only [teecAllocateSharedMemory, if_neg hf, ctx.capable, if_true, wp_bind, wp_malloc,
    Heap.alloc_not_full _ hfull, if_neg h0, wp_pure]

end

/-! ## before the call -/

section
variable {υ : Type}

/-- the first `n` slots of `op` are in the request and in blocks of their own -/
structure Packed (op : TeecOperation) (base : Nat) (buf : Words) (sys : System υ) (n : Nat)
    (s : Locals) (t : System υ) : Prop where
  serves : sys.heap.Serves (tempSizes op n)
  supported : ∀ m < n, Supported (op.type m)
  heap : t.heap = sys.heap.allocs (tempSizes op n)
  mem : t.mem = sys.mem
  kernel : t.kernel = { sys.kernel with
    world := { sys.kernel.world with
      bytes := packedBytes op sys.heap sys.mem sys.kernel.world.bytes n } }
  params : ∀ m < n, msgParamAt s.buf (base + 4 * m) = wire op (blockOf sys.heap op m) m
  rest : ∀ i, i < base ∨ base + 4 * n ≤ i → s.buf i = buf i
  shm : ∀ m < n, IsTmpref (op.type m) → (s.shm m).buffer = blockOf sys.heap op m ∧
    (s.shm m).bufferAllocated = true
  zero : ∀ m, n ≤ m ∨ ¬ IsTmpref (op.type m) → s.shm m = .zero

variable {op : TeecOperation} {base : Nat} {buf : Words} {sys t : System υ} {n : Nat}
  {s : Locals}

theorem Packed.start : Packed op base buf sys 0 ⟨buf, fun _ => .zero⟩ sys where
  serves := trivial
  supported := fun m hm => absurd hm (by omega)
  heap := rfl
  mem := rfl
  kernel := rfl
  params := fun m hm => absurd hm (by omega)
  rest := fun _ _ => rfl
  shm := fun m hm => absurd hm (by omega)
  zero := fun _ _ => rfl

theorem msgParamAt_congr {w x : Words} {p : Nat} (h : ∀ i, p ≤ i → i < p + 4 → w i = x i) :
    msgParamAt w p = msgParamAt x p := by
  unfold msgParamAt
  rw [h p (by omega) (by omega), h (p + 1) (by omega) (by omega),
    h (p + 2) (by omega) (by omega), h (p + 3) (by omega) (by omega)]

/-- writing the words of slot `n` -/
theorem Packed.words (hl : Packed op base buf sys n s t) {w : Words}
    (hout : ∀ i, i < base + 4 * n ∨ base + 4 * n + 4 ≤ i → w i = s.buf i)
    (hin : msgParamAt w (base + 4 * n) = wire op (blockOf sys.heap op n) n) :
    (∀ m < n + 1, msgParamAt w (base + 4 * m) = wire op (blockOf sys.heap op m) m) ∧
      ∀ i, i < base ∨ base + 4 * (n + 1) ≤ i → w i = buf i := by
  constructor
  · intro m hm
    by_cases hmn : m = n
    · rw [hmn, hin]
    · rw [← hl.params m (by omega)]
      refine msgParamAt_congr fun i _ _ => hout i ?_
      omega
  · intro i hi
    rw [hout i (by omega)]
    exact hl.rest i (by omega)

/-- a slot without a block -/
theorem Packed.plain (hl : Packed op base buf sys n s t) (hs : Supported (op.type n))
    (ht : ¬ IsTmpref (op.type n)) {w : Words}
    (hout : ∀ i, i < base + 4 * n ∨ base + 4 * n + 4 ≤ i → w i = s.buf i)
    (hin : msgParamAt w (base + 4 * n) = wire op (blockOf sys.heap op n) n) :
    Packed op base buf sys (n + 1) { s with buf := w } t := by
  obtain ⟨hp, hr⟩ := hl.words hout hin
  have hsz : tempSizes op (n + 1) = tempSizes op n := if_neg ht
  have hlt : ∀ m < n + 1, IsTmpref (op.type m) → m < n := by
    intro m hm hmt
    by_contra hn
    have e : m = n := by omega
    exact ht (e ▸ hmt)
  have hby : packedBytes op sys.heap sys.mem sys.kernel.world.bytes (n + 1)
      = packedBytes op sys.heap sys.mem sys.kernel.world.bytes n := if_neg ht
  refine ⟨hsz ▸ hl.serves, ?_, hsz ▸ hl.heap, hl.mem, ?_, hp, hr, ?_, ?_⟩
  · intro m hm
    by_cases hmn : m = n
    · exact hmn ▸ hs
    · exact hl.supported m (by omega)
  · rw [hby]
    exact hl.kernel
  · exact fun m hm hmt => hl.shm m (hlt m hm hmt) hmt
  · intro m hm
    refine hl.zero m ?_
    rcases hm with hm | hm
    · exact Or.inl (by omega)
    · exact Or.inr hm

/-- the words of slot `n` are still zero -/
theorem Packed.blank (hl : Packed op base buf sys n s t) (hz : ∀ i, base ≤ i → buf i = 0) :
    ∀ i, base + 4 * n ≤ i → s.buf i = 0 := by
  intro i hi
  rw [hl.rest i (Or.inr hi), hz i (by omega)]

/-- the next answer of the allocator is the block of slot `n` -/
theorem Packed.next (hl : Packed op base buf sys n s t) :
    t.heap.answers t.heap.calls = blockOf sys.heap op n := by
  rw [hl.heap, Heap.allocs_answers, Heap.allocs_calls]
  rfl

/-- the blocks so far are live -/
theorem Packed.live (hl : Packed op base buf sys n s t) {m : Nat} (hm : m < n)
    (ht : IsTmpref (op.type m)) : t.heap.blocks (blockOf sys.heap op m) ≠ none := by
  rw [hl.heap]
  exact hl.serves.live (tempSizes_lt op hm ht)

/-- a slot with a block -/
theorem Packed.tmpref (hl : Packed op base buf sys n s t) (hz : ∀ i, base ≤ i → buf i = 0)
    (ht : IsTmpref (op.type n)) (hf : ¬ t.heap.Full) (flags : Nat) :
    Packed op base buf sys (n + 1)
      (((s.putAttr base n (op.type n)).putShm n ⟨blockOf sys.heap op n, (op.params n).size, flags,
        true⟩).putPair base n (blockOf sys.heap op n) (op.params n).size)
      ({ t with heap := (t.heap.alloc (allocSize (op.params n))).2 }.setBytes
        (Function.update t.kernel.world.bytes (blockOf sys.heap op n) fun j =>
          if j < (op.params n).size then t.mem ((op.params n).buffer + j)
          else t.kernel.world.bytes (blockOf sys.heap op n) j)) := by
  have hb := hl.blank hz
  have hsz : tempSizes op (n + 1) = tempSizes op n ++ [allocSize (op.params n)] := if_pos ht
  have hby : packedBytes op sys.heap sys.mem sys.kernel.world.bytes (n + 1) = _ := if_pos ht
  have hwords := hl.words (w := Function.update (Function.update (Function.update s.buf
      (attrWord base n) (op.type n)) (firstWord base n) (blockOf sys.heap op n))
      (secondWord base n) (op.params n).size) ?_ ?_
  · refine ⟨?_, ?_, ?_, hl.mem, ?_, hwords.1, hwords.2, ?_, ?_⟩
    · rw [hsz, Heap.serves_append, ← hl.heap]
      exact ⟨hl.serves, hf, trivial⟩
    · intro m hm
      by_cases hmn : m = n
      · rw [hmn]
        exact Or.inr (Or.inr (Or.inl ht))
      · exact hl.supported m (by omega)
    · rw [hsz, Heap.allocs_append, ← hl.heap]
      rfl
    · rw [hby, hl.kernel, hl.mem]
      rfl
    · intro m hm hmt
      by_cases hmn : m = n
      · subst hmn
        simp only [Locals.putPair, Locals.putShm, Locals.putAttr, Function.update_self, and_self]
      · simp only [Locals.putPair, Locals.putShm, Locals.putAttr, Function.update_of_ne hmn]
        exact hl.shm m (by omega) hmt
    · intro m hm
      have hmn : m ≠ n := by
        rintro rfl
        rcases hm with hm | hm
        · omega
        · exact hm ht
      simp only [Locals.putPair, Locals.putShm, Locals.putAttr, Function.update_of_ne hmn]
      refine hl.zero m ?_
      rcases hm with hm | hm
      · exact Or.inl (by omega)
      · exact Or.inr hm
  · intro i hi
    simp only [attrWord, firstWord, secondWord]
    rw [Function.update_of_ne (by omega), Function.update_of_ne (by omega),
      Function.update_of_ne (by omega)]
  · have h3 := hb (base + 4 * n + 3) (by omega)
    simp only [attrWord, firstWord, secondWord, msgParamAt, wire, if_neg ht.not_value, if_pos ht,
      Function.update_apply, h3]
    simp

/-- the blocks beyond those of `h` are the ones that `shms` names -/
structure Held (h : Heap Nat) (op : TeecOperation) (shms : Nat → TeecSharedMemory) (t : Heap Nat) :
    Prop where
  typed : ∀ m, (shms m).bufferAllocated = true → m < 4 ∧ IsTmpref (op.type m)
  fresh : ∀ m, (shms m).bufferAllocated = true → (shms m).buffer ≠ 0 ∧
    h.blocks (shms m).buffer = none ∧ t.blocks (shms m).buffer ≠ none
  distinct : ∀ m m', (shms m).bufferAllocated = true → (shms m').bufferAllocated = true →
    (shms m).buffer = (shms m').buffer → m = m'
  other : ∀ a, (∀ m, (shms m).bufferAllocated = true → (shms m).buffer ≠ a) →
    t.blocks a = h.blocks a

/-- slots that hold no block can change -/
theorem Held.congr {h t t' : Heap Nat} {shms shms' : Nat → TeecSharedMemory}
    (hh : Held h op shms t) (hs : ∀ m, (shms' m).bufferAllocated = true ∨
      (shms m).bufferAllocated = true → shms' m = shms m) (ht : t'.blocks = t.blocks) :
    Held h op shms' t' := by
  refine ⟨?_, ?_, ?_, ?_⟩
  · intro m ha
    have e := hs m (Or.inl ha)
    rw [e] at ha
    exact hh.typed m ha
  · intro m ha
    have e := hs m (Or.inl ha)
    rw [e] at ha ⊢
    rw [ht]
    exact hh.fresh m ha
  · intro m m' ha ha' he
    have e := hs m (Or.inl ha)
    have e' := hs m' (Or.inl ha')
    rw [e] at ha he
    rw [e'] at ha' he
    exact hh.distinct m m' ha ha' he
  · intro a hall
    rw [ht]
    refine hh.other a fun m ha => ?_
    have e := hs m (Or.inr ha)
    rw [← e] at ha ⊢
    exact hall m ha

theorem blockOf_ne (h : sys.heap.Serves (tempSizes op n)) {m m' : Nat} (hm : m < m') (hn : m' < n)
    (ht : IsTmpref (op.type m)) (ht' : IsTmpref (op.type m')) :
    blockOf sys.heap op m ≠ blockOf sys.heap op m' := by
  obtain ⟨l, hl⟩ := tempSizes_grow op (m := m' + 1) (n := n) (by omega)
  rw [← hl, Heap.serves_append, tempSizes, if_pos ht', Heap.serves_append] at h
  obtain ⟨⟨hs, hf, -⟩, -⟩ := h
  intro e
  refine hs.live (tempSizes_lt op hm ht) ?_
  show (sys.heap.allocs (tempSizes op m')).blocks (blockOf sys.heap op m) = none
  rw [e]
  have hn' := (Heap.not_full_iff.mp hf).2.2
  rw [Heap.allocs_answers, Heap.allocs_calls] at hn'
  exact hn'

/-- each block holds the bytes of its slot -/
theorem packedBytes_eq (hs : sys.heap.Serves (tempSizes op n)) (m : Mem)
    (bytes : Nat → Nat → UInt8) : ∀ i < n, IsTmpref (op.type i) → ∀ j < (op.params i).size,
      packedBytes op sys.heap m bytes n (blockOf sys.heap op i) j
        = m ((op.params i).buffer + j) := by
  induction n with
  | zero => exact fun i hi => absurd hi (by omega)
  | succ n ih =>
    intro i hi ht j hj
    rw [packedBytes]
    have hs' : sys.heap.Serves (tempSizes op n) := by
      obtain ⟨l, hl⟩ := tempSizes_grow op (m := n) (n := n + 1) (by omega)
      rw [← hl, Heap.serves_append] at hs
      exact hs.1
    by_cases hin : i = n
    · subst hin
      rw [if_pos ht, Function.update_self, if_pos hj]
    · have hold := ih hs' i (by omega) ht j hj
      by_cases hn : IsTmpref (op.type n)
      · rw [if_pos hn, Function.update_of_ne (blockOf_ne hs (by omega) (by omega) ht hn)]
        exact hold
      · rw [if_neg hn]
        exact hold

/-- which slots hold a block -/
theorem Packed.allocated (hl : Packed op base buf sys n s t) (m : Nat) :
    (s.shm m).bufferAllocated = true ↔ m < n ∧ IsTmpref (op.type m) := by
  constructor
  · intro h
    by_contra hn
    have hz : s.shm m = .zero := by
      refine hl.zero m ?_
      by_cases hm : n ≤ m
      · exact Or.inl hm
      · exact Or.inr fun ht => hn ⟨by omega, ht⟩
    rw [hz] at h
    cases h
  · rintro ⟨hm, ht⟩
    exact (hl.shm m hm ht).2

theorem Packed.held (hl : Packed op base buf sys n s t) (hn : n ≤ 4) :
    Held sys.heap op s.shm t.heap := by
  refine ⟨?_, ?_, ?_, ?_⟩
  · intro m h
    obtain ⟨hm, ht⟩ := (hl.allocated m).mp h
    exact ⟨by omega, ht⟩
  · intro m h
    obtain ⟨hm, ht⟩ := (hl.allocated m).mp h
    rw [(hl.shm m hm ht).1]
    obtain ⟨h0, hf⟩ := hl.serves.fresh (tempSizes_lt op hm ht)
    exact ⟨h0, hf, hl.live hm ht⟩
  · intro m m' h h' e
    obtain ⟨hm, ht⟩ := (hl.allocated m).mp h
    obtain ⟨hm', ht'⟩ := (hl.allocated m').mp h'
    rw [(hl.shm m hm ht).1, (hl.shm m' hm' ht').1] at e
    rcases lt_trichotomy m m' with hlt | heq | hgt
    · exact absurd e (blockOf_ne hl.serves hlt hm' ht ht')
    · exact heq
    · exact absurd e.symm (blockOf_ne hl.serves hgt hm ht' ht)
  · intro a ha
    rw [hl.heap]
    refine Heap.allocs_other ?_
    intro i hi e
    obtain ⟨m, hm, ht, hlen⟩ := tempSizes_index op hi
    refine ha m ((hl.allocated m).mpr ⟨hm, ht⟩) ?_
    rw [(hl.shm m hm ht).1, e, ← hlen]
    rfl

/-- what stops the loop at slot `k` -/
def Stops (ctx : Option TeecContext) (op : TeecOperation) (h : Heap Nat) (k : Nat) : Prop :=
  (∀ m < k, Supported (op.type m)) ∧ h.Serves (tempSizes op k) ∧
    (¬ Supported (op.type k) ∨
      IsTmpref (op.type k) ∧ (ctx = none ∨ (h.allocs (tempSizes op k)).Full))

/-- the loop stopped at slot `k` -/
structure Stopped (ctx : Option TeecContext) (op : TeecOperation) (sys : System υ) (k : Nat)
    (s : Locals) (t : System υ) : Prop where
  lt : k < 4
  stops : Stops ctx op sys.heap k
  allocated : ∀ m, (s.shm m).bufferAllocated = true ↔ m < k ∧ IsTmpref (op.type m)
  held : Held sys.heap op s.shm t.heap

theorem Packed.stopped {ctx : Option TeecContext} (hl : Packed op base buf sys n s t) (hn : n < 4)
    (hstop : ¬ Supported (op.type n) ∨
      IsTmpref (op.type n) ∧ (ctx = none ∨ t.heap.Full)) {s' : Locals} {t' : System υ}
    (hs : ∀ m, m ≠ n → s'.shm m = s.shm m) (hsn : (s'.shm n).bufferAllocated = false)
    (ht : t'.heap.blocks = t.heap.blocks) : Stopped ctx op sys n s' t' := by
  have hh := hl.held (by omega)
  have halloc : ∀ m, (s'.shm m).bufferAllocated = true → m ≠ n := by
    rintro m h rfl
    rw [hsn] at h
    cases h
  have hback : ∀ m, (s.shm m).bufferAllocated = true → m ≠ n := by
    intro m h e
    have := ((hl.allocated m).mp h).1
    omega
  refine ⟨hn, ⟨hl.supported, hl.serves, by rwa [← hl.heap]⟩, ?_, hh.congr ?_ ht⟩
  · intro m
    rw [← hl.allocated m]
    constructor
    · intro h
      rw [← hs m (halloc m h)]
      exact h
    · intro h
      rw [hs m (hback m h)]
      exact h
  · rintro m (h | h)
    · exact hs m (halloc m h)
    · exact hs m (hback m h)

theorem preProcessTmpref_step (ctx : Option TeecContext) (hz : ∀ i, base ≤ i → buf i = 0)
    (hn : n < 4) (hl : Packed op base buf sys n s t) (ht : IsTmpref (op.type n)) :
    wp (teecPreProcessTmpref ctx (op.type n) (op.params n) base n s) (fun r u =>
      (r.1 = teecSuccess ∧ (IsTmpref (op.type n) → ctx ≠ none) ∧
        Packed op base buf sys (n + 1) r.2 u) ∨
      (r.1 ≠ teecSuccess ∧ Stopped ctx op sys n r.2 u)) t := by
  have hbad : teecErrorBadParameters ≠ teecSuccess := by decide
  have hoom : teecErrorOutOfMemory ≠ teecSuccess := by decide
  obtain ⟨flags, hattr, hflags⟩ := tmprefAttr_some ht
  have hshm : s.shm n = .zero := hl.zero n (Or.inl (le_refl n))
  have e : ({ (s.putAttr base n (op.type n)).shm n with
      flags := flags, size := (op.params n).size } : TeecSharedMemory)
      = ⟨0, (op.params n).size, flags, false⟩ := by
    show ({ s.shm n with flags := flags, size := (op.params n).size } : TeecSharedMemory) = _
    rw [hshm]
    rfl
  simp only [teecPreProcessTmpref, hattr, wp_bind, e]
  cases ctx with
  | none =>
    simp only [teecAllocateSharedMemory, wp_pure, if_pos hbad]
    refine Or.inr ⟨hbad, hl.stopped hn (Or.inr ⟨ht, Or.inl rfl⟩) ?_ ?_ rfl⟩
    · intro m hm
      exact Function.update_of_ne hm _ _
    · simp only [Locals.putShm, Function.update_self]
  | some ctx =>
    by_cases hf : t.heap.Full
    · rw [wp_allocate_full hflags hf, if_pos hoom, wp_pure]
      refine Or.inr ⟨hoom, hl.stopped hn (Or.inr ⟨ht, Or.inr hf⟩) ?_ ?_ rfl⟩
      · intro m hm
        exact Function.update_of_ne hm _ _
      · simp only [Locals.putShm, Function.update_self]
    · have hne : blockOf sys.heap op n ≠ 0 := by
        rw [← hl.next]
        exact (Heap.not_full_iff.mp hf).1
      rw [wp_allocate hflags hf, if_neg (fun h => h rfl), wp_bind, hl.next, wp_copyToShm hne,
        wp_pure]
      exact Or.inl ⟨rfl, fun _ => Option.some_ne_none ctx, hl.tmpref hz ht hf flags⟩

/-- **One slot.** -/
theorem preProcessParam_step (ctx : Option TeecContext) (hz : ∀ i, base ≤ i → buf i = 0)
    (hn : n < 4) (hl : Packed op base buf sys n s t) :
    wp (preProcessParam ctx op base s n) (fun r u =>
      (r.1 = teecSuccess ∧ (IsTmpref (op.type n) → ctx ≠ none) ∧
        Packed op base buf sys (n + 1) r.2 u) ∨
      (r.1 ≠ teecSuccess ∧ Stopped ctx op sys n r.2 u)) t := by
  have hb := hl.blank hz
  have h1 := hb (base + 4 * n + 1) (by omega)
  have h2 := hb (base + 4 * n + 2) (by omega)
  have h3 := hb (base + 4 * n + 3) (by omega)
  have hbad : teecErrorBadParameters ≠ teecSuccess := by decide
  unfold preProcessParam
  by_cases h0 : op.type n = teecNone
  · rw [if_pos h0, wp_pure]
    have hnt : ¬ IsTmpref (op.type n) := fun h => h.not_none h0
    have hnv : ¬ IsValue (op.type n) := fun h => h.not_none h0
    refine Or.inl ⟨rfl, fun h => absurd h hnt, hl.plain (Or.inl h0) hnt ?_ ?_⟩
    · intro i hi
      simp only [attrWord]
      rw [Function.update_of_ne (by omega)]
    · simp only [attrWord, msgParamAt, wire, if_neg hnv, if_neg hnt, Function.update_apply, h1,
        h2, h3]
      simp only [h0]
      simp [teecNone, Kernel.Slot.zero]
  rw [if_neg h0]
  by_cases hv : IsValue (op.type n)
  · rw [if_pos hv, wp_pure]
    have hnt : ¬ IsTmpref (op.type n) := fun h => h.not_value hv
    refine Or.inl ⟨rfl, fun h => absurd h hnt, hl.plain (Or.inr (Or.inl hv)) hnt ?_ ?_⟩
    · intro i hi
      simp only [attrWord, firstWord, secondWord, Locals.putAttr]
      rw [Function.update_of_ne (by omega), Function.update_of_ne (by omega),
        Function.update_of_ne (by omega)]
    · simp only [attrWord, firstWord, secondWord, Locals.putAttr, msgParamAt, wire, if_pos hv,
        Function.update_apply, h3]
      simp
  rw [if_neg hv]
  by_cases ht : IsTmpref (op.type n)
  · rw [if_pos ht]
    exact preProcessTmpref_step ctx hz hn hl ht
  rw [if_neg ht]
  by_cases hr : IsRegistered (op.type n)
  · rw [if_pos hr, wp_pure]
    refine Or.inl ⟨rfl, fun h => absurd h ht,
      hl.plain (Or.inr (Or.inr (Or.inr hr))) ht (fun _ _ => rfl) ?_⟩
    simp only [msgParamAt, wire, if_neg hv, if_neg ht, h1, h2, h3, hb (base + 4 * n) (le_refl _)]
    rfl
  · rw [if_neg hr, wp_pure]
    refine Or.inr ⟨hbad, hl.stopped hn (Or.inl ?_) (fun _ _ => rfl) ?_ rfl⟩
    · rintro (h | h | h | h)
      · exact h0 h
      · exact hv h
      · exact ht h
      · exact hr h
    · rw [hl.zero n (Or.inl (le_refl n))]
      rfl

/-- every slot has a type and every allocation succeeds -/
def Marshals (ctx : Option TeecContext) (op : TeecOperation) (h : Heap Nat) : Prop :=
  (∀ n < 4, Supported (op.type n)) ∧ h.Serves (tempSizes op 4) ∧
    ∀ n < 4, IsTmpref (op.type n) → ctx ≠ none

instance (ctx : Option TeecContext) (op : TeecOperation) (h : Heap Nat) :
    Decidable (Marshals ctx op h) := inferInstanceAs (Decidable (_ ∧ _ ∧ _))

theorem Stops.not_marshals {ctx : Option TeecContext} {h : Heap Nat} {k : Nat}
    (hs : Stops ctx op h k) (hk : k < 4) : ¬ Marshals ctx op h := by
  rintro ⟨hsup, hserve, hctx⟩
  obtain ⟨-, -, hn | ⟨ht, hc | hf⟩⟩ := hs
  · exact hn (hsup k hk)
  · exact hctx k hk ht hc
  · obtain ⟨l, hl⟩ := tempSizes_grow op (m := k + 1) (n := 4) (by omega)
    rw [← hl, Heap.serves_append, tempSizes, if_pos ht, Heap.serves_append] at hserve
    exact hserve.1.2.1 hf

/-- **The loop before the call.** -/
theorem preProcess_cases (ctx : Option TeecContext) (op : TeecOperation)
    (hz : ∀ i, base ≤ i → buf i = 0) (sys : System υ) :
    wp (teecPreProcessOperation ctx (some op) base buf) (fun r u =>
      (r.1 = teecSuccess ∧ Marshals ctx op sys.heap ∧ Packed op base buf sys 4 r.2 u) ∨
      (r.1 ≠ teecSuccess ∧ ¬ Marshals ctx op sys.heap ∧ ∃ k, Stopped ctx op sys k r.2 u)) sys := by
  have hloop := wp_foldlM_range (k := payloadRefCount) (f := fun r n =>
      if r.1 = teecSuccess then preProcessParam ctx op base r.2 n else pure r)
    (fun n r (u : System υ) =>
      (r.1 = teecSuccess ∧ (∀ m < n, IsTmpref (op.type m) → ctx ≠ none) ∧
        Packed op base buf sys n r.2 u) ∨
      (r.1 ≠ teecSuccess ∧ ∃ k, Stopped ctx op sys k r.2 u))
    ?_ (a := (teecSuccess, ⟨buf, fun _ => .zero⟩)) (s := sys)
    (Or.inl ⟨rfl, fun m hm => absurd hm (by omega), Packed.start⟩)
  · refine wp_mono hloop ?_
    rintro r u (⟨hr, hctx, hl⟩ | ⟨hr, k, hk⟩)
    · exact Or.inl ⟨hr, ⟨hl.supported, hl.serves, hctx⟩, hl⟩
    · exact Or.inr ⟨hr, hk.stops.not_marshals hk.lt, k, hk⟩
  · rintro n r u hn (⟨hr, hctx, hl⟩ | ⟨hr, k, hk⟩)
    · rw [if_pos hr]
      refine wp_mono (preProcessParam_step ctx hz hn hl) ?_
      rintro r' u' (⟨hr', hc', hl'⟩ | ⟨hr', hk'⟩)
      · refine Or.inl ⟨hr', ?_, hl'⟩
        intro m hm ht
        by_cases hmn : m = n
        · exact hc' (hmn ▸ ht)
        · exact hctx m (by omega) ht
      · exact Or.inr ⟨hr', n, hk'⟩
    · rw [if_neg hr, wp_pure]
      exact Or.inr ⟨hr, k, hk⟩

theorem preProcess_packed {ctx : Option TeecContext} (hz : ∀ i, base ≤ i → buf i = 0)
    (hm : Marshals ctx op sys.heap) :
    wp (teecPreProcessOperation ctx (some op) base buf) (fun r u =>
      r.1 = teecSuccess ∧ Packed op base buf sys 4 r.2 u) sys := by
  refine wp_mono (preProcess_cases ctx op hz sys) ?_
  rintro r u (⟨hr, -, hl⟩ | ⟨-, hn, -⟩)
  · exact ⟨hr, hl⟩
  · exact absurd hm hn

/-! ## release -/

/-- one block fewer -/
theorem Held.release {h t : Heap Nat} {shms : Nat → TeecSharedMemory}
    (hh : Held h op shms t) (ha : (shms n).bufferAllocated = true) :
    Held h op (Function.update shms n
      { shms n with buffer := 0, bufferAllocated := false }) (t.erase (shms n).buffer) := by
  have hother : ∀ m, (Function.update shms n
      ({ shms n with buffer := 0, bufferAllocated := false } : TeecSharedMemory)
      m).bufferAllocated = true → m ≠ n := by
    rintro m h rfl
    rw [Function.update_self] at h
    cases h
  have hne : ∀ m, m ≠ n → (shms m).bufferAllocated = true →
      (shms m).buffer ≠ (shms n).buffer := fun m hm h e => hm (hh.distinct m n h ha e)
  refine ⟨?_, ?_, ?_, ?_⟩
  · intro m h
    have hm := hother m h
    rw [Function.update_of_ne hm] at h
    exact hh.typed m h
  · intro m h
    have hm := hother m h
    rw [Function.update_of_ne hm] at h ⊢
    obtain ⟨h0, hf, hl⟩ := hh.fresh m h
    refine ⟨h0, hf, ?_⟩
    show Function.update t.blocks _ none _ ≠ none
    rw [Function.update_of_ne (hne m hm h)]
    exact hl
  · intro m m' h h' e
    have hm := hother m h
    have hm' := hother m' h'
    rw [Function.update_of_ne hm] at h e
    rw [Function.update_of_ne hm'] at h' e
    exact hh.distinct m m' h h' e
  · intro a hall
    show Function.update t.blocks (shms n).buffer none a = _
    by_cases hab : a = (shms n).buffer
    · rw [hab, Function.update_self, (hh.fresh n ha).2.1]
    · rw [Function.update_of_ne hab]
      refine hh.other a fun m h => ?_
      by_cases hm : m = n
      · subst hm
        exact fun e => hab e.symm
      · have hm' := hall m
        rw [Function.update_of_ne hm] at hm'
        exact hm' h

theorem freeTempRef_held {h : Heap Nat} {shms : Nat → TeecSharedMemory} {t : System υ}
    (hh : Held h op shms t.heap) (n : Nat) :
    wp (freeTempRef op shms n) (fun shms' u => Held h op shms' u.heap ∧
      (shms' n).bufferAllocated = false ∧ (∀ m, m ≠ n → shms' m = shms m) ∧
      u = { t with heap := u.heap }) t := by
  unfold freeTempRef
  by_cases ht : IsTmpref (op.type n)
  · rw [if_pos ht]
    by_cases ha : (shms n).bufferAllocated = true
    · obtain ⟨h0, hfresh, hlive⟩ := hh.fresh n ha
      obtain ⟨b, hb⟩ := Option.ne_none_iff_exists'.mp hlive
      simp only [teecReleaseSharedMemory, ha, if_true, wp_bind, wp_free h0 hb, wp_pure]
      refine ⟨hh.release ha, ?_, ?_, trivial⟩
      · rw [Function.update_self]
      · intro m hm
        exact Function.update_of_ne hm _ _
    · have hf : (shms n).bufferAllocated = false := by simpa using ha
      simp only [teecReleaseSharedMemory, hf, Bool.false_eq_true, if_false, wp_bind, wp_pure]
      refine ⟨hh.congr ?_ rfl, ?_, ?_, trivial⟩
      · intro m h
        refine Function.update_of_ne ?_ _ _
        rintro rfl
        rw [Function.update_self, hf] at h
        exact h.elim Bool.false_ne_true Bool.false_ne_true
      · rw [Function.update_self]
      · intro m hm
        exact Function.update_of_ne hm _ _
  · rw [if_neg ht, wp_pure]
    refine ⟨hh, ?_, fun _ _ => rfl, rfl⟩
    by_contra ha
    exact ht (hh.typed n (by simpa using ha)).2

/-- **The loop of `teec_free_temp_refs`**: what is held is released, and nothing else. -/
theorem freeTempRefs_held {h : Heap Nat} {shms : Nat → TeecSharedMemory} {t : System υ}
    (hh : Held h op shms t.heap) :
    wp (teecFreeTempRefs (some op) shms) (fun _ u => u.heap.blocks = h.blocks ∧
      u = { t with heap := u.heap }) t := by
  have hloop := wp_foldlM_range (k := payloadRefCount) (f := freeTempRef op)
    (fun n shms' (u : System υ) => Held h op shms' u.heap ∧
      (∀ m < n, (shms' m).bufferAllocated = false) ∧ u = { t with heap := u.heap })
    ?_ (a := shms) (s := t) ⟨hh, fun m hm => absurd hm (by omega), rfl⟩
  · refine wp_mono hloop ?_
    rintro shms' u ⟨hh', hnone, hu⟩
    refine ⟨?_, hu⟩
    funext a
    refine hh'.other a fun m ha => ?_
    have := hnone m (hh'.typed m ha).1
    rw [ha] at this
    cases this
  · rintro n shms' u hn ⟨hh', hnone, hu⟩
    refine wp_mono (freeTempRef_held hh' n) ?_
    rintro shms'' v ⟨hh'', hn'', hsame, hv⟩
    refine ⟨hh'', ?_, ?_⟩
    · intro m hm
      by_cases hmn : m = n
      · rw [hmn, hn'']
      · rw [hsame m hmn]
        exact hnone m (by omega)
    · rw [hv, hu]

/-! ## after the call -/

/-- slot `m` is an output reference and its `size m` bytes come back to address `a` -/
def Covers (op : TeecOperation) (size : Nat → Nat) (m a : Nat) : Prop :=
  IsTmprefOut (op.type m) ∧ size m ≤ (op.params m).size ∧ (op.params m).buffer ≠ 0 ∧
    (Range.mk (op.params m).buffer (size m)).Has a

instance (op : TeecOperation) (size : Nat → Nat) (m a : Nat) : Decidable (Covers op size m a) :=
  inferInstanceAs (Decidable (_ ∧ _ ∧ _ ∧ _))

/-- slot `m` of the operation when the reply holds `x` and `y` -/
def backParam (op : TeecOperation) (m x y : Nat) : TeecParameter :=
  if IsValueOut (op.type m) then { op.params m with a := x, b := y }
  else if IsTmprefOut (op.type m) then { op.params m with b := y }
  else op.params m

/-- the first `n` slots are back; `bytes` is what the blocks hold -/
structure Back (op : TeecOperation) (base : Nat) (s : Locals) (t : System υ) (n : Nat)
    (op' : TeecOperation) (u : System υ) : Prop where
  types : op'.paramTypes = op.paramTypes
  session : op'.session = op.session
  done : ∀ m < n, op'.params m
    = backParam op m (s.buf (firstWord base m)) (s.buf (secondWord base m))
  rest : ∀ m, n ≤ m → op'.params m = op.params m
  state : u = { t with mem := u.mem }
  kept : ∀ a, (∀ m < n, ¬ Covers op (fun i => s.buf (secondWord base i)) m a) →
    u.mem a = t.mem a
  last : ∀ m < n, ∀ a, Covers op (fun i => s.buf (secondWord base i)) m a →
    (∀ m', m < m' → m' < n → ¬ Covers op (fun i => s.buf (secondWord base i)) m' a) →
    u.mem a = t.kernel.world.bytes (s.shm m).buffer (a - (op.params m).buffer)

theorem Back.start : Back op base s t 0 op t where
  types := rfl
  session := rfl
  done := fun m hm => absurd hm (by omega)
  rest := fun _ _ => rfl
  state := rfl
  kept := fun _ _ => rfl
  last := fun m hm => absurd hm (by omega)

section
variable {op' : TeecOperation} {u : System υ}

theorem Back.type_eq (hb : Back op base s t n op' u) (m : Nat) : op'.type m = op.type m := by
  unfold TeecOperation.type
  rw [hb.types]

/-- slot `n` is written, memory is not -/
theorem Back.params (hb : Back op base s t n op' u)
    (hno : ¬ IsTmprefOut (op.type n)) {p : TeecParameter}
    (hp : p = backParam op n (s.buf (firstWord base n)) (s.buf (secondWord base n))) :
    Back op base s t (n + 1) (op'.setParam n p) u := by
  have hcov : ∀ a, ¬ Covers op (fun i => s.buf (secondWord base i)) n a := fun a h => hno h.1
  refine ⟨hb.types, hb.session, ?_, ?_, hb.state, ?_, ?_⟩
  · intro m hm
    by_cases hmn : m = n
    · subst hmn
      exact (Function.update_self _ _ _).trans hp
    · exact (Function.update_of_ne hmn _ _).trans (hb.done m (by omega))
  · intro m hm
    exact (Function.update_of_ne (by omega) _ _).trans (hb.rest m (by omega))
  · exact fun a ha => hb.kept a fun m hm => ha m (by omega)
  · intro m hm a hc hl
    have hmn : m ≠ n := by
      rintro rfl
      exact hcov a hc
    exact hb.last m (by omega) a hc fun m' h1 h2 => hl m' h1 (by omega)

/-- slot `n` is an output reference -/
theorem Back.tmpref (hb : Back op base s t n op' u) (ho : IsTmprefOut (op.type n)) {v : System υ}
    (hv : v = { u with mem := v.mem })
    (hmem : ∀ a, v.mem a = if Covers op (fun i => s.buf (secondWord base i)) n a
      then t.kernel.world.bytes (s.shm n).buffer (a - (op.params n).buffer) else u.mem a) :
    Back op base s t (n + 1)
      (op'.setParam n { op.params n with b := s.buf (secondWord base n) }) v := by
  have hnv : ¬ IsValueOut (op.type n) := by
    unfold IsTmprefOut teecMemrefTempOutput teecMemrefTempInout at ho
    unfold IsValueOut teecValueOutput teecValueInout
    omega
  refine ⟨hb.types, hb.session, ?_, ?_, ?_, ?_, ?_⟩
  · intro m hm
    by_cases hmn : m = n
    · subst hmn
      refine (Function.update_self _ _ _).trans ?_
      rw [backParam, if_neg hnv, if_pos ho]
    · exact (Function.update_of_ne hmn _ _).trans (hb.done m (by omega))
  · intro m hm
    exact (Function.update_of_ne (by omega) _ _).trans (hb.rest m (by omega))
  · rw [hv, hb.state]
  · intro a ha
    rw [hmem a, if_neg (ha n (by omega))]
    exact hb.kept a fun m hm => ha m (by omega)
  · intro m hm a hc hl
    by_cases hmn : m = n
    · subst hmn
      rw [hmem a, if_pos hc]
    · rw [hmem a, if_neg (hl n (by omega) (by omega))]
      exact hb.last m (by omega) a hc fun m' h1 h2 => hl m' h1 (by omega)

/-- **One slot.** -/
theorem postProcessParam_step (hb : Back op base s t n op' u) :
    wp (postProcessParam base s op' n) (Back op base s t (n + 1)) u := by
  have hty := hb.type_eq n
  have hpar := hb.rest n (le_refl n)
  unfold postProcessParam
  rw [hty, hpar]
  by_cases hv : op.type n = teecValueOutput ∨ op.type n = teecValueInout
  · have hnt : ¬ IsTmprefOut (op.type n) := by
      unfold teecValueOutput teecValueInout at hv
      unfold IsTmprefOut teecMemrefTempOutput teecMemrefTempInout
      omega
    rw [if_pos hv, wp_pure]
    refine hb.params hnt ?_
    have hv' : IsValueOut (op.type n) := hv
    rw [backParam, if_pos hv']
  have hv' : ¬ IsValueOut (op.type n) := hv
  rw [if_neg hv]
  by_cases ht : IsTmpref (op.type n)
  · rw [if_pos ht, wp_bind]
    unfold teecPostProcessTmpref
    by_cases hi : op.type n = teecMemrefTempInput
    · have hno : ¬ IsTmprefOut (op.type n) := fun h => ((isTmprefOut_iff _).mp h).2 hi
      rw [if_neg (fun h => h hi), wp_pure, wp_pure]
      refine hb.params hno ?_
      rw [backParam, if_neg hv', if_neg hno]
    · have ho : IsTmprefOut (op.type n) := (isTmprefOut_iff _).mpr ⟨ht, hi⟩
      have hk : u.kernel = t.kernel := by rw [hb.state]
      rw [if_pos hi]
      by_cases hc : s.buf (secondWord base n) ≤ (op.params n).size ∧ (op.params n).buffer ≠ 0
      · rw [if_pos hc, wp_bind, copyFromShm, wp_modify, wp_pure, wp_pure]
        refine hb.tmpref ho rfl ?_
        intro a
        have hiff : Covers op (fun i => s.buf (secondWord base i)) n a ↔
            (Range.mk (op.params n).buffer (s.buf (secondWord base n))).Has a :=
          ⟨fun h => h.2.2.2, fun h => ⟨ho, hc.1, hc.2, h⟩⟩
        simp only [hiff, hk]
      · rw [if_neg hc]
        simp only [wp_pure]
        refine hb.tmpref ho rfl ?_
        intro a
        rw [if_neg fun h => hc ⟨h.2.1, h.2.2.1⟩]
  · have hno : ¬ IsTmprefOut (op.type n) := fun h => ht ((isTmprefOut_iff _).mp h).1
    rw [if_neg ht, wp_pure]
    have hself : op'.setParam n (op.params n) = op' := by
      unfold TeecOperation.setParam
      rw [← hpar, Function.update_eq_self]
    rw [← hself]
    refine hb.params hno ?_
    rw [backParam, if_neg hv', if_neg hno]

end

/-- **The loop after the call.** -/
theorem postProcess_back (op : TeecOperation) (base : Nat) (s : Locals) (t : System υ) :
    wp (teecPostProcessOperation (some op) base s)
      (fun r u => ∃ op', r = some op' ∧ Back op base s t 4 op' u) t := by
  rw [teecPostProcessOperation, wp_bind]
  refine wp_mono (wp_foldlM_range (k := payloadRefCount) (Back op base s t) ?_ Back.start) ?_
  · exact fun n op' u _ hb => postProcessParam_step hb
  · exact fun op' u hb => ⟨op', rfl, hb⟩

end

end MTower.Client
