import MTower.Oper.Operations

/-!
# What a call on a handle leaves alone

* `Stable`      a property that no call breaks but the allocation and the release of a handle;
* `Sys.frame`   which blocks are handles and with which buffer, and the elements of the registry
                with their addresses; what is known of it is stable;
* `Seated`      a handle with a buffer of the size that its algorithm needs, which is stable too;
* `keeps_…`     the other functions keep every stable property;
* `wlp_opAt`, `wlp_free`, `wlp_malloc`, …  the rules for memory.
-/


set_option linter.unusedVariables false

namespace MTower.Oper
open Lib Kernel Cryp

variable {c : Crypto} {s t : Sys} {h : Nat}

/-! ## the frame -/

/-- a handle with its buffer, an element with its address, or a buffer -/
inductive Shape where
  | op (buffer : Nat)
  | elem (addr : Nat)
  | buffer
deriving DecidableEq, Repr

def Block.shape : Block → Shape
  | .op o => .op o.buffer
  | .elem addr => .elem addr
  | .buffer _ => .buffer

structure Frame where
  shapes : Nat → Option Shape
  elems : List Nat

def Sys.frame (s : Sys) : Frame := ⟨fun a => (s.heap.blocks a).map Block.shape, s.elems⟩

theorem store_frame {a : Nat} {b b' : Block} (hb : s.heap.blocks a = some b)
    (he : b'.shape = b.shape) : (s.store a b').frame = s.frame := by
  show Frame.mk _ _ = Frame.mk _ _
  congr 1
  funext q
  show (Function.update s.heap.blocks a (some b') q).map Block.shape = _
  by_cases hq : q = a
  · rw [hq, Function.update_self, hb, Option.map_some, Option.map_some, he]
  · rw [Function.update_of_ne hq]

/-! ## stable properties -/

/-- what no call changes of a handle but its allocation -/
def Operation.layout (o : Operation) : Operation :=
  { o with info := { o.info with handleState := 0, keySize := 0 }, key1 := 0, key2 := 0, state := 0,
           operationState := 0, bufferOffs := 0, aeTagLen := 0 }

/-- a property that survives the changes of the kernel and the record, and those of handles and
buffers, as long as no more is buffered than was or than the buffer holds -/
class Stable (P : Sys → Prop) : Prop where
  utc : ∀ s u, P s → P { s with utc := u }
  log : ∀ s l, P s → P { s with log := l }
  op : ∀ s a o o', s.heap.blocks a = some (.op o) → o'.layout = o.layout →
    o'.bufferOffs ≤ o.bufferOffs → P s → P (s.store a (.op o'))
  buffer : ∀ s a d d', s.heap.blocks a = some (.buffer d) → d'.length = d.length → P s →
    P (s.store a (.buffer d'))
  append : ∀ s a o d n, s.heap.blocks a = some (.op o) →
    s.heap.blocks o.buffer = some (.buffer d) → n ≤ d.length → P s →
    P (s.store a (.op { o with bufferOffs := n }))

instance stable_frame (p : Frame → Prop) : Stable fun s => p s.frame where
  utc := fun _ _ h => h
  log := fun _ _ h => h
  op := by
    intro s a o o' ho hl _ hs
    have hb : o'.layout.buffer = o.layout.buffer := by rw [hl]
    have hsh : (Block.op o').shape = (Block.op o).shape := by
      show Shape.op _ = Shape.op _
      rw [show o'.buffer = o.buffer from hb]
    rw [store_frame ho hsh]
    exact hs
  buffer := by
    intro s a d d' hd _ hs
    have hf : (s.store a (.buffer d')).frame = s.frame := store_frame hd rfl
    rw [hf]
    exact hs
  append := by
    intro s a o d n ho _ _ hs
    have hf : (s.store a (.op { o with bufferOffs := n })).frame = s.frame := store_frame ho rfl
    rw [hf]
    exact hs

/-! ## memory -/

theorem wlp_blockAt {a : Nat} {Q : Block → Sys → Prop} :
    wlp (blockAt a) Q s ↔ ∀ b, s.heap.blocks a = some b → Q b s := by
  unfold blockAt
  rw [wlp_bind, wlp_get]
  cases e : s.heap.blocks a with
  | none => simp
  | some b => simp

theorem wlp_opAt {a : Nat} {Q : Operation → Sys → Prop} :
    wlp (opAt a) Q s ↔ ∀ o, s.heap.blocks a = some (.op o) → Q o s := by
  unfold opAt
  rw [wlp_bind, wlp_blockAt]
  constructor
  · intro hq o ho
    exact hq _ ho
  · intro hq b hb
    cases b with
    | op o => exact hq o hb
    | elem addr => exact trivial
    | buffer data => exact trivial

theorem wlp_bufferAt {a : Nat} {Q : List UInt8 → Sys → Prop} :
    wlp (bufferAt a) Q s ↔ ∀ d, s.heap.blocks a = some (.buffer d) → Q d s := by
  unfold bufferAt
  rw [wlp_bind, wlp_blockAt]
  constructor
  · intro hq d hd
    exact hq _ hd
  · intro hq b hb
    cases b with
    | op o => exact trivial
    | elem addr => exact trivial
    | buffer d => exact hq d hb

/-! ## what keeps a stable property -/

/-- the frame only knows the buffer of a handle -/
theorem keeps_frame_updateOp {p : Frame → Prop} {a : Nat} {g : Operation → Operation}
    (hg : ∀ o, (g o).buffer = o.buffer) : Maintains (fun s => p s.frame) (updateOp a g) := by
  intro s hs
  unfold updateOp
  rw [wlp_bind, wlp_opAt]
  intro o ho
  have hsh : (Block.op (g o)).shape = (Block.op o).shape := by
    show Shape.op _ = Shape.op _
    rw [hg]
  show p (s.store a (.op (g o))).frame
  rw [store_frame ho hsh]
  exact hs

section
variable {α : Type} {P : Sys → Prop}

@[simp] theorem keeps_teePanic (code : Nat) : Maintains P (teePanic code : O α) :=
  Maintains.throw _

@[simp] theorem keeps_leave (ok : List Nat) (res : Nat) : Maintains P (leave ok res) :=
  Maintains.ite (Maintains.pure _) (keeps_teePanic _)

@[simp] theorem keeps_opAt (a : Nat) : Maintains P (opAt a) := by
  intro s hs
  rw [wlp_opAt]
  exact fun _ _ => hs

@[simp] theorem keeps_elemAt (a : Nat) : Maintains P (elemAt a) := by
  intro s hs
  unfold elemAt
  rw [wlp_bind, wlp_blockAt]
  intro b hb
  cases b with
  | op o => exact trivial
  | elem addr => exact hs
  | buffer d => exact trivial

@[simp] theorem keeps_bufferAt (a : Nat) : Maintains P (bufferAt a) := by
  intro s hs
  rw [wlp_bufferAt]
  exact fun _ _ => hs

@[simp] theorem keeps_bufferRead (buffer offs n : Nat) :
    Maintains P (bufferRead buffer offs n) := by
  unfold bufferRead
  simp

@[simp] theorem keeps_findElem (op : Nat) (l : List Nat) : Maintains P (findElem op l) := by
  induction l with
  | nil => exact Maintains.pure _
  | cons e l ih =>
    unfold findElem
    simp [ih]

@[simp] theorem keeps_getOperationElem (op : Nat) : Maintains P (getOperationElem op) := by
  unfold getOperationElem
  simp

@[simp] theorem keeps_unknown (op : Nat) : Maintains P (unknown op) := by
  unfold unknown
  simp

variable [hP : Stable P]

@[simp] theorem keeps_sys (x : C α) : Maintains P (sys x) := by
  intro s hs
  unfold wlp sys
  cases x s.utc with
  | error e => exact trivial
  | ok r => exact hP.utc s r.2 hs

theorem keeps_updateOp {a : Nat} {g : Operation → Operation}
    (hg : ∀ o, (g o).layout = o.layout) (ho : ∀ o, (g o).bufferOffs ≤ o.bufferOffs) :
    Maintains P (updateOp a g) := by
  intro s hs
  unfold updateOp
  rw [wlp_bind, wlp_opAt]
  intro o hb
  exact hP.op s a o (g o) hb (hg o) (ho o) hs

@[simp] theorem keeps_setFlag (a flag : Nat) :
    Maintains P (updateOp a fun o => o.setFlag flag) :=
  keeps_updateOp (fun _ => rfl) fun _ => Nat.le_refl _

@[simp] theorem keeps_clearFlag (a flag : Nat) :
    Maintains P (updateOp a fun o => o.clearFlag flag) :=
  keeps_updateOp (fun _ => rfl) fun _ => Nat.le_refl _

/-- a buffer keeps its length -/
theorem wlp_bufferWrite {b offs : Nat} {data : List UInt8} {Q : Unit → Sys → Prop}
    (hq : ∀ d d', s.heap.blocks b = some (.buffer d) → d'.length = d.length →
      offs + data.length ≤ d.length → Q () (s.store b (.buffer d'))) :
    wlp (bufferWrite b offs data) Q s := by
  unfold bufferWrite
  rw [wlp_bind, wlp_bufferAt]
  intro d hd
  by_cases hl : d.length < offs + data.length
  · rw [if_pos hl]
    exact trivial
  · rw [if_neg hl]
    refine hq d _ hd ?_ (Nat.not_lt.mp hl)
    simp only [List.length_append, List.length_take, List.length_drop]
    omega

@[simp] theorem keeps_bufferWrite (buffer offs : Nat) (data : List UInt8) :
    Maintains P (bufferWrite buffer offs data) := by
  intro s hs
  exact wlp_bufferWrite fun d d' hd hl _ => hP.buffer s buffer d d' hd hl hs

/-- what was written to the buffer of a handle is buffered -/
theorem wlp_buffered {o : Operation} {offs : Nat} {data : List UInt8} {g : Operation → Operation}
    (hs : P s) (ho : s.heap.blocks h = some (.op o))
    (hg : ∃ n, g o = { o with bufferOffs := n } ∧ n ≤ offs + data.length) :
    wlp (bufferWrite o.buffer offs data >>= fun _ => updateOp h g) (fun _ t => P t) s := by
  obtain ⟨n, hn, hle⟩ := hg
  rw [wlp_bind]
  refine wlp_bufferWrite fun d d' hd hl hfit => ?_
  have hne : h ≠ o.buffer := by
    intro e
    rw [← e, ho] at hd
    cases hd
  have ho' : (s.store o.buffer (.buffer d')).heap.blocks h = some (.op o) :=
    (Function.update_of_ne hne _ _).trans ho
  unfold updateOp
  rw [wlp_bind, wlp_opAt]
  intro o2 h2
  rw [ho'] at h2
  cases h2
  show P (Sys.store _ h (.op (g o)))
  rw [hn]
  exact hP.append _ h o d' n ho' (Function.update_self _ _ _) (by omega)
    (hP.buffer s o.buffer d d' hd hl hs)

theorem wlp_bufferRead {b offs n : Nat} {Q : List UInt8 → Sys → Prop}
    (hq : ∀ data, data.length = n → Q data s) : wlp (bufferRead b offs n) Q s := by
  unfold bufferRead
  rw [wlp_bind, wlp_bufferAt]
  intro d hd
  by_cases hl : d.length < offs + n
  · rw [if_pos hl]
    exact trivial
  · rw [if_neg hl]
    refine hq _ ?_
    rw [List.length_take, List.length_drop]
    omega

@[simp] theorem keeps_crypto (c : Crypto) (e : Event) : Maintains P (crypto c e) :=
  fun s hs => hP.log s _ hs

@[simp] theorem keeps_note (e : Utc → Event) : Maintains P (note e) :=
  fun s hs => hP.log s _ hs

/-! ## the calls on a handle -/

@[simp] theorem keeps_getObjectInfo1 (k : Nat) : Maintains P (teeGetObjectInfo1 k) := by
  unfold teeGetObjectInfo1
  with_reducible repeat' first | refine Maintains.bind ?_ fun _ => ?_ | refine Maintains.ite ?_ ?_
  all_goals simp

@[simp] theorem keeps_allocateTransientObject (ty n : Nat) :
    Maintains P (teeAllocateTransientObject ty n) := by
  unfold teeAllocateTransientObject
  with_reducible repeat' first | refine Maintains.bind ?_ fun _ => ?_ | refine Maintains.ite ?_ ?_
  all_goals simp

@[simp] theorem keeps_checkTransient (k : Nat) : Maintains P (checkTransient k) := by
  unfold checkTransient
  with_reducible repeat' first | refine Maintains.bind ?_ fun _ => ?_ | refine Maintains.ite ?_ ?_
  all_goals simp

@[simp] theorem keeps_freeTransientObject (k : Nat) :
    Maintains P (teeFreeTransientObject k) := by
  unfold teeFreeTransientObject
  with_reducible repeat' first | refine Maintains.bind ?_ fun _ => ?_ | refine Maintains.ite ?_ ?_
  all_goals simp

@[simp] theorem keeps_resetTransientObject (k : Nat) :
    Maintains P (teeResetTransientObject k) := by
  unfold teeResetTransientObject
  with_reducible repeat' first | refine Maintains.bind ?_ fun _ => ?_ | refine Maintains.ite ?_ ?_
  all_goals simp

@[simp] theorem keeps_copyObjectAttributes1 (d k : Nat) :
    Maintains P (teeCopyObjectAttributes1 d k) := by
  unfold teeCopyObjectAttributes1
  with_reducible repeat' first | refine Maintains.bind ?_ fun _ => ?_ | refine Maintains.ite ?_ ?_
  all_goals simp

@[simp] theorem keeps_uteeHashInit (st : Nat) : Maintains P (uteeHashInit c st) := by
  unfold uteeHashInit
  with_reducible repeat' first | refine Maintains.bind ?_ fun _ => ?_ | refine Maintains.ite ?_ ?_
  all_goals simp

@[simp] theorem keeps_uteeHashUpdate (st : Nat) (p : Ptr) (n : Nat) :
    Maintains P (uteeHashUpdate c st p n) := by
  unfold uteeHashUpdate
  with_reducible repeat' first | refine Maintains.bind ?_ fun _ => ?_ | refine Maintains.ite ?_ ?_
  all_goals simp

@[simp] theorem keeps_hashFinal (st : Nat) (size : Option Nat) (p : Ptr) (n l : Nat) :
    Maintains P (hashFinal c st size p n l) := by
  cases size with
  | none => exact Maintains.pure _
  | some k =>
    unfold hashFinal
    with_reducible repeat' first | refine Maintains.bind ?_ fun _ => ?_ | refine Maintains.ite ?_ ?_
    all_goals simp

@[simp] theorem keeps_uteeHashFinal (st : Nat) (p : Ptr) (n l : Nat) :
    Maintains P (uteeHashFinal c st p n l) := by
  unfold uteeHashFinal
  with_reducible repeat' first | refine Maintains.bind ?_ fun _ => ?_ | refine Maintains.ite ?_ ?_
  all_goals simp

@[simp] theorem keeps_finishInit (st res : Nat) :
    Maintains P (uteeCipherInit.finishInit st res) := by
  unfold uteeCipherInit.finishInit
  with_reducible repeat' first | refine Maintains.bind ?_ fun _ => ?_ | refine Maintains.ite ?_ ?_
  all_goals simp

@[simp] theorem keeps_uteeCipherInit (st : Nat) (p : Ptr) (n : Nat) :
    Maintains P (uteeCipherInit c st p n) := by
  unfold uteeCipherInit
  with_reducible repeat' first | refine Maintains.bind ?_ fun _ => ?_ | refine Maintains.ite ?_ ?_
  all_goals simp

@[simp] theorem keeps_doCipherUpdate (st : Nat) (cs : CrypState) (data : List UInt8) :
    Maintains P (teeDoCipherUpdate c st cs data) := by
  unfold teeDoCipherUpdate
  cases teeCipherGetBlockSize cs.algo <;> simp

@[simp] theorem keeps_uteeCipherUpdate (st : Nat) (src : List UInt8) (n : Nat) :
    Maintains P (uteeCipherUpdate c st src n) := by
  unfold uteeCipherUpdate
  with_reducible repeat' first | refine Maintains.bind ?_ fun _ => ?_ | refine Maintains.ite ?_ ?_
  all_goals simp

@[simp] theorem keeps_uteeCipherFinal (st : Nat) (src : List UInt8) (n : Nat) :
    Maintains P (uteeCipherFinal c st src n) := by
  unfold uteeCipherFinal
  with_reducible repeat' first | refine Maintains.bind ?_ fun _ => ?_ | refine Maintains.ite ?_ ?_
  all_goals simp

omit [Stable P] in
@[simp] theorem keeps_getOperationInfo (i : Bool) : Maintains P (teeGetOperationInfo h i) := by
  unfold teeGetOperationInfo
  with_reducible repeat' first | refine Maintains.bind ?_ fun _ => ?_ | refine Maintains.ite ?_ ?_
  all_goals simp

@[simp] theorem keeps_keyInfo (o : Operation) (k : Nat) : Maintains P (keyInfo o k) := by
  unfold keyInfo
  with_reducible repeat' first | refine Maintains.bind ?_ fun _ => ?_ | refine Maintains.ite ?_ ?_
  all_goals simp

@[simp] theorem keeps_infoMultiple (i : Bool) (n : Option Nat) :
    Maintains P (infoMultiple h i n) := by
  unfold infoMultiple
  cases n with
  | none => simp
  | some k =>
    with_reducible repeat' first | refine Maintains.bind ?_ fun _ => ?_ | refine Maintains.ite ?_ ?_
    all_goals simp

@[simp] theorem keeps_getOperationInfoMultiple (i : Bool) (n : Option Nat) :
    Maintains P (teeGetOperationInfoMultiple h i n) := by
  unfold teeGetOperationInfoMultiple
  with_reducible repeat' first | refine Maintains.bind ?_ fun _ => ?_ | refine Maintains.ite ?_ ?_
  all_goals simp

@[simp] theorem keeps_resetOperation (h : Nat) : Maintains P (teeResetOperation c h) := by
  unfold teeResetOperation
  with_reducible repeat' first | refine Maintains.bind ?_ fun _ => ?_ | refine Maintains.ite ?_ ?_ |
    refine keeps_updateOp (fun _ => ?_) fun _ => ?_
  all_goals first | rfl | exact Nat.zero_le _ | simp

@[simp] theorem keeps_setOperationKey (k : Nat) : Maintains P (setOperationKey h k) := by
  unfold setOperationKey
  with_reducible repeat' first | refine Maintains.bind ?_ fun _ => ?_ | refine Maintains.ite ?_ ?_ |
    refine keeps_updateOp (fun _ => ?_) fun _ => ?_
  all_goals first | rfl | exact Nat.zero_le _ | simp

@[simp] theorem keeps_teeSetOperationKey (k : Nat) : Maintains P (teeSetOperationKey h k) := by
  unfold teeSetOperationKey
  with_reducible repeat' first | refine Maintains.bind ?_ fun _ => ?_ | refine Maintains.ite ?_ ?_
  all_goals simp

@[simp] theorem keeps_replaceKeys (o : Operation) (k l n : Nat) :
    Maintains P (replaceKeys h o k l n) := by
  unfold replaceKeys
  with_reducible repeat' first | refine Maintains.bind ?_ fun _ => ?_ | refine Maintains.ite ?_ ?_ |
    refine keeps_updateOp (fun _ => ?_) fun _ => ?_
  all_goals first | rfl | exact Nat.zero_le _ | simp

@[simp] theorem keeps_setOperationKey2 (k l : Nat) : Maintains P (setOperationKey2 h k l) := by
  unfold setOperationKey2
  with_reducible repeat' first | refine Maintains.bind ?_ fun _ => ?_ | refine Maintains.ite ?_ ?_
  all_goals simp

@[simp] theorem keeps_teeSetOperationKey2 (k l : Nat) :
    Maintains P (teeSetOperationKey2 h k l) := by
  unfold teeSetOperationKey2
  with_reducible repeat' first | refine Maintains.bind ?_ fun _ => ?_ | refine Maintains.ite ?_ ?_
  all_goals simp

@[simp] theorem keeps_copyKeys (o : Operation) : Maintains P (copyKeys h o) := by
  unfold copyKeys
  with_reducible repeat' first | refine Maintains.bind ?_ fun _ => ?_ | refine Maintains.ite ?_ ?_
  all_goals simp

theorem wlp_copyBuffer {o o' : Operation} (hs : P s) (ho : s.heap.blocks h = some (.op o)) :
    wlp (copyBuffer h o o') (fun _ t => P t) s := by
  unfold copyBuffer
  by_cases h0 : o.buffer ≠ 0
  · rw [if_pos h0]
    by_cases h1 : o'.buffer = 0
    · rw [if_pos h1]
      exact trivial
    · rw [if_neg h1, wlp_bind]
      refine wlp_bufferRead fun data hl => ?_
      exact wlp_buffered hs ho ⟨o'.bufferOffs, rfl, by omega⟩
  · rw [if_neg h0]
    exact Maintains.ite (keeps_teePanic 0) (Maintains.pure ()) s hs

@[simp] theorem keeps_copyOperation (d k : Nat) : Maintains P (teeCopyOperation c d k) := by
  unfold teeCopyOperation
  refine Maintains.ite (keeps_teePanic 0) (Maintains.bind (keeps_opAt d) fun o => ?_)
  refine Maintains.bind (keeps_opAt k) fun o' => Maintains.ite (keeps_teePanic 0) ?_
  refine Maintains.bind (keeps_copyKeys o') fun _ => Maintains.bind (keeps_opAt k) fun o2 => ?_
  refine Maintains.bind (keeps_updateOp (fun _ => rfl) fun _ => Nat.le_refl _) fun _ => ?_
  -- the target is read again before its buffer is written
  intro s hs
  rw [wlp_bind, wlp_opAt]
  intro dst hdst
  rw [wlp_bind, wlp_opAt]
  intro src _
  by_cases hb : dst.bufferTwoBlocks ≠ src.bufferTwoBlocks ∨ dst.blockSize ≠ src.blockSize
  · rw [if_pos hb]
    exact trivial
  · rw [if_neg hb, wlp_bind]
    refine wlp_mono (wlp_copyBuffer hs hdst) fun _ t ht => ?_
    exact Maintains.bind (keeps_crypto c _) (fun _ => Maintains.ite (keeps_teePanic _)
      (Maintains.pure ())) t ht

@[simp] theorem keeps_initHashOperation (h : Nat) : Maintains P (initHashOperation c h) := by
  unfold initHashOperation
  with_reducible repeat' first | refine Maintains.bind ?_ fun _ => ?_ | refine Maintains.ite ?_ ?_ |
    refine keeps_updateOp (fun _ => ?_) fun _ => ?_
  all_goals first | rfl | exact Nat.zero_le _ | simp

@[simp] theorem keeps_digestUpdate (p : Ptr) (n : Nat) :
    Maintains P (teeDigestUpdate c h p n) := by
  unfold teeDigestUpdate
  with_reducible repeat' first | refine Maintains.bind ?_ fun _ => ?_ | refine Maintains.ite ?_ ?_ |
    refine keeps_updateOp (fun _ => ?_) fun _ => ?_
  all_goals first | rfl | exact Nat.zero_le _ | simp

@[simp] theorem keeps_digestDoFinal (p : Ptr) (n : Nat) (b : Bool) (l : Option Nat) :
    Maintains P (digestDoFinal c h p n b l) := by
  unfold digestDoFinal
  cases l with
  | none => simp
  | some k =>
    with_reducible repeat' first | refine Maintains.bind ?_ fun _ => ?_ | refine Maintains.ite ?_ ?_ |
      refine keeps_updateOp (fun _ => ?_) fun _ => ?_
    all_goals first | rfl | exact Nat.zero_le _ | simp

@[simp] theorem keeps_teeDigestDoFinal (p : Ptr) (n : Nat) (b : Bool) (l : Option Nat) :
    Maintains P (teeDigestDoFinal c h p n b l) := by
  unfold teeDigestDoFinal
  with_reducible repeat' first | refine Maintains.bind ?_ fun _ => ?_ | refine Maintains.ite ?_ ?_
  all_goals simp

@[simp] theorem keeps_cipherInit (p : Ptr) (n : Nat) : Maintains P (teeCipherInit c h p n) := by
  unfold teeCipherInit
  with_reducible repeat' first | refine Maintains.bind ?_ fun _ => ?_ | refine Maintains.ite ?_ ?_ |
    refine keeps_updateOp (fun _ => ?_) fun _ => ?_
  all_goals first | rfl | exact Nat.zero_le _ | simp

theorem bytes_length (f : Nat → UInt8) (offs n : Nat) : (Ptr.bytes (some f) offs n).length = n := by
  show ((List.range n).map _).length = n
  rw [List.length_map, List.length_range]

@[simp] theorem keeps_fillBlock (f : Nat → UInt8) (q : Progress) :
    Maintains P (fillBlock h (some f) q) := by
  intro s hs
  unfold fillBlock
  rw [wlp_bind, wlp_opAt]
  intro o ho
  by_cases h0 : o.bufferOffs = 0
  · rw [if_pos h0]
    exact hs
  · rw [if_neg h0]
    dsimp only
    generalize (if o.bufferOffs < o.blockSize then _ else _) = l
    have hg : ∃ n, { o with bufferOffs := o.bufferOffs + l } = { o with bufferOffs := n } ∧
        n ≤ o.bufferOffs + (Ptr.bytes (some f) q.pos l).length :=
      ⟨o.bufferOffs + l, rfl, by rw [bytes_length]⟩
    have hbuf := wlp_buffered (g := fun o => { o with bufferOffs := o.bufferOffs + l }) hs ho hg
    rw [wlp_bind] at hbuf ⊢
    refine wlp_mono hbuf fun _ t ht => ?_
    rw [wlp_bind]
    exact ht

@[simp] theorem keeps_feed (st : Nat) (d : List UInt8) (q : Progress) :
    Maintains P (feed (uteeCipherUpdate c) st d q) := by
  unfold feed
  with_reducible repeat' first | refine Maintains.bind ?_ fun _ => ?_ | refine Maintains.ite ?_ ?_
  all_goals simp

@[simp] theorem keeps_keepRest (f : Nat → UInt8) (q : Progress) :
    Maintains P (keepRest h (some f) q) := by
  intro s hs
  unfold keepRest
  rw [wlp_bind, wlp_opAt]
  intro o ho
  exact wlp_buffered hs ho ⟨o.bufferOffs + q.slen, rfl, by rw [bytes_length]⟩

@[simp] theorem keeps_feedBuffer (f : Nat → UInt8) (q : Progress) :
    Maintains P (feedBuffer (uteeCipherUpdate c) h (some f) q) := by
  unfold feedBuffer
  with_reducible repeat' first | refine Maintains.bind ?_ fun _ => ?_ | refine Maintains.ite ?_ ?_ |
    refine keeps_updateOp (fun _ => ?_) fun _ => ?_
  all_goals first | rfl | exact Nat.sub_le _ _ | simp

@[simp] theorem keeps_feedSource (p : Ptr) (q : Progress) :
    Maintains P (feedSource (uteeCipherUpdate c) h p q) := by
  unfold feedSource
  with_reducible repeat' first | refine Maintains.bind ?_ fun _ => ?_ | refine Maintains.ite ?_ ?_
  all_goals simp

@[simp] theorem keeps_bufferUpdate (p : Ptr) (n l : Nat) :
    Maintains P (teeBufferUpdate (uteeCipherUpdate c) h p n l) := by
  unfold teeBufferUpdate
  cases p with
  | none =>
    rw [if_pos rfl]
    exact Maintains.ite (keeps_teePanic 0) (Maintains.pure _)
  | some f =>
    rw [if_neg nofun]
    with_reducible repeat' first | refine Maintains.bind ?_ fun _ => ?_ | refine Maintains.ite ?_ ?_
    all_goals simp

@[simp] theorem keeps_cipherUpdate (p : Ptr) (n : Nat) (b : Bool) (l : Option Nat) :
    Maintains P (cipherUpdate c h p n b l) := by
  unfold cipherUpdate
  cases l with
  | none => simp
  | some k =>
    with_reducible repeat' first | refine Maintains.bind ?_ fun _ => ?_ | refine Maintains.ite ?_ ?_
    all_goals simp

@[simp] theorem keeps_teeCipherUpdate (p : Ptr) (n : Nat) (b : Bool) (l : Option Nat) :
    Maintains P (teeCipherUpdate c h p n b l) := by
  unfold teeCipherUpdate
  with_reducible repeat' first | refine Maintains.bind ?_ fun _ => ?_ | refine Maintains.ite ?_ ?_
  all_goals simp

@[simp] theorem keeps_endContext (h : Nat) : Maintains P (endContext h) := by
  unfold endContext
  exact keeps_updateOp (fun _ => rfl) fun _ => Nat.le_refl _

@[simp] theorem keeps_finishCipher (o : Operation) (p : Ptr) (n l : Nat) :
    Maintains P (finishCipher c h o p n l) := by
  unfold finishCipher
  with_reducible repeat' first | refine Maintains.bind ?_ fun _ => ?_ | refine Maintains.ite ?_ ?_
  all_goals simp

@[simp] theorem keeps_cipherDoFinal (p : Ptr) (n : Nat) (b : Bool) (l : Option Nat) :
    Maintains P (cipherDoFinal c h p n b l) := by
  unfold cipherDoFinal
  cases l with
  | none => simp
  | some k =>
    with_reducible repeat' first | refine Maintains.bind ?_ fun _ => ?_ | refine Maintains.ite ?_ ?_
    all_goals simp

@[simp] theorem keeps_teeCipherDoFinal (p : Ptr) (n : Nat) (b : Bool) (l : Option Nat) :
    Maintains P (teeCipherDoFinal c h p n b l) := by
  unfold teeCipherDoFinal
  with_reducible repeat' first | refine Maintains.bind ?_ fun _ => ?_ | refine Maintains.ite ?_ ?_
  all_goals simp

@[simp] theorem keeps_macInit (h : Nat) : Maintains P (teeMacInit c h) := by
  unfold teeMacInit
  with_reducible repeat' first | refine Maintains.bind ?_ fun _ => ?_ | refine Maintains.ite ?_ ?_ |
    refine keeps_updateOp (fun _ => ?_) fun _ => ?_
  all_goals first | rfl | exact Nat.zero_le _ | simp

@[simp] theorem keeps_macUpdate (p : Ptr) (n : Nat) : Maintains P (teeMacUpdate c h p n) := by
  unfold teeMacUpdate
  with_reducible repeat' first | refine Maintains.bind ?_ fun _ => ?_ | refine Maintains.ite ?_ ?_
  all_goals simp

@[simp] theorem keeps_macComputeFinal (p : Ptr) (n : Nat) (b : Bool) (l : Option Nat) :
    Maintains P (macComputeFinal c h p n b l) := by
  unfold macComputeFinal
  cases l with
  | none => simp
  | some k =>
    with_reducible repeat' first | refine Maintains.bind ?_ fun _ => ?_ | refine Maintains.ite ?_ ?_
    all_goals simp

@[simp] theorem keeps_teeMacComputeFinal (p : Ptr) (n : Nat) (b : Bool) (l : Option Nat) :
    Maintains P (teeMacComputeFinal c h p n b l) := by
  unfold teeMacComputeFinal
  with_reducible repeat' first | refine Maintains.bind ?_ fun _ => ?_ | refine Maintains.ite ?_ ?_
  all_goals simp

omit [Stable P] in
@[simp] theorem keeps_sameMac (p : Ptr) (n : Nat) :
    Maintains P (sameMac c p n) := by
  unfold sameMac
  cases p with
  | none => simp
  | some k =>
    with_reducible repeat' first | refine Maintains.bind ?_ fun _ => ?_ | refine Maintains.ite ?_ ?_
    all_goals simp

@[simp] theorem keeps_macCompareFinal (p : Ptr) (n : Nat) (m : Ptr) (l : Nat) :
    Maintains P (macCompareFinal c h p n m l) := by
  unfold macCompareFinal
  with_reducible repeat' first | refine Maintains.bind ?_ fun _ => ?_ | refine Maintains.ite ?_ ?_ |
    refine keeps_updateOp (fun _ => ?_) fun _ => ?_
  all_goals first | rfl | exact Nat.zero_le _ | simp

@[simp] theorem keeps_teeMacCompareFinal (p : Ptr) (n : Nat) (m : Ptr) (l : Nat) :
    Maintains P (teeMacCompareFinal c h p n m l) := by
  unfold teeMacCompareFinal
  with_reducible repeat' first | refine Maintains.bind ?_ fun _ => ?_ | refine Maintains.ite ?_ ?_
  all_goals simp

@[simp] theorem keeps_aeInit (p : Ptr) (n k : Nat) : Maintains P (aeInit c h p n k) := by
  unfold aeInit
  with_reducible repeat' first | refine Maintains.bind ?_ fun _ => ?_ | refine Maintains.ite ?_ ?_ |
    refine keeps_updateOp (fun _ => ?_) fun _ => ?_
  all_goals first | rfl | exact Nat.zero_le _ | simp

@[simp] theorem keeps_teeAeInit (p : Ptr) (n k : Nat) : Maintains P (teeAeInit c h p n k) := by
  unfold teeAeInit
  with_reducible repeat' first | refine Maintains.bind ?_ fun _ => ?_ | refine Maintains.ite ?_ ?_
  all_goals simp

@[simp] theorem keeps_aeUpdateAad (p : Ptr) (n : Nat) :
    Maintains P (teeAeUpdateAad c h p n) := by
  unfold teeAeUpdateAad
  with_reducible repeat' first | refine Maintains.bind ?_ fun _ => ?_ | refine Maintains.ite ?_ ?_ |
    refine keeps_updateOp (fun _ => ?_) fun _ => ?_
  all_goals first | rfl | exact Nat.zero_le _ | simp

@[simp] theorem keeps_aeUpdate (p : Ptr) (n : Nat) (b : Bool) (l : Option Nat) :
    Maintains P (aeUpdate h p n b l) := by
  unfold aeUpdate
  cases l with
  | none => simp
  | some k =>
    with_reducible repeat' first | refine Maintains.bind ?_ fun _ => ?_ | refine Maintains.ite ?_ ?_ |
      refine keeps_updateOp (fun _ => ?_) fun _ => ?_
    all_goals first | rfl | exact Nat.zero_le _ | simp

@[simp] theorem keeps_teeAeUpdate (p : Ptr) (n : Nat) (b : Bool) (l : Option Nat) :
    Maintains P (teeAeUpdate h p n b l) := by
  unfold teeAeUpdate
  with_reducible repeat' first | refine Maintains.bind ?_ fun _ => ?_ | refine Maintains.ite ?_ ?_
  all_goals simp

end

end MTower.Oper
