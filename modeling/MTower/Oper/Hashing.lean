import MTower.Lib.Digest
import MTower.Oper.Reached

/-!
# Digests and MACs

* `Crypto.Streams`     a library that computes the digest of a key and of the bytes of a message;
* `Hasher`             a digest or MAC handle with its state in the kernel;
* `digestCall_step`, `macCall_step`   a call is a step of `Lib.Digest`;
* `streams_run`        so the replies to any calls are the ones of `Lib.Digest`.
-/

set_option linter.unusedVariables false

namespace MTower.Oper
open Lib Kernel Cryp

variable {c : Crypto} {s t : Sys} {h k m n kind size st : Nat} {o o' : Operation} {p : Ptr}
  {key msg : List UInt8} {log : List Event}

/-! ## the library -/

/-- every call of the library succeeds -/
def Crypto.Works (c : Crypto) : Prop := ∀ log e, c.answer log e = teeSuccess

/-- the key of the context of `st`, and the bytes that were fed to it -/
def input (st : Nat) : List Event → Option (List UInt8 × List UInt8)
  | [] => none
  | .init q key _ _ :: log => if q = st then some (key, []) else input st log
  | .feed q d :: log =>
    if q = st then (input st log).map fun x => (x.1, x.2 ++ d) else input st log
  | .final q _ _ :: log => if q = st then none else input st log
  | .copy q _ :: log => if q = st then none else input st log
  | .authenc q _ :: log => if q = st then none else input st log
  | .setKey _ _ :: log => input st log
  | .reset :: log => input st log

/-- the `n` bytes that the last end of a context wrote -/
def Crypto.written (c : Crypto) (n : Nat) : List Event → List UInt8
  | [] => []
  | .final q d room :: log => (List.range n).map (c.mac (.final q d room :: log))
  | _ :: log => c.written n log

/-- the library works, and the `size` bytes that the end of a context writes are the digest of its
key and of the bytes that were fed to it, however these were cut -/
structure Crypto.Streams (c : Crypto) (size : Nat) (hash : List UInt8 → List UInt8 → List UInt8) :
    Prop where
  works : c.Works
  digest : ∀ st log key msg, input st log = some (key, msg) →
    c.written size (.final st [] size :: log) = hash key msg

/-- no call is made for no bytes -/
def fedLog (st : Nat) (d : List UInt8) (log : List Event) : List Event :=
  if d = [] then log else .feed st d :: log

theorem input_fedLog (d : List UInt8) (hi : input st log = some (key, msg)) :
    input st (fedLog st d log) = some (key, msg ++ d) := by
  unfold fedLog
  by_cases hd : d = []
  · rw [if_pos hd, hd, List.append_nil]
    exact hi
  · rw [if_neg hd]
    show (if st = st then (input st log).map _ else _) = _
    rw [if_pos rfl, hi]
    rfl

theorem crypto_eq (hw : c.Works) (e : Event) :
    crypto c e s = .ok (teeSuccess, { s with log := e :: s.log }) := by
  show Except.ok (c.answer s.log e, { s with log := if c.ran s.log e then _ else _ }) = _
  rw [hw, if_pos (c.ran_success _ _ (hw _ _))]

/-! ## the state in the kernel -/

/-- the state `st` of a digest or of a MAC, with values of `size` bytes and the key `key` -/
structure HashState (c : Crypto) (kind st : Nat) (u : Utc) (size : Nat) (key : List UInt8) :
    Prop where
  core : Core c.provider u
  found : ∃ cs, u.st st = some cs ∧ teeAlgGetClass cs.algo = kind ∧
    (kind = teeOperationDigest ∧ teeHashGetDigestSize cs.algo = some size ∧ key = [] ∨
      kind = teeOperationMac ∧ teeMacGetDigestSize cs.algo = some size ∧ KeyIs u cs.key1 key)

theorem uteeHashInit_eq (hw : c.Works) (hs : HashState c kind st s.utc size key) :
    uteeHashInit c st s =
      .ok (teeSuccess, { s with log := .init st key none [] :: s.log }) := by
  obtain ⟨cs, hst, hcls, hkind⟩ := hs.found
  unfold uteeHashInit
  rw [bind_of_ok (sys_ok (getState_eq hs.core hst)), if_neg (not_not.mpr rfl),
    bind_of_ok (sys_ok (stateAt_eq (Utc.st_iff.mp hst))), hcls]
  obtain ⟨hd, -, rfl⟩ | ⟨hm, -, hkey⟩ := hkind
  · rw [if_pos hd]
    exact crypto_eq hw _
  · have hnd : ¬ kind = teeOperationDigest := by rw [hm]; decide
    rw [if_neg hnd, if_pos hm, bind_of_ok (sys_ok (keyOf_eq hs.core hkey)),
      if_neg (not_not.mpr rfl)]
    exact crypto_eq hw _

/-- the classes that `utee_hash_update` takes -/
theorem HashState.kinds (hs : HashState c kind st s.utc size key) :
    kind = teeOperationDigest ∨ kind = teeOperationMac := by
  obtain ⟨cs, -, -, ⟨hd, -⟩ | ⟨hm, -⟩⟩ := hs.found
  · exact .inl hd
  · exact .inr hm

theorem bytes_nil_iff (hp : p = none → n = 0) : p.bytes 0 n = [] ↔ n = 0 := by
  cases p with
  | none => exact iff_of_true rfl (hp rfl)
  | some f => rw [← List.length_eq_zero_iff, bytes_length]

theorem uteeHashUpdate_eq (hw : c.Works) (hs : HashState c kind st s.utc size key)
    (hp : p = none → n = 0) : uteeHashUpdate c st p n s =
      .ok (teeSuccess, { s with log := fedLog st (p.bytes 0 n) s.log }) := by
  have h1 : ¬ (p = none ∧ n ≠ 0) := fun e => e.2 (hp e.1)
  unfold uteeHashUpdate fedLog
  rw [if_neg h1]
  by_cases hn : n = 0
  · rw [if_pos hn, if_pos ((bytes_nil_iff hp).mpr hn)]
    rfl
  obtain ⟨cs, hst, hcls, -⟩ := hs.found
  rw [if_neg hn, if_neg (mt (bytes_nil_iff hp).mp hn),
    bind_of_ok (sys_ok (getState_eq hs.core hst)), if_neg (not_not.mpr rfl),
    bind_of_ok (sys_ok (stateAt_eq (Utc.st_iff.mp hst))), hcls, if_pos hs.kinds]
  exact crypto_eq hw _

theorem hashFinal_eq (hw : c.Works) (hp : p = none → n = 0) (room : Nat) :
    hashFinal c st (some size) p n room s =
      if room < size then .ok ((teeErrorShortBuffer, size), s)
      else .ok ((teeSuccess, size),
        { s with log := .final st [] size :: fedLog st (p.bytes 0 n) s.log }) := by
  unfold hashFinal fedLog
  dsimp only
  by_cases hr : room < size
  · rw [if_pos hr, if_pos hr]
    rfl
  rw [if_neg hr, if_neg hr]
  by_cases hn : n = 0
  · have hpure : (pure teeSuccess : O Nat) s = .ok (teeSuccess, s) := rfl
    rw [if_neg (not_not.mpr hn), if_pos ((bytes_nil_iff hp).mpr hn), bind_of_ok hpure,
      if_neg (not_not.mpr rfl), bind_of_ok (crypto_eq hw _)]
    rfl
  · rw [if_pos hn, if_neg (mt (bytes_nil_iff hp).mp hn), bind_of_ok (crypto_eq hw _),
      if_neg (not_not.mpr rfl), bind_of_ok (crypto_eq hw _)]
    rfl

theorem uteeHashFinal_eq (hw : c.Works) (hs : HashState c kind st s.utc size key)
    (hp : p = none → n = 0) (room : Nat) : uteeHashFinal c st p n room s =
      if room < size then .ok ((teeErrorShortBuffer, size), s)
      else .ok ((teeSuccess, size),
        { s with log := .final st [] size :: fedLog st (p.bytes 0 n) s.log }) := by
  have h1 : ¬ (p = none ∧ n ≠ 0) := fun e => e.2 (hp e.1)
  obtain ⟨cs, hst, hcls, hkind⟩ := hs.found
  unfold uteeHashFinal
  rw [if_neg h1, bind_of_ok (sys_ok (getState_eq hs.core hst)), if_neg (not_not.mpr rfl),
    bind_of_ok (sys_ok (stateAt_eq (Utc.st_iff.mp hst))), hcls]
  obtain ⟨hd, hsize, -⟩ | ⟨hm, hsize, -⟩ := hkind
  · rw [if_pos hd, hsize]
    exact hashFinal_eq hw hp room
  · have hnd : ¬ kind = teeOperationDigest := by rw [hm]; decide
    rw [if_neg hnd, if_pos hm, hsize]
    exact hashFinal_eq hw hp room

/-! ## the handle -/

/-- the handle `h` of a digest or of a MAC -/
structure Hasher (c : Crypto) (kind size h : Nat) (key : List UInt8) (o : Operation) (s : Sys) :
    Prop where
  handle : s.heap.blocks h = some (.op o)
  cls : o.info.operationClass = kind
  keySet : o.has teeHandleFlagKeySet = true
  key1 : kind = teeOperationMac → o.key1 ≠ 0
  state : HashState c kind o.state s.utc size key

/-- a change of the handle that leaves its keys and its state -/
structure Operation.Restates (o o' : Operation) : Prop where
  cls : o'.info.operationClass = o.info.operationClass
  keySet : o.has teeHandleFlagKeySet = true → o'.has teeHandleFlagKeySet = true
  key1 : o'.key1 = o.key1
  state : o'.state = o.state

theorem Hasher.logged (hs : Hasher c kind size h key o s) (log : List Event) :
    Hasher c kind size h key o { s with log := log } :=
  ⟨hs.handle, hs.cls, hs.keySet, hs.key1, hs.state⟩

/-- a write to the handle -/
theorem Hasher.updateOp (hs : Hasher c kind size h key o s) {f : Operation → Operation}
    (hr : o.Restates (f o)) {Q : Unit → Sys → Prop}
    (hq : ∀ t, Hasher c kind size h key (f o) t → t.log = s.log → Q () t) :
    wp (updateOp h f) Q s := by
  rw [wp_of_eq (updateOp_eq hs.handle)]
  refine hq _ ⟨store_self _, hr.cls.trans hs.cls, hr.keySet hs.keySet, fun e => ?_, ?_⟩ rfl
  · rw [hr.key1]
    exact hs.key1 e
  · rw [hr.state]
    exact hs.state

theorem Hasher.hashInit (hw : c.Works) (hs : Hasher c kind size h key o s)
    {Q : Nat → Sys → Prop} (hq : ∀ t, Hasher c kind size h key o t →
      t.log = .init o.state key none [] :: s.log → Q teeSuccess t) :
    wp (uteeHashInit c o.state) Q s := by
  rw [wp_of_eq (uteeHashInit_eq hw hs.state)]
  exact hq _ (hs.logged _) rfl

theorem Hasher.hashUpdate (hw : c.Works) (hs : Hasher c kind size h key o s)
    (hp : p = none → n = 0) {Q : Nat → Sys → Prop} (hq : ∀ t, Hasher c kind size h key o t →
      t.log = fedLog o.state (p.bytes 0 n) s.log → Q teeSuccess t) :
    wp (uteeHashUpdate c o.state p n) Q s := by
  rw [wp_of_eq (uteeHashUpdate_eq hw hs.state hp)]
  exact hq _ (hs.logged _) rfl

theorem Hasher.hashFinal (hw : c.Works) (hs : Hasher c kind size h key o s)
    (hp : p = none → n = 0) {room : Nat} {Q : Nat × Nat → Sys → Prop}
    (hshort : room < size → Q (teeErrorShortBuffer, size) s)
    (hq : size ≤ room → ∀ t, Hasher c kind size h key o t →
      t.log = .final o.state [] size :: fedLog o.state (p.bytes 0 n) s.log →
      Q (teeSuccess, size) t) : wp (uteeHashFinal c o.state p n room) Q s := by
  have hx := uteeHashFinal_eq hw hs.state hp room
  by_cases hr : room < size
  · rw [if_pos hr] at hx
    rw [wp_of_eq hx]
    exact hshort hr
  · rw [if_neg hr] at hx
    rw [wp_of_eq hx]
    exact hq (Nat.not_lt.mp hr) _ (hs.logged _) rfl

theorem restates_state (o : Operation) (n : Nat) : o.Restates { o with operationState := n } :=
  ⟨rfl, fun e => e, rfl, rfl⟩

theorem restates_setFlag (o : Operation) (n : Nat) :
    o.Restates { o.setFlag teeHandleFlagInitialized with bufferOffs := n } := by
  refine ⟨rfl, fun e => ?_, rfl, rfl⟩
  show (o.setFlag teeHandleFlagInitialized).has teeHandleFlagKeySet = true
  rw [has_setFlag, e]
  rfl

theorem restates_clearFlag (o : Operation) :
    o.Restates (o.clearFlag teeHandleFlagInitialized) :=
  ⟨rfl, fun e => (has_clearFlag_other o (by decide)).trans e, rfl, rfl⟩

/-- a handle that its calls find -/
structure Listed (h : Nat) (s : Sys) : Prop where
  ne : h ≠ 0
  wellFormed : WellFormed s
  registered : Registered s h

instance : Stable (Listed h) where
  utc := fun s u hl => ⟨hl.ne, Stable.utc s u hl.wellFormed, hl.registered⟩
  log := fun s l hl => ⟨hl.ne, Stable.log s l hl.wellFormed, hl.registered⟩
  op := fun s a o o' ho hlay hle hl =>
    ⟨hl.ne, Stable.op s a o o' ho hlay hle hl.wellFormed,
      (stable_frame fun f => f.Registered h).op s a o o' ho hlay hle hl.registered⟩
  buffer := fun s a d d' hd hlen hl =>
    ⟨hl.ne, Stable.buffer s a d d' hd hlen hl.wellFormed,
      (stable_frame fun f => f.Registered h).buffer s a d d' hd hlen hl.registered⟩
  append := fun s a o d n ho hd hn hl =>
    ⟨hl.ne, Stable.append s a o d n ho hd hn hl.wellFormed,
      (stable_frame fun f => f.Registered h).append s a o d n ho hd hn hl.registered⟩

theorem Listed.known (hl : Listed h s) : unknown h s = .ok (false, s) :=
  unknown_false hl.wellFormed hl.registered hl.ne

/-! ## the calls -/

/-- bytes in the memory of the TA; a null pointer has none -/
structure Source where
  ptr : Ptr
  length : Nat
  valid : ptr = none → length = 0

def Source.bytes (x : Source) : List UInt8 := x.ptr.bytes 0 x.length

/-- a call on a digest or a MAC, with pointers for its results -/
inductive HashCall where
  | start
  | update (chunk : Source)
  | doFinal (chunk : Source) (room : Nat)

/-- what the call is for -/
def HashCall.view : HashCall → Digest.Call UInt8
  | .start => .start
  | .update x => .add x.bytes
  | .doFinal x room => .finish x.bytes room

/-- the result and the length that a call gives back, with the bytes that it wrote -/
def reply (c : Crypto) (r : Nat × Nat) : O (Digest.Reply UInt8) := do
  let s ← get
  pure (if r.1 = teeSuccess then .digest (c.written r.2 s.log) else .short r.2)

def digestCall (c : Crypto) (h : Nat) : HashCall → O (Digest.Reply UInt8)
  | .start => do
    teeResetOperation c h
    pure .done
  | .update x => do
    teeDigestUpdate c h x.ptr x.length
    pure .done
  | .doFinal x room => do
    let r ← teeDigestDoFinal c h x.ptr x.length true (some room)
    reply c r

def macCall (c : Crypto) (h : Nat) : HashCall → O (Digest.Reply UInt8)
  | .start => do
    teeMacInit c h
    pure .done
  | .update x => do
    teeMacUpdate c h x.ptr x.length
    pure .done
  | .doFinal x room => do
    let r ← teeMacComputeFinal c h x.ptr x.length true (some room)
    reply c r

/-- the handle has taken the bytes `m` of a message, or has none -/
structure Hashing (c : Crypto) (kind size h : Nat) (key : List UInt8) (m : Option (List UInt8))
    (s : Sys) : Prop where
  listed : Listed h s
  op : ∃ o, Hasher c kind size h key o s ∧ ∀ msg, m = some msg →
    input o.state s.log = some (key, msg) ∧ (kind = teeOperationMac →
      o.has teeHandleFlagInitialized = true ∧ o.operationState = teeOperationStateActive)

/-- a new context -/
theorem Hasher.initHash (hw : c.Works) (hs : Hasher c kind size h key o s)
    {Q : Unit → Sys → Prop} (hq : ∀ t, Hasher c kind size h key
      { o.setFlag teeHandleFlagInitialized with bufferOffs := 0 } t →
      t.log = .init o.state key none [] :: s.log → Q () t) : wp (initHashOperation c h) Q s := by
  rw [initHashOperation, wp_bind, wp_of_eq (opAt_eq hs.handle), wp_bind]
  refine hs.hashInit hw fun t ht hlog => ?_
  rw [if_neg (not_not.mpr rfl)]
  refine ht.updateOp (restates_setFlag o 0) fun v hv hv' => ?_
  exact hq v hv (hv'.trans hlog)

theorem has_setFlag_self (o : Operation) :
    (o.setFlag teeHandleFlagInitialized).has teeHandleFlagInitialized = true := by
  rw [has_setFlag, show (teeHandleFlagInitialized &&& teeHandleFlagInitialized != 0) = true by decide,
    Bool.or_true]

/-! ## digests -/

theorem resetOperation_digest (hw : c.Works) (hl : Listed h s)
    (hs : Hasher c teeOperationDigest size h key o s) :
    wp (teeResetOperation c h) (fun _ t => ∃ o', Hasher c teeOperationDigest size h key o' t ∧
      input o'.state t.log = some (key, [])) s := by
  rw [teeResetOperation, wp_bind, wp_of_eq hl.known, if_neg (by decide), wp_bind,
    wp_of_eq (opAt_eq hs.handle), if_neg (by rw [hs.keySet]; decide), wp_bind]
  refine hs.updateOp (restates_state o _) fun t ht hlog => ?_
  rw [wp_bind]
  show wp _ _ { t with log := .reset :: t.log }
  rw [if_pos hs.cls, wp_bind]
  refine (ht.logged _).hashInit hw fun v hv hlog => ?_
  rw [if_neg (not_not.mpr rfl)]
  refine hv.updateOp (restates_setFlag _ o.bufferOffs) fun w hw' hlog' => ⟨_, hw', ?_⟩
  rw [hlog', hlog]
  exact if_pos rfl

theorem digestUpdate_spec (hw : c.Works) (hl : Listed h s)
    (hs : Hasher c teeOperationDigest size h key o s) (hi : input o.state s.log = some (key, msg))
    (x : Source) :
    wp (teeDigestUpdate c h x.ptr x.length) (fun _ t => ∃ o',
      Hasher c teeOperationDigest size h key o' t ∧
      input o'.state t.log = some (key, msg ++ x.bytes)) s := by
  rw [teeDigestUpdate, wp_bind, wp_of_eq hl.known, if_neg (by decide), wp_bind,
    wp_of_eq (opAt_eq hs.handle), if_neg (not_not.mpr hs.cls), wp_bind]
  refine hs.updateOp (restates_state o _) fun t ht hlog => ?_
  rw [wp_bind]
  refine ht.hashUpdate hw x.valid fun v hv hlog' => ?_
  rw [if_neg (not_not.mpr rfl)]
  refine ⟨_, hv, ?_⟩
  rw [hlog', hlog]
  exact input_fedLog x.bytes hi

/-- the digest, or the room that it needs -/
theorem digestDoFinal_spec {hash : List UInt8 → List UInt8 → List UInt8} (hw : c.Streams size hash)
    (hl : Listed h s) (hs : Hasher c teeOperationDigest size h key o s)
    (hi : input o.state s.log = some (key, msg)) (x : Source) (room : Nat) :
    wp (teeDigestDoFinal c h x.ptr x.length true (some room) >>= reply c) (fun r t =>
      if room < size then r = .short size ∧ t = s
      else r = .digest (hash key (msg ++ x.bytes)) ∧ ∃ o',
        Hasher c teeOperationDigest size h key o' t ∧ input o'.state t.log = some (key, [])) s := by
  have h1 : ¬ ((x.ptr = none ∧ x.length ≠ 0) ∨ true = false) := by
    rintro (e | e)
    · exact e.2 (x.valid e.1)
    · cases e
  rw [wp_bind, teeDigestDoFinal, wp_bind, digestDoFinal, wp_bind, wp_of_eq hl.known,
    if_neg (by decide), if_neg h1, wp_bind, wp_of_eq (opAt_eq hs.handle),
    if_neg (not_not.mpr hs.cls), wp_bind]
  refine hs.hashFinal hw.works x.valid (fun hr => ?_) fun hr t ht hlog => ?_
  · rw [if_pos (show teeErrorShortBuffer ≠ teeSuccess by decide)]
    show if room < size then _ else _
    rw [if_pos hr]
    exact ⟨rfl, rfl⟩
  rw [if_neg (not_not.mpr rfl), wp_bind]
  refine ht.initHash hw.works fun v hv hlog' => ?_
  rw [wp_bind]
  refine hv.updateOp (restates_state _ _) fun w hw' hlog'' => ?_
  have hlast : w.log = .init o.state key none [] :: .final o.state [] size ::
      fedLog o.state x.bytes s.log := by
    rw [hlog'', hlog', hlog]
    rfl
  show if room < size then _ else _
  rw [if_neg (Nat.not_lt.mpr hr)]
  refine ⟨?_, _, hw', ?_⟩
  · show Digest.Reply.digest (c.written size w.log) = _
    rw [hlast]
    exact congrArg _ (hw.digest _ _ _ _ (input_fedLog x.bytes hi))
  · rw [hlast]
    exact if_pos rfl

/-- **A call on a digest is a step of the message.** -/
theorem digestCall_step {hash : List UInt8 → List UInt8 → List UInt8} (hw : c.Streams size hash)
    {m n : Option (List UInt8)} {r : Digest.Reply UInt8}
    (hs : Hashing c teeOperationDigest size h key m s) (x : HashCall)
    (hx : Digest.step ⟨size, hash key, some []⟩ m x.view = some (r, n)) :
    wp (digestCall c h x) (fun q t => q = r ∧ Hashing c teeOperationDigest size h key n t) s := by
  obtain ⟨hl, o, ho, hi⟩ := hs
  have hmac : ∀ {o' : Operation}, teeOperationDigest = teeOperationMac →
      o'.has teeHandleFlagInitialized = true ∧ o'.operationState = teeOperationStateActive :=
    fun e => absurd e (by decide)
  cases x with
  | start =>
    rw [HashCall.view, Digest.step_start] at hx
    cases hx
    rw [digestCall, wp_bind]
    refine wp_mono (wp_and (resetOperation_digest hw.works hl ho) (keeps_resetOperation h s hl)) ?_
    rintro _ t ⟨⟨o', ho', hi'⟩, hl'⟩
    refine ⟨rfl, hl', o', ho', ?_⟩
    rintro _ ⟨⟩
    exact ⟨hi', hmac⟩
  | update x =>
    cases m with
    | none => cases hx
    | some msg =>
      obtain ⟨rfl, rfl⟩ : Digest.Reply.done = r ∧ some (msg ++ x.bytes) = n := by
        simpa [Digest.step, HashCall.view] using hx
      rw [digestCall, wp_bind]
      refine wp_mono (wp_and (digestUpdate_spec hw.works hl ho (hi msg rfl).1 x)
        (keeps_digestUpdate x.ptr x.length s hl)) ?_
      rintro _ t ⟨⟨o', ho', hi'⟩, hl'⟩
      refine ⟨rfl, hl', o', ho', ?_⟩
      rintro _ ⟨⟩
      exact ⟨hi', hmac⟩
  | doFinal x room =>
    cases m with
    | none => cases hx
    | some msg =>
      have hkeep : Maintains (Listed h)
          (teeDigestDoFinal c h x.ptr x.length true (some room) >>= reply c) :=
        .bind (keeps_teeDigestDoFinal x.ptr x.length true (some room)) fun _ => .bind .get fun _ => .pure _
      refine wp_mono (wp_and (digestDoFinal_spec hw hl ho (hi msg rfl).1 x room) (hkeep s hl)) ?_
      rintro q t ⟨hq, hl'⟩
      by_cases hr : room < size
      · rw [if_pos hr] at hq
        obtain ⟨rfl, rfl⟩ := hq
        obtain ⟨rfl, rfl⟩ : Digest.Reply.short size = r ∧ some msg = n := by
          simpa [Digest.step, HashCall.view, hr] using hx
        exact ⟨rfl, hl, o, ho, hi⟩
      · rw [if_neg hr] at hq
        obtain ⟨rfl, o', ho', hi'⟩ := hq
        obtain ⟨rfl, rfl⟩ : Digest.Reply.digest (hash key (msg ++ x.bytes)) = r ∧ some [] = n := by
          simpa [Digest.step, HashCall.view, hr] using hx
        refine ⟨rfl, hl', o', ho', ?_⟩
        rintro _ ⟨⟩
        exact ⟨hi', hmac⟩

/-! ## MACs -/

theorem restates_idle (o : Operation) : o.Restates o.idle :=
  ⟨rfl, fun e => (idle_has o (by decide)).trans e, rfl, rfl⟩

theorem resetOperation_mac (hl : Listed h s) (hs : Hasher c teeOperationMac size h key o s) :
    wp (teeResetOperation c h) (fun _ t => ∃ o', Hasher c teeOperationMac size h key o' t) s := by
  have hnd : o.info.operationClass ≠ teeOperationDigest := by
    rw [hs.cls]
    decide
  rw [teeResetOperation, wp_bind, wp_of_eq hl.known, if_neg (by decide), wp_bind,
    wp_of_eq (opAt_eq hs.handle), if_neg (by rw [hs.keySet]; decide), wp_bind]
  refine hs.updateOp (restates_state o _) fun t ht _ => ?_
  rw [wp_bind]
  show wp _ _ { t with log := .reset :: t.log }
  rw [if_neg hnd]
  exact (ht.logged _).updateOp (restates_clearFlag _) fun v hv _ => ⟨_, hv⟩

theorem macInit_spec (hw : c.Works) (hl : Listed h s)
    (hs : Hasher c teeOperationMac size h key o s) :
    wp (teeMacInit c h) (fun _ t => ∃ o', Hasher c teeOperationMac size h key o' t ∧
      input o'.state t.log = some (key, []) ∧ o'.has teeHandleFlagInitialized = true ∧
      o'.operationState = teeOperationStateActive) s := by
  have hkey : ¬ (o.has teeHandleFlagKeySet = false ∨ o.key1 = 0) := by
    rintro (e | e)
    · exact absurd (e.symm.trans hs.keySet) (by decide)
    · exact hs.key1 rfl e
  have hrest : ∀ q v, Hasher c teeOperationMac size h key q v → wp (do
      Oper.updateOp h fun o => { o with operationState := teeOperationStateActive }
      initHashOperation c h) (fun _ t => ∃ o', Hasher c teeOperationMac size h key o' t ∧
      input o'.state t.log = some (key, []) ∧ o'.has teeHandleFlagInitialized = true ∧
      o'.operationState = teeOperationStateActive) v := by
    intro q v hv
    rw [wp_bind]
    refine hv.updateOp (restates_state q _) fun t ht _ => ?_
    refine ht.initHash hw fun w hw' hlog => ⟨_, hw', ?_, ?_, rfl⟩
    · rw [hlog]
      exact if_pos rfl
    · exact has_setFlag_self _
  rw [teeMacInit, wp_bind, wp_of_eq hl.known, if_neg (by decide), wp_bind,
    wp_of_eq (opAt_eq hs.handle), if_neg (not_not.mpr hs.cls), if_neg hkey]
  dsimp only
  split
  · rw [wp_bind]
    refine wp_mono (resetOperation_mac hl hs) ?_
    rintro _ t ⟨q, hq⟩
    exact hrest q t hq
  · exact hrest o s hs

theorem macUpdate_spec (hw : c.Works) (hl : Listed h s)
    (hs : Hasher c teeOperationMac size h key o s) (hinit : o.has teeHandleFlagInitialized = true)
    (hact : o.operationState = teeOperationStateActive) {x : Source} (hx : x.length ≤ c.maxChunk) :
    wp (teeMacUpdate c h x.ptr x.length) (fun _ t => Hasher c teeOperationMac size h key o t ∧
      t.log = fedLog o.state x.bytes s.log) s := by
  have h1 : ¬ (x.ptr = none ∧ x.length ≠ 0) := fun e => e.2 (x.valid e.1)
  rw [teeMacUpdate, wp_bind, wp_of_eq hl.known, if_neg (by decide), if_neg h1, wp_bind,
    wp_of_eq (opAt_eq hs.handle), if_neg (not_not.mpr hs.cls), if_neg (by rw [hinit]; decide),
    if_neg (not_not.mpr hact), if_neg (Nat.not_lt.mpr hx), wp_bind]
  refine hs.hashUpdate hw x.valid fun t ht hlog => ?_
  rw [if_neg (not_not.mpr rfl)]
  exact ⟨ht, hlog⟩

/-- the end of a MAC -/
theorem macComputeFinal_spec (hw : c.Works) (hl : Listed h s)
    (hs : Hasher c teeOperationMac size h key o s) (hinit : o.has teeHandleFlagInitialized = true)
    (hact : o.operationState = teeOperationStateActive) (x : Source) {room : Nat}
    (hroom : room ≤ c.maxChunk) :
    wp (teeMacComputeFinal c h x.ptr x.length true (some room)) (fun r t =>
      if room < size then r = (teeErrorShortBuffer, size) ∧ t = s
      else r = (teeSuccess, size) ∧ Hasher c teeOperationMac size h key o.idle t ∧
        t.log = .final o.state [] size :: fedLog o.state x.bytes s.log) s := by
  have h1 : ¬ ((x.ptr = none ∧ x.length ≠ 0) ∨ true = false) := by
    rintro (e | e)
    · exact e.2 (x.valid e.1)
    · cases e
  rw [teeMacComputeFinal, wp_bind, macComputeFinal, wp_bind, wp_of_eq hl.known,
    if_neg (by decide), if_neg h1, wp_bind, wp_of_eq (opAt_eq hs.handle),
    if_neg (not_not.mpr hs.cls), if_neg (by rw [hinit]; decide), if_neg (not_not.mpr hact),
    if_neg (Nat.not_lt.mpr hroom), wp_bind]
  refine hs.hashFinal hw x.valid (fun hr => ?_) fun hr t ht hlog => ?_
  · rw [if_pos (show teeErrorShortBuffer ≠ teeSuccess by decide)]
    show if room < size then _ else _
    rw [if_pos hr]
    exact ⟨rfl, rfl⟩
  rw [if_neg (not_not.mpr rfl), wp_bind, endContext]
  refine ht.updateOp (restates_idle o) fun v hv hlog' => ?_
  show if room < size then _ else _
  rw [if_neg (Nat.not_lt.mpr hr)]
  exact ⟨rfl, hv, hlog'.trans hlog⟩

/-- lengths that a MAC takes -/
def HashCall.Fits (c : Crypto) : HashCall → Prop
  | .start => True
  | .update x => x.length ≤ c.maxChunk
  | .doFinal _ room => room ≤ c.maxChunk

/-- **A call on a MAC is a step of the message.** -/
theorem macCall_step {hash : List UInt8 → List UInt8 → List UInt8} (hw : c.Streams size hash)
    {m n : Option (List UInt8)} {r : Digest.Reply UInt8}
    (hs : Hashing c teeOperationMac size h key m s) (x : HashCall) (hfit : x.Fits c)
    (hx : Digest.step ⟨size, hash key, none⟩ m x.view = some (r, n)) :
    wp (macCall c h x) (fun q t => q = r ∧ Hashing c teeOperationMac size h key n t) s := by
  obtain ⟨hl, o, ho, hi⟩ := hs
  cases x with
  | start =>
    rw [HashCall.view, Digest.step_start] at hx
    cases hx
    rw [macCall, wp_bind]
    refine wp_mono (wp_and (macInit_spec hw.works hl ho) (keeps_macInit h s hl)) ?_
    rintro _ t ⟨⟨o', ho', hi', hflag⟩, hl'⟩
    refine ⟨rfl, hl', o', ho', ?_⟩
    rintro _ ⟨⟩
    exact ⟨hi', fun _ => hflag⟩
  | update x =>
    cases m with
    | none => cases hx
    | some msg =>
      obtain ⟨hi, hflag⟩ := hi msg rfl
      obtain ⟨rfl, rfl⟩ : Digest.Reply.done = r ∧ some (msg ++ x.bytes) = n := by
        simpa [Digest.step, HashCall.view] using hx
      rw [macCall, wp_bind]
      refine wp_mono (wp_and (macUpdate_spec hw.works hl ho (hflag rfl).1 (hflag rfl).2 hfit)
        (keeps_macUpdate x.ptr x.length s hl)) ?_
      rintro _ t ⟨⟨ho', hlog⟩, hl'⟩
      refine ⟨rfl, hl', o, ho', ?_⟩
      rintro _ ⟨⟩
      rw [hlog]
      exact ⟨input_fedLog x.bytes hi, hflag⟩
  | doFinal x room =>
    cases m with
    | none => cases hx
    | some msg =>
      obtain ⟨hi, hflag⟩ := hi msg rfl
      rw [macCall, wp_bind]
      refine wp_mono (wp_and (macComputeFinal_spec hw.works hl ho (hflag rfl).1 (hflag rfl).2 x hfit)
        (keeps_teeMacComputeFinal x.ptr x.length true (some room) s hl)) ?_
      rintro q t ⟨hq, hl'⟩
      by_cases hr : room < size
      · rw [if_pos hr] at hq
        obtain ⟨rfl, rfl⟩ := hq
        obtain ⟨rfl, rfl⟩ : Digest.Reply.short size = r ∧ some msg = n := by
          simpa [Digest.step, HashCall.view, hr] using hx
        refine ⟨rfl, hl, o, ho, ?_⟩
        rintro _ ⟨⟩
        exact ⟨hi, hflag⟩
      · rw [if_neg hr] at hq
        obtain ⟨rfl, ho', hlog⟩ := hq
        obtain ⟨rfl, rfl⟩ : Digest.Reply.digest (hash key (msg ++ x.bytes)) = r ∧ none = n := by
          simpa [Digest.step, HashCall.view, hr] using hx
        refine ⟨?_, hl', _, ho', fun _ h => by cases h⟩
        show Digest.Reply.digest (c.written size t.log) = _
        rw [hlog]
        exact congrArg _ (hw.digest _ _ _ _ (input_fedLog x.bytes hi))

/-! ## runs -/

theorem allocBuffer_registered {op : Nat} {a : Setup} (hr : Registered s h) :
    wlp (allocBuffer op a) (fun _ t => Registered t h) s := by
  obtain ⟨e, he, hel⟩ := hr
  have hb := frame_elem.mp hel
  have hupdate : ∀ {b : Nat} {v : Sys}, v.elems = s.elems → v.heap.blocks e = some (.elem h) →
      wlp (updateOp op fun o => { o with buffer := b }) (fun _ t => Registered t h) v := by
    intro b v hv hve
    unfold updateOp
    rw [wlp_bind, wlp_opAt]
    intro o ho
    have hne : e ≠ op := by
      rintro rfl
      rw [hve] at ho
      cases ho
    refine ⟨e, ?_, frame_elem.mpr ((store_of_ne _ hne).trans hve)⟩
    show e ∈ v.elems
    rw [hv]
    exact he
  unfold allocBuffer
  split
  · rw [wlp_bind]
    refine wlp_malloc ?_ ?_
    · intro _
      rw [wlp_bind]
      exact hupdate (v := s.tick) rfl hb
    · intro b _ hn
      have hne : e ≠ b := by
        rintro rfl
        rw [hb] at hn
        cases hn
      rw [wlp_bind]
      exact hupdate rfl ((store_of_ne (s := s.tick) _ hne).trans hb)
  · exact ⟨e, he, hel⟩

/-- an allocated handle is found -/
theorem teeAllocateOperation_listed (hw : WellFormed s) :
    wlp (teeAllocateOperation c true m k n) (fun r t => r.1 = teeSuccess → Listed r.2 t) s := by
  have hreg : wlp (teeAllocateOperation c true m k n) (fun r t => r.1 = teeSuccess →
      r.2 ≠ 0 ∧ Registered t r.2) s := by
    refine teeAllocateOperation_wlp (Q := fun op t => op ≠ 0 ∧ Registered t op)
      fun a op t _ h0 _ _ _ hr => ?_
    refine wlp_andThen (wlp_mono (allocBuffer_registered hr) ?_)
    intro res v hv _
    have := stable_frame fun f => f.Registered op
    have hrest : Maintains (fun s : Sys => s.frame.Registered op) (andThen (setBlockSize op a) <|
        andThen (allocKeys op a m n) <| andThen (allocState c op m k) <|
        andThen (initDigest c op m) (setInitial op)) :=
      keeps_andThen (keeps_setBlockSize (p := fun f => f.Registered op) op a) <|
      keeps_andThen (keeps_allocKeys op a m n) <| keeps_andThen (keeps_allocState op m k) <|
      keeps_andThen (keeps_initDigest op m) (keeps_setInitial op)
    exact wlp_mono (hrest v hv) fun _ w hw' _ => ⟨h0, hw'⟩
  refine wlp_mono (wlp_and hreg (teeAllocateOperation_wellFormed hw)) ?_
  exact fun r t ht hr => ⟨(ht.1 hr).1, ht.2, (ht.1 hr).2⟩

theorem mem_digests {a : Setup} (ha : setupOf m k = some a)
    (hclass : teeAlgGetClass m = teeOperationDigest) : m ∈ teeAlgDigest := by
  have hother : ∀ {l : List Nat}, (∀ m ∈ l, teeAlgGetClass m ≠ teeOperationDigest) → m ∉ l :=
    fun hl hm => hl m hm hclass
  have hpad : m ≠ teeAlgRsaNoPad := fun e =>
    hother (l := [teeAlgRsaNoPad]) (by decide) (List.mem_singleton.mpr e)
  by_contra hm
  unfold setupOf at ha
  rw [if_neg (hother (by decide)), if_neg (hother (by decide)), if_neg (hother (by decide)),
    if_neg hpad, if_neg (hother (by decide)), if_neg hm, if_neg (hother (by decide))] at ha
  cases ha

/-- a new digest handle -/
theorem prepareOperation_digest {a : Setup} (hw : c.Works) (ha : setupOf m k = some a)
    (hr : Raised c m k h o s) (hclass : teeAlgGetClass m = teeOperationDigest)
    (hsize : teeHashGetDigestSize m = some size) :
    wlp (prepareOperation c h a m k n) (fun res t => res = teeSuccess → ∃ o',
      Hasher c teeOperationDigest size h [] o' t ∧ input o'.state t.log = some ([], [])) s := by
  have hmem := mem_digests ha hclass
  refine wlp_andThen (wlp_mono (allocBuffer_raised hr) ?_)
  rintro _ t1 ⟨-, b, hr1⟩ -
  refine wlp_andThen ?_
  rw [setBlockSize, wlp_bind]
  refine wlp_mono (hr1.update (fun o => { o with
    blockSize := a.blockSize, bufferTwoBlocks := a.bufferTwoBlocks }) rfl) ?_
  rintro _ t2 ⟨hr2, -⟩ -
  refine wlp_andThen ?_
  rw [allocKeys, if_pos hclass]
  intro _
  refine wlp_andThen (wlp_mono (allocState_raised hr2) ?_)
  intro res t3 h3 hres
  obtain ⟨o3, hr3, -, cs, hcs, halgo, -⟩ := h3 hres
  have ho3 : Hasher c teeOperationDigest size h [] o3 t3 := by
    refine ⟨hr3.block, hr3.cls.trans hclass, ?_, (fun h => by cases h), hr3.core, cs, hcs, ?_,
      .inl ⟨rfl, ?_, rfl⟩⟩
    · unfold Operation.has
      rw [hr3.flags, handleStateOf, if_pos hmem]
      split
      · decide
      · decide
    · rw [halgo]
      exact hclass
    · rw [halgo]
      exact hsize
  refine wlp_andThen (wlp_of_wp ?_)
  rw [initDigest, if_pos hclass, wp_bind, wp_of_eq (opAt_eq ho3.handle), wp_bind]
  refine ho3.hashInit hw fun t4 h4 hlog4 => ?_
  rw [if_neg (not_not.mpr rfl), wp_bind]
  refine h4.updateOp (restates_setFlag o3 o3.bufferOffs) fun t5 h5 hlog5 _ => ?_
  refine wlp_of_wp ?_
  rw [setInitial, wp_bind]
  refine h5.updateOp (restates_state _ _) fun t6 h6 hlog6 _ => ⟨_, h6, ?_⟩
  rw [hlog6, hlog5, hlog4]
  exact if_pos rfl

/-- **The digests of an operation are the ones of its messages.** -/
theorem digests_run {hash : List UInt8 → List UInt8 → List UInt8} (hw : c.Streams size hash)
    (hc : Core c.provider s.utc) (hreg : WellFormed s) (hlog : s.log = [])
    (hclass : teeAlgGetClass m = teeOperationDigest) (hsize : teeHashGetDigestSize m = some size)
    (calls : List HashCall) :
    wlp (teeAllocateOperation c true m k n) (fun r t => r.1 = teeSuccess →
      wp (Digest.collect (digestCall c r.2) calls) (fun q _ => some q =
        Digest.answers ⟨size, hash [], some []⟩ (some []) (calls.map HashCall.view)) t) s := by
  have halloc : wlp (teeAllocateOperation c true m k n) (fun r t => r.1 = teeSuccess → ∃ o,
      Hasher c teeOperationDigest size r.2 [] o t ∧ input o.state t.log = some ([], [])) s := by
    refine teeAllocateOperation_wlp (Q := fun op t => ∃ o,
      Hasher c teeOperationDigest size op [] o t ∧ input o.state t.log = some ([], []))
      fun a op t ha _ hb hu hl _ => ?_
    have hr : Raised c m k op (Operation.start a m k n) t := by
      refine ⟨hb, ?_, hl.trans hlog, rfl, rfl, rfl, rfl⟩
      rw [hu]
      exact hc
    exact prepareOperation_digest hw.works ha hr hclass hsize
  obtain ⟨rs, hrs⟩ := Digest.answers_total (p := ⟨size, hash [], some []⟩) rfl []
    (calls.map HashCall.view)
  refine wlp_mono (wlp_and halloc (teeAllocateOperation_listed hreg)) ?_
  rintro r t ⟨h1, h2⟩ hr
  obtain ⟨o, ho, hi⟩ := h1 hr
  have hstart : Hashing c teeOperationDigest size r.2 [] (some []) t := by
    refine ⟨h2 hr, o, ho, ?_⟩
    rintro _ ⟨⟩
    exact ⟨hi, fun e => absurd e (by decide)⟩
  rw [hrs]
  refine wp_mono (Digest.refines (G := fun _ => True)
    (I := Hashing c teeOperationDigest size r.2 [])
    (fun q x v b e hv _ hx => digestCall_step hw hv x hx) hstart (fun _ _ => trivial) hrs) ?_
  rintro q v ⟨rfl, -⟩
  rfl

/-- the pieces of a message, attempts that lack room, and the last piece -/
def messageCalls (pieces : List Source) (tries : List (Source × Nat)) (last : Source) (room : Nat) :
    List HashCall :=
  pieces.map .update ++ (tries.map (fun x => HashCall.doFinal x.1 x.2) ++ [.doFinal last room])

theorem messageCalls_view (pieces : List Source) (tries : List (Source × Nat)) (last : Source)
    (room : Nat) : (messageCalls pieces tries last room).map HashCall.view =
      (pieces.map Source.bytes).map .add ++
        ((tries.map fun x => (x.1.bytes, x.2)).map (fun x => .finish x.1 x.2) ++
          .finish last.bytes room :: []) := by
  unfold messageCalls
  rw [List.map_append, List.map_append, List.map_map, List.map_map, List.map_map, List.map_map]
  rfl

/-- **A message in pieces**, with attempts that lack room before the last one. -/
theorem digest_message {hash : List UInt8 → List UInt8 → List UInt8} (hw : c.Streams size hash)
    (hc : Core c.provider s.utc) (hreg : WellFormed s) (hlog : s.log = [])
    (hclass : teeAlgGetClass m = teeOperationDigest) (hsize : teeHashGetDigestSize m = some size)
    (pieces : List Source) {tries : List (Source × Nat)} (ht : ∀ x ∈ tries, x.2 < size)
    (last : Source) {room : Nat} (hroom : size ≤ room) :
    wlp (teeAllocateOperation c true m k n) (fun r t => r.1 = teeSuccess →
      wp (Digest.collect (digestCall c r.2) (messageCalls pieces tries last room)) (fun q _ => q =
          List.replicate pieces.length .done ++ (List.replicate tries.length (.short size) ++
            [.digest (hash [] ((pieces.map Source.bytes).flatten ++ last.bytes))])) t) s := by
  refine wlp_mono (digests_run (k := k) (n := n) hw hc hreg hlog hclass hsize
    (messageCalls pieces tries last room)) ?_
  intro r t ht' hr
  refine wp_mono (ht' hr) ?_
  intro q v hq
  have hshort : ∀ y ∈ tries.map fun x => (x.1.bytes, x.2), y.2 < size := by
    intro y hy
    obtain ⟨x, hx, rfl⟩ := List.mem_map.mp hy
    exact ht x hx
  have hall := Digest.answers_message (p := ⟨size, hash [], some []⟩) (l := [])
    (m := pieces.map Source.bytes) (d := last.bytes) hshort hroom
  rw [messageCalls_view, hall] at hq
  simpa [Digest.answers] using hq

/-- a handle whose key is set -/
theorem Good.hasher {keys : Option (List UInt8)} (ho : s.heap.blocks h = some (.op o))
    (hg : Good c o s.utc s.log) (hm : o.info.operationClass = teeOperationMac)
    (hset : o.has teeHandleFlagKeySet = true)
    (hsize : teeMacGetDigestSize o.info.algorithm = some size)
    (hkey : lastKeys s.log = some (key, keys)) : Hasher c teeOperationMac size h key o s := by
  obtain ⟨cs, -, hcs, halgo, hk1, -⟩ := hg.toAttached.stateAt
  obtain ⟨key', keys', hlast, hk, -⟩ := hg.keys hset
  rw [hkey] at hlast
  cases hlast
  have hcls : teeAlgGetClass cs.algo = teeOperationMac := by rw [halgo, ← hg.cls, hm]
  refine ⟨ho, hm, hset, fun _ h0 => ?_, hg.core, cs, hcs, hcls, .inr ⟨rfl, ?_, ?_⟩⟩
  · obtain ⟨x, j, len, data, hx, -⟩ := id hk
    have hmem := hx.mem hg.core
    rw [h0] at hmem
    exact hg.core.zero_notMem hmem
  · rw [halgo]
    exact hsize
  · rw [hk1]
    exact hk

/-- a handle of a run is found -/
theorem listed_run (hreg : WellFormed s) (l : List Step) :
    wlp (useOperation c m k n l) (fun r t => r.1 = teeSuccess → Listed r.2 t) s :=
  useOperation_run (I := Listed) (teeAllocateOperation_listed hreg)
    (fun h x s hs => keeps_step x s hs) l

theorem macs_run {hash : List UInt8 → List UInt8 → List UInt8} (hw : c.Streams size hash)
    (hc : Core c.provider s.utc) (hreg : WellFormed s) (hlog : s.log = [])
    (hclass : teeAlgGetClass m = teeOperationMac) (hsize : teeMacGetDigestSize m = some size)
    (l : List Step) {calls : List HashCall} (hfit : ∀ x ∈ calls, x.Fits c) :
    wlp (useOperation c m k n l) (fun r t => r.1 = teeSuccess → ∀ o key keys replies,
      t.heap.blocks r.2 = some (.op o) → o.has teeHandleFlagKeySet = true →
      lastKeys t.log = some (key, keys) →
      Digest.answers ⟨size, hash key, none⟩ none (calls.map HashCall.view) = some replies →
      wp (Digest.collect (macCall c r.2) calls) (fun q _ => q = replies) t) s := by
  refine wlp_mono (wlp_and (reachedAt_run hc hlog (.inr hclass) l) (listed_run hreg l)) ?_
  rintro r t ⟨h1, h2⟩ hr o key keys replies ho hset hkey hrs
  obtain ⟨h0, ⟨o1, ho1, hg⟩, a, -, o2, ho2, hseat⟩ := h1 hr
  rw [ho] at ho1 ho2
  cases ho1
  cases ho2
  have hm : o.info.operationClass = teeOperationMac := by
    rw [hg.cls, hseat.algorithm]
    exact hclass
  have hh := hg.hasher ho hm hset (by rw [hseat.algorithm]; exact hsize) hkey
  have hstart : Hashing c teeOperationMac size r.2 key none t := ⟨h2 hr, o, hh, nofun⟩
  refine wp_mono (Digest.refines (G := fun x => x.Fits c)
    (I := Hashing c teeOperationMac size r.2 key)
    (fun q x v b e hv hx hstep => macCall_step hw hv x hx hstep) hstart hfit hrs) ?_
  exact fun q v hq => hq.1

/-- **Digests and MACs are the ones of their messages**, however these are cut, whatever attempts
lack room and whatever came before. -/
theorem streams_run {hash : List UInt8 → List UInt8 → List UInt8} (hw : c.Streams size hash)
    (hc : Core c.provider s.utc) (hreg : WellFormed s) (hlog : s.log = []) (calls : List HashCall) :
    (teeAlgGetClass m = teeOperationDigest → teeHashGetDigestSize m = some size →
      wlp (teeAllocateOperation c true m k n) (fun r t => r.1 = teeSuccess →
        wp (Digest.collect (digestCall c r.2) calls) (fun q _ => some q =
          Digest.answers ⟨size, hash [], some []⟩ (some []) (calls.map HashCall.view)) t) s) ∧
    (teeAlgGetClass m = teeOperationMac → teeMacGetDigestSize m = some size →
      (∀ x ∈ calls, x.Fits c) → ∀ l,
      wlp (useOperation c m k n l) (fun r t => r.1 = teeSuccess → ∀ o key keys replies,
        t.heap.blocks r.2 = some (.op o) → o.has teeHandleFlagKeySet = true →
        lastKeys t.log = some (key, keys) →
        Digest.answers ⟨size, hash key, none⟩ none (calls.map HashCall.view) = some replies →
        wp (Digest.collect (macCall c r.2) calls) (fun q _ => q = replies) t) s) :=
  ⟨fun hclass hsize => digests_run hw hc hreg hlog hclass hsize calls,
    fun hclass hsize hfit l => macs_run hw hc hreg hlog hclass hsize l hfit⟩

/-- the sum of some bytes -/
def byteSum (d : List UInt8) : UInt8 := d.foldl (· + ·) 0

/-- a library whose digests are sums -/
def sumCrypto : Crypto where
  provider := sampleProvider
  answer := fun _ _ => teeSuccess
  ran := fun _ _ => true
  ran_success := always_ran
  ran_short := never_short
  length := fun _ _ => 0
  mac := fun log i =>
    match log with
    | .final st _ _ :: log =>
      match input st log with
      | some (key, msg) => byteSum key + byteSum msg + UInt8.ofNat i
      | none => 0
    | _ => 0
  maxChunk := 0x400

def sumHash (size : Nat) (key msg : List UInt8) : List UInt8 :=
  (List.range size).map fun i => byteSum key + byteSum msg + UInt8.ofNat i

theorem sumCrypto_streams (size : Nat) : sumCrypto.Streams size (sumHash size) where
  works := fun _ _ => rfl
  digest := by
    intro st log key msg hi
    refine List.map_congr_left fun i _ => ?_
    show (match input st log with
      | some (key, msg) => byteSum key + byteSum msg + UInt8.ofNat i
      | none => 0) = _
    rw [hi]

/-- the replies to calls on the handle that `x` gives -/
def repliesOf (x : O (Nat × Nat)) (call : Nat → HashCall → O (Digest.Reply UInt8))
    (calls : List HashCall) (s : Sys) : Option (List (Digest.Reply UInt8)) :=
  match x s with
  | .error _ => none
  | .ok (r, t) =>
    match Digest.collect (call r.2) calls t with
    | .error _ => none
    | .ok (q, _) => if r.1 = teeSuccess then some q else none

/-- two messages, the first of them with an attempt that lacks room -/
def sampleCalls : List HashCall :=
  [.start, .update ⟨some fun _ => 7, 5, nofun⟩, .doFinal ⟨some fun _ => 9, 3, nofun⟩ 31,
   .doFinal ⟨some fun _ => 9, 3, nofun⟩ 32, .start, .doFinal ⟨none, 0, fun _ => rfl⟩ 64]

theorem streams_run_samples :
    repliesOf (teeAllocateOperation sumCrypto true teeAlgSha256 teeModeDigest 0)
      (digestCall sumCrypto) sampleCalls (Sys.start (Utc.empty Cryp.sampleAnswers) Cryp.sampleAnswers) =
      some [.done, .done, .short 32, .digest (sumHash 32 [] [7, 7, 7, 7, 7, 9, 9, 9]), .done,
        .digest (sumHash 32 [] [])] ∧
    repliesOf (useOperation sumCrypto teeAlgHmacSha256 teeModeMac 256 hmacSteps)
      (macCall sumCrypto) sampleCalls (Sys.start (behind sampleProvider hmacKey) Cryp.sampleAnswers) =
      some [.done, .done, .short 32,
        .digest (sumHash 32 ((List.range 32).map UInt8.ofNat) [7, 7, 7, 7, 7, 9, 9, 9]), .done,
        .digest (sumHash 32 ((List.range 32).map UInt8.ofNat) [])] ∧
    wlp (teeAllocateOperation sumCrypto true teeAlgSha256 teeModeDigest 0) (fun r t =>
      r.1 = teeSuccess → wp (Digest.collect (digestCall sumCrypto r.2) sampleCalls) (fun q _ =>
        some q = Digest.answers ⟨32, sumHash 32 [], some []⟩ (some [])
          (sampleCalls.map HashCall.view)) t) (Sys.start (Utc.empty Cryp.sampleAnswers) Cryp.sampleAnswers) ∧
    wlp (useOperation sumCrypto teeAlgHmacSha256 teeModeMac 256 hmacSteps) (fun r t =>
      r.1 = teeSuccess → ∀ o key keys replies, t.heap.blocks r.2 = some (.op o) →
      o.has teeHandleFlagKeySet = true → lastKeys t.log = some (key, keys) →
      Digest.answers ⟨32, sumHash 32 key, none⟩ none (sampleCalls.map HashCall.view) = some replies →
      wp (Digest.collect (macCall sumCrypto r.2) sampleCalls) (fun q _ => q = replies) t)
      (Sys.start (behind sampleProvider hmacKey) Cryp.sampleAnswers) := by
  have hl : ∀ h, Call.objClose h ∉ hmacKey := by
    intro h hm
    simp [hmacKey] at hm
  have hc := core_behind sampleProvider hl
  have hfit : ∀ x ∈ sampleCalls, x.Fits sumCrypto := by
    intro x hx
    simp only [sampleCalls, List.mem_cons, List.not_mem_nil, or_false] at hx
    rcases hx with rfl | rfl | rfl | rfl | rfl | rfl
    · exact trivial
    · show 5 ≤ 0x400
      decide
    · show 31 ≤ 0x400
      decide
    · show 32 ≤ 0x400
      decide
    · exact trivial
    · show 64 ≤ 0x400
      decide
  refine ⟨by decide +kernel, by decide +kernel, ?_, ?_⟩
  · have hc0 := Core.empty (p := sampleProvider) Cryp.sampleAnswers
    generalize Utc.empty Cryp.sampleAnswers = u at hc0
    exact (streams_run (c := sumCrypto) (s := Sys.start u Cryp.sampleAnswers) (sumCrypto_streams 32) hc0
      (start_wellFormed _ _) rfl sampleCalls).1 (by decide) (by decide)
  · generalize behind sampleProvider hmacKey = u at hc
    exact (streams_run (c := sumCrypto) (s := Sys.start u Cryp.sampleAnswers) (sumCrypto_streams 32) hc
      (start_wellFormed _ _) rfl sampleCalls).2 (by decide) (by decide) hfit hmacSteps

end MTower.Oper
