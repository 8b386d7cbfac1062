import MTower.Storage.Store

/-!
# Runs of the store

The calls of all TAs, one after the other and in any order, each with the UUID of its caller.  Beside
the state a book is kept of what the callers know: the objects that were made and not deleted, and
the handles that were handed out and not passed to a delete.

* `Effect`, `call_effect`  what a call can do, in terms of the entries;
* `step`, `Booked`         the runs with their book;
* `lookupComplete_iff`     when the object that is asked for is found;
* `open_isolated`          what a handle can refer to;
* `handlesLive_of_run`     when the handles stay live.
-/

set_option linter.unusedVariables false

namespace MTower.Storage
open Lib
open Kernel (Uuid)

/-! ## calls -/

/-- a call of the store, with the UUID of the session where it matters -/
inductive Call where
  | objCreate (uuid : Uuid) (objectId : List UInt8) (flags : Nat) (data : List UInt8)
  | objOpen (uuid : Uuid) (objectId : List UInt8) (flags : Nat)
  | objRead (obj len : Nat)
  | objDel (obj : Nat)

def call : Call → S Reply
  | .objCreate uuid objectId flags data => do
    let res ← uteeStorageObjCreate uuid objectId flags data
    pure ⟨res, 0⟩
  | .objOpen uuid objectId flags => uteeStorageObjOpen uuid objectId flags
  | .objRead obj len => do
    let r ← uteeStorageObjRead obj len
    pure ⟨r.1, 0⟩
  | .objDel obj => do
    let res ← uteeStorageObjDel obj
    pure ⟨res, 0⟩

/-- what a call can do with the entries `es`: leave the store; make an entry; give up the last entry
because there is no block for its handle; make a handle; move one; delete an entry -/
inductive Effect (es : List Entry) (s : State) : Call → Reply → List Entry → State → Prop where
  | kept (c : Call) (res : Nat) (t : State) : t.heap.blocks = s.heap.blocks → t.links = s.links →
      (res = teeSuccess → ∃ uuid objectId flags, c = .objOpen uuid objectId flags) →
      Effect es s c ⟨res, 0⟩ es t
  | created (flags : Nat) (e : Entry) (t : State) : Grown s t →
      Effect es s (.objCreate e.pobj.uuid e.id flags e.data) ⟨teeSuccess, 0⟩ (e :: es) t
  | dropped (uuid : Uuid) (objectId : List UInt8) (flags : Nat) (es' : List Entry) (e : Entry)
      (t : State) : Admits objectId flags → (∀ e ∈ es, Matches uuid objectId e) → s.heap.Full →
      es = es' ++ [e] → t.heap.blocks = withoutEntry s.heap.blocks e →
      Effect es s (.objOpen uuid objectId flags) ⟨teeErrorOutOfMemory, 0⟩ es' t
  | found (uuid : Uuid) (objectId : List UInt8) (flags : Nat) (es' : List Entry) (e : Entry)
      (a : Nat) (t : State) : es = es' ++ [e] → a ≠ 0 → s.heap.blocks a = none →
      t.heap.blocks = Function.update s.heap.blocks a (some (.obj (newObj flags e.addr))) →
      Effect es s (.objOpen uuid objectId flags) ⟨teeSuccess, a⟩ es t
  | moved (h len : Nat) (o : Obj) (pos : Nat) (t : State) : s.heap.blocks h = some (.obj o) →
      t.heap.blocks = Function.update s.heap.blocks h (some (.obj { o with dataPosition := pos })) →
      Effect es s (.objRead h len) ⟨teeSuccess, 0⟩ es t
  | deleted (h : Nat) (o : Obj) (es1 : List Entry) (e : Entry) (es2 : List Entry) (t : State) :
      s.heap.blocks h = some (.obj o) → o.pobj = e.addr →
      o.handleFlags &&& teeDataFlagAccessWriteMeta ≠ 0 → es = es1 ++ e :: es2 →
      t.heap.blocks = Function.update (withoutEntry s.heap.blocks e) h none →
      Effect es s (.objDel h) ⟨teeSuccess, 0⟩ (es1 ++ es2) t

/-- **What a call does.** -/
theorem call_effect {s : State} {es : List Entry} (hs : Stored s es) (c : Call) :
    wlp (call c) (fun r t => ∃ es', Stored t es' ∧ Effect es s c r es' t) s := by
  cases c with
  | objCreate uuid objectId flags data =>
    rw [call, wlp_bind]
    refine wlp_mono (create_effect hs uuid objectId flags data) ?_
    intro res t h
    rw [wlp_pure]
    rcases h with ⟨hres, hb, hl⟩ | ⟨rfl, hg, e, ht, rfl, rfl, rfl⟩
    · refine ⟨es, hs.frame hl ?_ ?_ ?_, .kept _ res t hb hl fun h => absurd h hres⟩
      · intro a b h _
        rw [hb, h]
      · intro a p h
        rw [← hb, h]
      · rw [hb]
        exact hs.small
    · exact ⟨e :: es, ht, .created flags e t hg⟩
  | objOpen uuid objectId flags =>
    refine wlp_mono (wlp_of_wp (open_effect hs uuid objectId flags)) ?_
    intro r t h
    obtain ⟨es', ht, hes'⟩ := h.stored hs
    cases h with
    | refused h => exact ⟨es, hs, .kept _ _ _ rfl rfl fun _ => ⟨_, _, _, rfl⟩⟩
    | absent h _ => exact ⟨es, hs, .kept _ _ _ rfl rfl fun _ => ⟨_, _, _, rfl⟩⟩
    | full es1 e had hes hall hfull =>
      have h : es' = es1 := by
        rcases hes' with h | ⟨e', h, -⟩
        · -- the object of the last entry is gone
          obtain ⟨p, hp⟩ := ht.pobjOf (a := e.addr) (by
            rw [h, hes, addrs, List.map_append]
            exact List.mem_append_right _ (List.mem_singleton_self _))
          have hp : withoutEntry s.heap.blocks e e.addr = some (.pobj p) := hp
          rw [withoutEntry, Function.update_self] at hp
          cases hp
        · rw [hes] at h
          exact (List.append_inj_left' h rfl).symm
      subst h
      exact ⟨es', ht, .dropped _ _ _ es' e _ had hall hfull hes rfl⟩
    | found es1 e _ hes _ hnf =>
      obtain ⟨h0, -, hn⟩ := Heap.not_full_iff.mp hnf
      have h : es' = es := by
        rcases hes' with h | ⟨-, -, h⟩
        · exact h
        · exact absurd h hnf
      subst h
      exact ⟨es', ht, .found _ _ _ es1 e _ _ hes h0 hn rfl⟩
  | objRead obj len =>
    rw [call, wlp_bind]
    refine wlp_mono (read_effect s obj len) ?_
    rintro ⟨res, l⟩ t ⟨rfl, o, pos, ho, rfl⟩
    rw [wlp_pure]
    refine ⟨es, hs.setHandle (Or.inr ⟨o, ho⟩) (fun p h => by cases h) fun _ => ?_,
      .moved obj len o pos _ ho rfl⟩
    refine hs.small obj ?_
    rw [ho]
    exact Option.some_ne_none _
  | objDel obj =>
    rw [call, wlp_bind]
    refine wlp_mono (del_effect hs obj) ?_
    intro res t h
    rw [wlp_pure]
    cases h with
    | refused _ hres => exact ⟨es, hs, .kept _ _ _ rfl rfl fun h => absurd h hres⟩
    | removed o es1 e es2 ho hpo hm hes =>
      subst hes
      exact ⟨es1 ++ es2, hs.deleted ho, .deleted obj o es1 e es2 _ ho hpo hm rfl rfl⟩

/-! ## the book -/

/-- an object that was made -/
structure Made where
  addr : Nat
  uuid : Uuid
  id : List UInt8
deriving DecidableEq

structure Book where
  made : List Made
  handles : List Nat

/-- the object that a handle refers to -/
def madeOf (s : State) (h : Nat) : Option Made :=
  match s.heap.blocks h with
  | some (.obj o) =>
    match s.heap.blocks o.pobj with
    | some (.pobj p) =>
      match s.heap.blocks p.objId with
      | some (.bytes l) => some ⟨o.pobj, p.uuid, l⟩
      | _ => none
    | _ => none
  | _ => none

/-- a create that succeeds makes the first object of the list; a delete that succeeds takes away the
object of its handle, and the handle is passed to it whether it succeeds or not -/
def note (c : Call) (r : Reply) (s t : State) (b : Book) : Book :=
  match c with
  | .objCreate uuid objectId _ _ =>
    if r.res = teeSuccess then
      { b with made := ⟨t.links.first .globalPobjList, uuid, objectId⟩ :: b.made }
    else b
  | .objOpen _ _ _ =>
    if r.res = teeSuccess ∧ r.obj ≠ 0 then { b with handles := r.obj :: b.handles } else b
  | .objRead _ _ => b
  | .objDel h =>
    { made := if r.res = teeSuccess then b.made.diff (madeOf s h).toList else b.made
      handles := b.handles.filter (· ≠ h) }

/-- a state with its book -/
abbrev World := State × Book

def World.boot (answers : Nat → Nat) : World := (.boot answers, ⟨[], []⟩)

def step (c : Call) : Exec Fault World Reply := ghost (note c) (call c)

def Entry.made (e : Entry) : Made := ⟨e.addr, e.pobj.uuid, e.id⟩

/-- every entry is in the book -/
def Booked (w : World) : Prop := ∃ es, Stored w.1 es ∧ ∀ e ∈ es, e.made ∈ w.2.made

theorem Booked.boot (answers : Nat → Nat) : Booked (.boot answers) :=
  ⟨[], .boot answers, fun e he => absurd he List.not_mem_nil⟩

theorem madeOf_handle {s : State} {h : Nat} {o : Obj} {e : Entry}
    (ho : s.heap.blocks h = some (.obj o)) (hpo : o.pobj = e.addr) (he : e.In s.heap.blocks) :
    madeOf s h = some e.made := by
  simp only [madeOf, ho, hpo, he.pobj, he.id]
  rfl

/-- the book after a delete still has the entries that are left -/
theorem made_diff {es1 es2 : List Entry} {e : Entry} {made : List Made}
    (h : ∀ e' ∈ es1 ++ e :: es2, e'.made ∈ made) (hne : ∀ e' ∈ es1 ++ es2, e'.addr ≠ e.addr) :
    ∀ e' ∈ es1 ++ es2, e'.made ∈ made.diff [e.made] := by
  intro e' he'
  have hmem : e' ∈ es1 ++ e :: es2 := by
    rcases List.mem_append.mp he' with h | h
    · exact List.mem_append_left _ h
    · exact List.mem_append_right _ (List.mem_cons_of_mem e h)
  rw [List.diff_cons, List.diff_nil]
  refine (List.mem_erase_of_ne ?_).mpr (h e' hmem)
  intro heq
  exact hne e' he' (congrArg Made.addr heq)

theorem note_open_made {uuid : Uuid} {objectId : List UInt8} {flags : Nat} {r : Reply} {s t : State}
    {b : Book} : (note (.objOpen uuid objectId flags) r s t b).made = b.made := by
  simp only [note]
  split <;> rfl

/-- **A step keeps the book.** -/
theorem step_booked (c : Call) {w : World} (hw : Booked w) :
    wlp (step c) (fun _ w' => Booked w') w := by
  obtain ⟨s, b⟩ := w
  obtain ⟨es, hs, hb⟩ := hw
  have hb : ∀ e ∈ es, e.made ∈ b.made := hb
  rw [step, wlp_ghost]
  refine wlp_mono (call_effect hs c) ?_
  intro r t h
  obtain ⟨es', ht, heff⟩ := h
  refine ⟨es', ht, ?_⟩
  show ∀ e ∈ es', e.made ∈ (note c r s t b).made
  cases heff with
  | kept _ res _ hbl hl hres =>
    cases c with
    | objCreate uuid objectId flags data =>
      have hf : res ≠ teeSuccess := fun h => by
        obtain ⟨_, _, _, h⟩ := hres h
        cases h
      simp only [note, if_neg hf]
      exact hb
    | objOpen uuid objectId flags =>
      rw [note_open_made]
      exact hb
    | objRead obj len => exact hb
    | objDel obj =>
      have hf : res ≠ teeSuccess := fun h => by
        obtain ⟨_, _, _, h⟩ := hres h
        cases h
      simp only [note, if_neg hf]
      exact hb
  | created flags e _ hg =>
    have hfirst : t.links.first .globalPobjList = e.addr := by
      rcases ht.first_eq with ⟨-, h⟩ | ⟨e', es'', h, hf, -⟩
      · cases h
      · cases h
        exact hf
    simp only [note, hfirst]
    intro e' he'
    rcases List.mem_cons.mp he' with rfl | he'
    · exact List.mem_cons_self
    · exact List.mem_cons_of_mem _ (hb e' he')
  | dropped uuid objectId flags _ e _ _ _ _ hes _ =>
    rw [note_open_made]
    intro e' he'
    refine hb e' ?_
    rw [hes]
    exact List.mem_append_left _ he'
  | found uuid objectId flags es1 e a _ hes h0 hn _ =>
    rw [note_open_made]
    exact hb
  | moved h len o pos _ ho _ => exact hb
  | deleted h o es1 e es2 _ ho hpo hm hes _ =>
    subst hes
    have he := hs.live e (List.mem_append_right _ List.mem_cons_self)
    simp only [note, madeOf_handle ho hpo he, Option.toList_some]
    exact made_diff hb (nodup_addrs_split hs)

theorem run_booked (answers : Nat → Nat) (calls : List Call) :
    wlp (run step calls) (fun _ w => Booked w) (.boot answers) :=
  wlp_run (fun c w hw => step_booked c hw) (Booked.boot answers)

theorem booked_of_run {answers : Nat → Nat} {calls : List Call} {u : PUnit} {w : World}
    (e : run step calls (.boot answers) = .ok (u, w)) : Booked w :=
  wlp_iff.mp (run_booked answers calls) u w e

/-! ## lookup -/

/-- at `a` there is an object with this UUID and this id, byte for byte and in length -/
def IsObject (s : State) (a : Nat) (uuid : Uuid) (objectId : List UInt8) : Prop :=
  ∃ p, s.heap.blocks a = some (.pobj p) ∧ p.uuid = uuid ∧ p.objIdLen = objectId.length ∧
    (objectId ≠ [] → ∃ l, s.heap.blocks p.objId = some (.bytes l) ∧
      l.take objectId.length = objectId)

/-- the handle refers to an object of the list with this UUID and this id -/
def RefersTo (s : State) (h : Nat) (uuid : Uuid) (objectId : List UInt8) : Prop :=
  ∃ o, s.heap.blocks h = some (.obj o) ∧ o.pobj ∈ s.links.elems .globalPobjList ∧
    IsObject s o.pobj uuid objectId

section
variable {s t : State} {es : List Entry} {e : Entry} {uuid : Uuid} {objectId : List UInt8}
  {flags : Nat}

theorem isObject_of_blocks {a : Nat} {p : Pobj} {l : List UInt8}
    (hp : s.heap.blocks a = some (.pobj p)) (hl : s.heap.blocks p.objId = some (.bytes l))
    (hlen : p.objIdLen = l.length) :
    IsObject s a uuid objectId ↔ p.uuid = uuid ∧ l = objectId := by
  constructor
  · intro h
    obtain ⟨p', hp', hu, hlen', hid⟩ := h
    obtain rfl : p = p' := by
      have h := hp.symm.trans hp'
      cases h
      rfl
    refine ⟨hu, ?_⟩
    have hll : l.length = objectId.length := hlen.symm.trans hlen'
    by_cases h0 : objectId = []
    · rw [h0] at hll ⊢
      exact List.eq_nil_of_length_eq_zero hll
    · obtain ⟨l', hb, htake⟩ := hid h0
      cases hl.symm.trans hb
      rw [← htake, ← hll, List.take_length]
  · intro h
    obtain ⟨rfl, rfl⟩ := h
    exact ⟨p, hp, rfl, hlen, fun _ => ⟨l, hl, List.take_length⟩⟩

theorem isObject_iff (he : e.In s.heap.blocks) :
    IsObject s e.addr uuid objectId ↔ Matches uuid objectId e :=
  isObject_of_blocks he.pobj he.id he.idLen

theorem forall_isObject (hs : Stored s es) :
    (∀ a ∈ s.links.elems .globalPobjList, IsObject s a uuid objectId) ↔
      ∀ e ∈ es, Matches uuid objectId e := by
  rw [hs.elems_eq]
  constructor
  · intro h e he
    exact (isObject_iff (hs.live e he)).mp (h e.addr (mem_addrs.mpr ⟨e, he, rfl⟩))
  · intro h a ha
    obtain ⟨e, he, rfl⟩ := mem_addrs.mp ha
    exact (isObject_iff (hs.live e he)).mpr (h e he)

/-- what an open needs to find an object: arguments it accepts, a block for the handle, and a list
that has only objects with this UUID and this id -/
structure OnlyOne (s : State) (uuid : Uuid) (objectId : List UInt8) (flags : Nat) : Prop where
  admits : Admits objectId flags
  fresh : ¬ s.heap.Full
  some : s.links.elems .globalPobjList ≠ []
  same : ∀ a ∈ s.links.elems .globalPobjList, IsObject s a uuid objectId

/-- **An open that finds an object.** -/
theorem open_finds (hs : Stored s es) (h : OnlyOne s uuid objectId flags) :
    wp (uteeStorageObjOpen uuid objectId flags) (fun r t => r.res = teeSuccess ∧
      ∃ o, t.heap.blocks r.obj = some (.obj o) ∧ o.pobj ∈ s.links.elems .globalPobjList ∧
        t.links = s.links ∧ IsObject t o.pobj uuid objectId) s := by
  have hall := (forall_isObject hs).mp h.same
  refine wp_mono (open_effect hs uuid objectId flags) ?_
  intro r t hr
  obtain ⟨es', ht, hes'⟩ := hr.stored hs
  cases hr with
  | refused hno => exact absurd h.admits hno
  | absent _ hno =>
    rcases hno with hnil | ⟨e, he, hne⟩
    · refine absurd ?_ h.some
      rw [hs.elems_eq, hnil]
      rfl
    · exact absurd (hall e he) hne
  | full _ _ _ _ _ hfull => exact absurd hfull h.fresh
  | found es1 e _ hes _ hnf =>
    have hmem : e ∈ es := by
      rw [hes]
      exact List.mem_append_right _ (List.mem_singleton_self e)
    have hsame : es' = es := by
      rcases hes' with h | ⟨-, -, h⟩
      · exact h
      · exact absurd h hnf
    subst hsame
    refine ⟨rfl, newObj flags e.addr, Function.update_self _ _ _, ?_, rfl, ?_⟩
    · rw [hs.elems_eq]
      exact mem_addrs.mpr ⟨e, hmem, rfl⟩
    · exact (isObject_iff (ht.live e hmem)).mpr (hall e hmem)

/-- an open that hands out a handle found that there is only one object -/
theorem onlyOne_of_open (hs : Stored s es) (h : wp (uteeStorageObjOpen uuid objectId flags)
    (fun r t => r.res = teeSuccess ∧ ∃ o, t.heap.blocks r.obj = some (.obj o)) s) :
    OnlyOne s uuid objectId flags := by
  obtain ⟨r, t, ⟨hres, o, ho⟩, hr⟩ := wp_wlp h (wlp_of_wp (open_effect hs uuid objectId flags))
  cases hr with
  | refused _ => exact absurd hres (by decide)
  | absent _ _ =>
    have h0 := hs.live_ne_zero ho
    exact absurd rfl h0
  | full _ _ _ _ _ _ => exact absurd hres (by decide)
  | found es1 e had hes hall hnf =>
    refine ⟨had, hnf, ?_, (forall_isObject hs).mpr hall⟩
    rw [hs.elems_eq, hes, addrs, List.map_append]
    exact List.append_ne_nil_of_right_ne_nil _ (List.cons_ne_nil _ _)

end

/-- if an object with this UUID and this id was made and not deleted, an open hands out a handle to
such an object -/
def LookupComplete (w : World) (uuid : Uuid) (objectId : List UInt8) (flags : Nat) : Prop :=
  (∃ m ∈ w.2.made, m.uuid = uuid ∧ m.id = objectId) →
    wp (uteeStorageObjOpen uuid objectId flags) (fun r t => r.res = teeSuccess ∧
      ∃ o, t.heap.blocks r.obj = some (.obj o) ∧ ⟨o.pobj, uuid, objectId⟩ ∈ w.2.made ∧
        IsObject t o.pobj uuid objectId) w.1

/-- **Lookup is complete exactly when there is nothing else to look at.** -/
theorem lookupComplete_iff (answers : Nat → Nat) (calls : List Call) :
    wlp (run step calls) (fun _ w => ∀ uuid objectId flags,
      LookupComplete w uuid objectId flags ↔
        ((∃ m ∈ w.2.made, m.uuid = uuid ∧ m.id = objectId) →
          OnlyOne w.1 uuid objectId flags)) (.boot answers) := by
  refine wlp_mono (run_booked answers calls) ?_
  intro _ w hw uuid objectId flags
  obtain ⟨es, hs, hb⟩ := hw
  constructor
  · intro h hm
    refine onlyOne_of_open hs (wp_mono (h hm) ?_)
    intro r t ht
    obtain ⟨hres, o, ho, -⟩ := ht
    exact ⟨hres, o, ho⟩
  · intro h hm
    have hone := h hm
    refine wp_mono (open_finds hs hone) ?_
    intro r t ht
    obtain ⟨hres, o, ho, hmem, -, hobj⟩ := ht
    refine ⟨hres, o, ho, ?_, hobj⟩
    rw [hs.elems_eq] at hmem
    obtain ⟨e, he, hea⟩ := mem_addrs.mp hmem
    have hm := (forall_isObject hs).mp hone.same e he
    have hmade := hb e he
    rw [Entry.made, hm.1, hm.2, hea] at hmade
    exact hmade

/-- an allocator that never fails -/
def roomy (n : Nat) : Nat := 0x1000 + 0x100 * n

def someTa : Uuid := ⟨1, 0, 0, List.replicate 8 0⟩

/-- a second object hides the first one -/
theorem lookupComplete_hidden : ∃ w,
    run step [.objCreate someTa [1] 0 [7], .objCreate someTa [2] 0 [8]] (.boot roomy)
      = .ok (⟨⟩, w) ∧ ¬ LookupComplete w someTa [1] teeDataFlagAccessRead := by
  refine ⟨_, rfl, ?_⟩
  intro h
  have hwp := h ⟨⟨0x1000, someTa, [1]⟩, List.mem_cons_of_mem _ List.mem_cons_self, rfl, rfl⟩
  obtain ⟨r, t, e, -, o, ho, -⟩ := wp_iff.mp hwp
  cases e
  cases ho

/-! ## isolation -/

section
variable {B : Nat → Option Block} {A : Nat → Nat} {n : Nat} {L : Links Queue} {uuid : Uuid}
  {objectId : List UInt8}

/-- a block that is read has the bytes -/
theorem wlp_bytesAt_eq {a len : Nat} {Q : List UInt8 → State → Prop}
    (h : ∀ l, (len ≠ 0 → ∃ b, B a = some (.bytes b) ∧ l = b.take len) →
      Q l ⟨⟨B, A, n⟩, L⟩) : wlp (bytesAt a len) Q ⟨⟨B, A, n⟩, L⟩ := by
  unfold bytesAt
  by_cases h0 : len = 0
  · rw [if_pos h0, wlp_pure]
    exact h [] fun hne => absurd h0 hne
  · rw [if_neg h0, wlp_bind, wlp_get]
    cases hb : B a with
    | none => simp [hb]
    | some b =>
      cases b with
      | pobj p => simp [hb]
      | obj o => simp [hb]
      | bytes b =>
        simp only [hb]
        split
        · exact h _ fun _ => ⟨b, hb, rfl⟩
        · exact wlp_throw

/-- **The loop only ever keeps a match.** -/
theorem wlp_findStored {s : State} {l : List Nat} {po : Nat} : wlp (findStored uuid objectId po l)
    (fun r t => t = s ∧ ∀ a, r = some a → (a = po ∧ l = []) ∨ a ∈ l ∧ IsObject s a uuid objectId)
    s := by
  obtain ⟨⟨B, A, n⟩, L⟩ := s
  induction l generalizing po with
  | nil =>
    rw [findStored, wlp_pure]
    exact ⟨rfl, fun a ha => Or.inl ⟨(Option.some.inj ha).symm, rfl⟩⟩
  | cons a l ih =>
    rw [findStored, wlp_bind, wlp_pobjAt]
    intro p hp
    by_cases hlen : objectId.length = p.objIdLen
    · rw [if_pos hlen, wlp_bind]
      refine wlp_bytesAt_eq ?_
      intro id hid
      by_cases hi : objectId = id
      · rw [if_pos hi]
        by_cases hu : uuid = p.uuid
        · have hobj : IsObject ⟨⟨B, A, n⟩, L⟩ a uuid objectId := by
            refine ⟨p, hp, hu.symm, hlen.symm, ?_⟩
            intro hne
            obtain ⟨b, hb, hl⟩ := hid fun h => hne (List.eq_nil_of_length_eq_zero h)
            exact ⟨b, hb, (hi.trans hl).symm⟩
          rw [if_pos hu]
          refine wlp_mono ih ?_
          intro r t h
          obtain ⟨rfl, h⟩ := h
          refine ⟨rfl, fun c hc => Or.inr ?_⟩
          rcases h c hc with ⟨rfl, -⟩ | ⟨hmem, hc⟩
          · exact ⟨List.mem_cons_self, hobj⟩
          · exact ⟨List.mem_cons_of_mem a hmem, hc⟩
        · rw [if_neg hu, wlp_pure]
          exact ⟨rfl, fun c hc => by cases hc⟩
      · rw [if_neg hi, wlp_pure]
        exact ⟨rfl, fun c hc => by cases hc⟩
    · rw [if_neg hlen, wlp_pure]
      exact ⟨rfl, fun c hc => by cases hc⟩

end

/-- a new block changes no object -/
theorem IsObject.alloc {s : State} {a c n : Nat} {b : Block} {uuid : Uuid} {objectId : List UInt8}
    (h : IsObject s a uuid objectId) (hc : s.heap.blocks c = none) :
    IsObject ⟨⟨Function.update s.heap.blocks c (some b), s.heap.answers, n⟩, s.links⟩ a uuid
      objectId := by
  have hold : ∀ d e, s.heap.blocks d = some e →
      Function.update s.heap.blocks c (some b) d = some e := by
    intro d e hd
    refine (Function.update_of_ne ?_ _ _).trans hd
    intro hdc
    rw [hdc, hc] at hd
    cases hd
  obtain ⟨p, hp, hu, hlen, hid⟩ := h
  refine ⟨p, hold _ _ hp, hu, hlen, ?_⟩
  intro hne
  obtain ⟨l, hl, htake⟩ := hid hne
  exact ⟨l, hold _ _ hl, htake⟩

/-- **Isolation**, whatever is in the list and in memory: a handle that an open hands out refers to
an object of the list with the caller's UUID and the id that was asked for. -/
theorem open_isolated (s : State) (uuid : Uuid) (objectId : List UInt8) (flags : Nat) :
    wlp (uteeStorageObjOpen uuid objectId flags) (fun r t =>
      r.res = teeSuccess → r.obj ≠ 0 → RefersTo t r.obj uuid objectId) s := by
  unfold uteeStorageObjOpen
  split
  · rw [wlp_pure]
    exact fun _ h => absurd rfl h
  split
  · rw [wlp_pure]
    exact fun _ h => absurd rfl h
  rw [wlp_bind, wlp_get]
  by_cases hfirst : s.links.first .globalPobjList = 0
  · rw [if_pos hfirst, wlp_pure]
    exact fun _ h => absurd rfl h
  rw [if_neg hfirst, wlp_bind]
  refine wlp_mono wlp_findStored ?_
  intro r t h
  obtain ⟨rfl, h⟩ := h
  cases r with
  | none => exact fun _ h => absurd rfl h
  | some po =>
    have hpo := h po rfl
    have hne : t.links.elems .globalPobjList ≠ [] := by
      show (if t.links.first .globalPobjList = 0 then [] else _) ≠ []
      rw [if_neg hfirst]
      exact List.cons_ne_nil _ _
    have hpo : po ∈ t.links.elems .globalPobjList ∧ IsObject t po uuid objectId := by
      rcases hpo with ⟨-, h⟩ | h
      · exact absurd h hne
      · exact h
    obtain ⟨⟨B, A, n⟩, L⟩ := t
    show wlp (teeMalloc _ >>= _) _ _
    rw [wlp_bind]
    by_cases hf : Fresh B A n
    · refine wlp_of_wp ((wp_malloc hf).mpr ?_)
      rw [if_neg hf.1, wlp_bind]
      refine wlp_of_wp (wp_storeAt.mpr ?_)
      rw [Function.update_idem, wlp_bind, wlp_pobjAt]
      intro p hp _ _
      exact ⟨_, Function.update_self _ _ _, hpo.1, hpo.2.alloc hf.2.2⟩
    · refine wlp_of_wp ((wp_malloc_full hf).mpr ?_)
      rw [if_pos rfl, wlp_bind]
      refine wlp_mono (wlp_true _ _) ?_
      intro a t _ hres
      cases hres

/-! ## handles -/

/-- every handle in the book refers to an object that is allocated and in the list -/
def HandlesLive (w : World) : Prop :=
  ∀ h ∈ w.2.handles, ∃ o p, w.1.heap.blocks h = some (.obj o) ∧
    w.1.heap.blocks o.pobj = some (.pobj p) ∧ o.pobj ∈ w.1.links.elems .globalPobjList

/-- the book has the handle `h`, and it refers to `a` -/
def Holds (w : World) (h a : Nat) : Prop :=
  h ∈ w.2.handles ∧ ∃ o, w.1.heap.blocks h = some (.obj o) ∧ o.pobj = a

/-- no other handle refers to an object that a call gives up: a delete its object, an open that finds
no block for its handle the object that it found -/
def Unshared (c : Call) (w : World) : Prop :=
  match c with
  | .objDel h => ∀ o, w.1.heap.blocks h = some (.obj o) →
      o.handleFlags &&& teeDataFlagAccessWriteMeta ≠ 0 → ∀ h', h' ≠ h → ¬ Holds w h' o.pobj
  | .objOpen uuid objectId flags => Admits objectId flags → w.1.heap.Full →
      (∀ a ∈ w.1.links.elems .globalPobjList, IsObject w.1 a uuid objectId) →
      ∀ h', ¬ Holds w h' ((w.1.links.elems .globalPobjList).getLastD 0)
  | _ => True

/-- the invariant: the handles in the book refer to entries -/
def Held (w : World) : Prop :=
  ∃ es, Stored w.1 es ∧ ∀ h ∈ w.2.handles, ∃ o, w.1.heap.blocks h = some (.obj o) ∧
    o.pobj ∈ addrs es

theorem Held.boot (answers : Nat → Nat) : Held (.boot answers) :=
  ⟨[], .boot answers, fun h hh => absurd hh List.not_mem_nil⟩

theorem Held.live {w : World} (hw : Held w) : HandlesLive w := by
  obtain ⟨es, hs, hh⟩ := hw
  intro h hmem
  obtain ⟨o, ho, hpo⟩ := hh h hmem
  obtain ⟨p, hp⟩ := hs.pobjOf hpo
  refine ⟨o, p, ho, hp, ?_⟩
  rw [hs.elems_eq]
  exact hpo

/-- a handle is none of the blocks of an entry -/
theorem withoutEntry_handle {B : Nat → Option Block} {e : Entry} {h : Nat} {o : Obj} (he : e.In B)
    (ho : B h = some (.obj o)) : withoutEntry B e h = some (.obj o) := by
  rw [withoutEntry_of_ne, ho]
  · intro hh
    rw [hh, he.pobj] at ho
    cases ho
  · intro hh
    rw [hh, he.id] at ho
    cases ho

theorem mem_addrs_of_ne {es1 es2 : List Entry} {e : Entry} {a : Nat}
    (h : a ∈ addrs (es1 ++ e :: es2)) (hne : a ≠ e.addr) : a ∈ addrs (es1 ++ es2) := by
  obtain ⟨e', he', rfl⟩ := mem_addrs.mp h
  refine mem_addrs.mpr ⟨e', ?_, rfl⟩
  rcases List.mem_append.mp he' with h1 | h1
  · exact List.mem_append_left _ h1
  · rcases List.mem_cons.mp h1 with rfl | h1
    · exact absurd rfl hne
    · exact List.mem_append_right _ h1

/-- a call other than a successful open hands out no handle -/
theorem note_handles_sub {c : Call} {r : Reply} {s t : State} {b : Book} (h0 : r.obj = 0) :
    ∀ h ∈ (note c r s t b).handles, h ∈ b.handles := by
  intro h hh
  cases c with
  | objCreate uuid objectId flags data =>
    simp only [note] at hh
    split at hh
    · exact hh
    · exact hh
  | objOpen uuid objectId flags =>
    have hno : ¬ (r.res = teeSuccess ∧ r.obj ≠ 0) := fun h => h.2 h0
    simp only [note, if_neg hno] at hh
    exact hh
  | objRead obj len => exact hh
  | objDel obj => exact List.mem_of_mem_filter hh

/-- **A step keeps the handles live**, if no other handle refers to what it gives up. -/
theorem step_held (c : Call) {w : World} (hw : Held w) (hg : Unshared c w) :
    wlp (step c) (fun _ w' => Held w') w := by
  obtain ⟨s, b⟩ := w
  obtain ⟨es, hs, hh⟩ := hw
  have hh : ∀ h ∈ b.handles, ∃ o, s.heap.blocks h = some (.obj o) ∧ o.pobj ∈ addrs es := hh
  rw [step, wlp_ghost]
  refine wlp_mono (call_effect hs c) ?_
  intro r t h
  obtain ⟨es', ht, heff⟩ := h
  refine ⟨es', ht, ?_⟩
  show ∀ h ∈ (note c r s t b).handles, ∃ o, t.heap.blocks h = some (.obj o) ∧ o.pobj ∈ addrs es'
  cases heff with
  | kept _ res _ hb hl _ =>
    intro h hmem
    rw [hb]
    exact hh h (note_handles_sub rfl h hmem)
  | created flags e _ hgrown =>
    intro h hmem
    obtain ⟨o, ho, hpo⟩ := hh h (note_handles_sub rfl h hmem)
    exact ⟨o, hgrown.kept h _ ho, List.mem_cons_of_mem _ hpo⟩
  | dropped uuid objectId flags _ e _ had hall hfull hes hb =>
    intro h hmem
    have hmem := note_handles_sub rfl h hmem
    obtain ⟨o, ho, hpo⟩ := hh h hmem
    have he : e.In s.heap.blocks := by
      refine hs.live e ?_
      rw [hes]
      exact List.mem_append_right _ (List.mem_singleton_self e)
    refine ⟨o, ?_, ?_⟩
    · rw [hb]
      exact withoutEntry_handle he ho
    · have hlast : (s.links.elems .globalPobjList).getLastD 0 = e.addr := by
        rw [hs.elems_eq, hes, addrs, List.map_append]
        exact List.getLastD_concat
      have hno := hg had hfull ((forall_isObject hs).mpr hall) h
      have hne : o.pobj ≠ e.addr := fun h' => hno ⟨hmem, o, ho, h'.trans hlast.symm⟩
      rw [hes] at hpo
      have hrest := mem_addrs_of_ne hpo hne
      rw [List.append_nil] at hrest
      exact hrest
  | found uuid objectId flags es1 e a _ hes h0 hn hb =>
    have hnew : (note (.objOpen uuid objectId flags) ⟨teeSuccess, a⟩ s t b).handles
        = a :: b.handles := by
      have hif : (⟨teeSuccess, a⟩ : Reply).res = teeSuccess ∧ (⟨teeSuccess, a⟩ : Reply).obj ≠ 0 :=
        ⟨rfl, h0⟩
      rw [note, if_pos hif]
    rw [hnew, hb]
    intro h hmem
    rcases List.mem_cons.mp hmem with rfl | hmem
    · refine ⟨newObj flags e.addr, Function.update_self _ _ _, mem_addrs.mpr ⟨e, ?_, rfl⟩⟩
      rw [hes]
      exact List.mem_append_right _ (List.mem_singleton_self e)
    · obtain ⟨o, ho, hpo⟩ := hh h hmem
      refine ⟨o, ?_, hpo⟩
      rw [Function.update_of_ne, ho]
      intro hha
      rw [hha, hn] at ho
      cases ho
  | moved h len o pos _ ho hb =>
    intro h' hmem
    obtain ⟨o', ho', hpo'⟩ := hh h' hmem
    rw [hb]
    by_cases hne : h' = h
    · subst hne
      obtain rfl : o = o' := by
        have he := ho.symm.trans ho'
        cases he
        rfl
      exact ⟨_, Function.update_self _ _ _, hpo'⟩
    · exact ⟨o', (Function.update_of_ne hne _ _).trans ho', hpo'⟩
  | deleted h o es1 e es2 _ ho hpo hm hes hb =>
    subst hes
    intro h' hmem
    obtain ⟨hmem, hne⟩ := List.mem_filter.mp hmem
    have hne : h' ≠ h := of_decide_eq_true hne
    obtain ⟨o', ho', hpo'⟩ := hh h' hmem
    have he := hs.live e (List.mem_append_right _ List.mem_cons_self)
    refine ⟨o', ?_, ?_⟩
    · rw [hb, Function.update_of_ne hne]
      exact withoutEntry_handle he ho'
    · have hno := hg o ho hm h' hne
      exact mem_addrs_of_ne hpo' fun h'' => hno ⟨hmem, o', ho', h''.trans hpo.symm⟩

/-- **Handles stay live** in every run in which nothing is given up that another handle refers to. -/
theorem handlesLive_of_run (answers : Nat → Nat) (calls : List Call)
    (hg : Guarded step Unshared calls (.boot answers)) {u : PUnit} {w : World}
    (e : run step calls (.boot answers) = .ok (u, w)) : HandlesLive w := by
  have h := wlp_run_guarded (fun c w => step_held c) hg (Held.boot answers)
  rw [wlp_of_eq e] at h
  exact h.live

/-- an object is deleted through its only handle, and made and opened again -/
def deleteAndReopen : List Call :=
  [.objCreate someTa [1] 0 [7], .objOpen someTa [1] teeDataFlagAccessWriteMeta, .objDel 0x1300,
    .objCreate someTa [1] 0 [8], .objOpen someTa [1] teeDataFlagAccessRead]

theorem unshared_of_no_handles {uuid : Uuid} {objectId : List UInt8} {flags : Nat} {w : World}
    (h : w.2.handles = []) : Unshared (.objOpen uuid objectId flags) w := by
  intro _ _ _ h' hh
  rw [Holds, h] at hh
  exact absurd hh.1 List.not_mem_nil

theorem unshared_of_only {h : Nat} {w : World} (hw : w.2.handles = [h]) :
    Unshared (.objDel h) w := by
  intro o ho hm h' hne hh
  rw [Holds, hw] at hh
  exact hne (List.mem_singleton.mp hh.1)

theorem deleteAndReopen_unshared {w : World}
    (e1 : ∃ u t, run step (deleteAndReopen.take 1) w = .ok (u, t) ∧ t.2.handles = [])
    (e2 : ∃ u t, run step (deleteAndReopen.take 2) w = .ok (u, t) ∧ t.2.handles = [0x1300])
    (e4 : ∃ u t, run step (deleteAndReopen.take 4) w = .ok (u, t) ∧ t.2.handles = []) :
    Guarded step Unshared deleteAndReopen w := by
  have h1 : Guarded step Unshared (deleteAndReopen.take 1) w := ⟨trivial, fun _ _ _ => trivial⟩
  have h2 : Guarded step Unshared (deleteAndReopen.take 2) w := by
    apply h1.snoc
    obtain ⟨u, t, e, h⟩ := e1
    exact (wlp_of_eq e).mpr (unshared_of_no_handles h)
  have h3 : Guarded step Unshared (deleteAndReopen.take 3) w := by
    apply h2.snoc
    obtain ⟨u, t, e, h⟩ := e2
    exact (wlp_of_eq e).mpr (unshared_of_only h)
  have h4 : Guarded step Unshared (deleteAndReopen.take 4) w := by
    apply h3.snoc
    exact wlp_mono (wlp_true _ _) fun _ _ _ => trivial
  apply h4.snoc
  obtain ⟨u, t, e, h⟩ := e4
  exact (wlp_of_eq e).mpr (unshared_of_no_handles h)

theorem handlesLive_of_run_reopen : ∃ u w, run step deleteAndReopen (.boot roomy) = .ok (u, w) ∧
    w.2.handles = [0x1700] ∧ HandlesLive w := by
  have e5 : ∃ u w, run step deleteAndReopen (.boot roomy) = .ok (u, w) ∧
      w.2.handles = [0x1700] := by
    rw [← wp_iff]
    decide +kernel
  obtain ⟨u, w, e, hw⟩ := e5
  refine ⟨u, w, e, hw, handlesLive_of_run roomy deleteAndReopen ?_ e⟩
  apply deleteAndReopen_unshared
  · rw [← wp_iff]
    decide +kernel
  · rw [← wp_iff]
    decide +kernel
  · rw [← wp_iff]
    decide +kernel

/-- a second handle dangles after a delete through the first one -/
theorem handlesLive_dangling : ∃ u w, run step [.objCreate someTa [1] 0 [7],
    .objOpen someTa [1] teeDataFlagAccessWriteMeta, .objOpen someTa [1] teeDataFlagAccessWriteMeta,
    .objDel 0x1300] (.boot roomy) = .ok (u, w) ∧ 0x1400 ∈ w.2.handles ∧ ¬ HandlesLive w := by
  have hrun : ∃ u w, run step [.objCreate someTa [1] 0 [7],
      .objOpen someTa [1] teeDataFlagAccessWriteMeta,
      .objOpen someTa [1] teeDataFlagAccessWriteMeta, .objDel 0x1300] (.boot roomy) = .ok (u, w) ∧
      0x1400 ∈ w.2.handles ∧ w.1.heap.blocks 0x1000 = none ∧
      w.1.heap.blocks 0x1400 = some (.obj (newObj teeDataFlagAccessWriteMeta 0x1000)) := by
    rw [← wp_iff]
    decide +kernel
  obtain ⟨u, w, e, hmem, hgone, hh⟩ := hrun
  refine ⟨u, w, e, hmem, ?_⟩
  intro hlive
  obtain ⟨o, p, ho, hp, -⟩ := hlive 0x1400 hmem
  obtain rfl : newObj teeDataFlagAccessWriteMeta 0x1000 = o :=
    Block.obj.inj (Option.some.inj (hh.symm.trans ho))
  have hp : w.1.heap.blocks 0x1000 = some (.pobj p) := hp
  rw [hgone] at hp
  cases hp

end MTower.Storage
