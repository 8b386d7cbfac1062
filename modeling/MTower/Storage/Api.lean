import MTower.Storage.History

/-!
# What a TA gets

Reads, creates and deletes against what they are for: a read is one of a stream, a create is done or
not done, a delete gives back all that the object had.

* `readAll`, `streamed`     a list of reads, and what a stream would give;
* `streams_iff`             when the reads are those of a stream;
* `CreateAtomic`, `createAtomic_iff`      when a create is done or not done;
* `DeletesExactly`, `not_deletesExactly`  a delete never gives back the data;
* `del_frame`               what a delete does to memory and to the two queues.
-/

set_option linter.unusedVariables false

namespace MTower.Storage
open Lib
open Kernel (Uuid)

/-! ## reading -/

/-- `TEE_ReadObjectData` again and again, with a size and with what `*count` is before -/
def readAll (h : Nat) : List (Nat × Nat) → S (List ReadReply)
  | [] => pure []
  | (size, count) :: l => do
    let r ← teeReadObjectData h size count
    let rs ← readAll h l
    pure (r :: rs)

/-- the replies of a stream over `data` from `pos` on -/
def streamed (data : List UInt8) (pos : Nat) : List (Nat × Nat) → List ReadReply
  | [] => []
  | (size, _) :: l =>
    ⟨teeSuccess, (data.drop pos).take (min size (data.length - pos)), min size (data.length - pos)⟩
      :: streamed data (pos + min size (data.length - pos)) l

/-- every read fails, by its result or by a panic, and copies nothing -/
def Refused : Except Fault (List ReadReply × State) → Prop
  | .ok (rs, _) => ∀ r ∈ rs, r.res ≠ teeSuccess ∧ r.bytes = []
  | .error f => ∃ res, f = .panic res

/-- with the right to read the replies are those of a stream, without it the reads are refused -/
def Streams (s : State) (h : Nat) (data : List UInt8) (flags : Nat) (reads : List (Nat × Nat)) :
    Prop :=
  if hasFlag flags teeDataFlagAccessRead then
    wp (readAll h reads) (fun rs _ => rs = streamed data 0 reads) s
  else Refused (readAll h reads s)

/-- the reads for which copying from the start and leaving `*count` makes no difference -/
def Fits (data : List UInt8) (pos : Nat) : List (Nat × Nat) → Prop
  | [] => True
  | (size, count) :: l => pos + size ≤ data.length ∧ data.take size = (data.drop pos).take size ∧
      count = size ∧ Fits data (pos + size) l

section
variable {s t : State} {h : Nat} {data : List UInt8}

theorem dataOf_some (hd : dataOf s h = some data) : ∃ o p, s.heap.blocks h = some (.obj o) ∧
    s.heap.blocks o.pobj = some (.pobj p) ∧ s.heap.blocks p.data = some (.bytes data) := by
  unfold dataOf at hd
  split at hd
  · rename_i o ho
    split at hd
    · rename_i p hp
      split at hd
      · rename_i l hl
        split at hd
        · cases hd
          exact ⟨o, p, ho, hp, hl⟩
        · cases hd
      · cases hd
    · cases hd
  · cases hd

/-- a new position changes no data -/
theorem dataOf_moved {o : Obj} {pos : Nat} (ho : s.heap.blocks h = some (.obj o))
    (hd : dataOf s h = some data) :
    dataOf ⟨⟨Function.update s.heap.blocks h (some (.obj { o with dataPosition := pos })),
      s.heap.answers, s.heap.calls⟩, s.links⟩ h = some data := by
  obtain ⟨o', p, ho', hp, hl⟩ := dataOf_some hd
  cases ho.symm.trans ho'
  have hne : ∀ a b, s.heap.blocks a = some b → (∀ o, b ≠ .obj o) →
      Function.update s.heap.blocks h (some (.obj { o with dataPosition := pos })) a = some b := by
    intro a b hb hkind
    refine (Function.update_of_ne ?_ _ _).trans hb
    intro hah
    rw [hah, ho] at hb
    exact hkind o (Option.some.inj hb).symm
  have hp' := hne _ _ hp fun o h => nomatch h
  have hl' := hne _ _ hl fun o h => nomatch h
  have hold := hd
  simp only [dataOf, ho, hp, hl] at hold
  simp only [dataOf, Function.update_self, hp', hl']
  exact hold

/-- a read within the data -/
theorem readObjectData_ok (size count : Nat) (h0 : h ≠ 0) (hd : dataOf s h = some data)
    (hlen : size ≤ data.length) : ∃ t, teeReadObjectData h size count s
      = .ok (⟨teeSuccess, data.take size, count⟩, t) ∧ dataOf t h = some data := by
  obtain ⟨o, p, ho, hp, hl⟩ := dataOf_some hd
  have hread : wp (uteeStorageObjRead h size) (fun r t => r = (teeSuccess, data.take size) ∧
      dataOf t h = some data) s := (wp_read ho hp hl hlen).mpr ⟨rfl, dataOf_moved ho hd⟩
  obtain ⟨r, t, e, rfl, hdata⟩ := wp_iff.mp hread
  refine ⟨t, ?_, hdata⟩
  rw [teeReadObjectData, if_neg h0, bind_of_ok e]
  rfl

/-- a read beyond the data -/
theorem readObjectData_overrun (size count : Nat) (h0 : h ≠ 0) (hd : dataOf s h = some data)
    (hlen : data.length < size) : teeReadObjectData h size count s = .error .overrun := by
  obtain ⟨o, p, ho, hp, hl⟩ := dataOf_some hd
  have hsize : size ≠ 0 := by omega
  have hle : ¬ size ≤ data.length := by omega
  have hget : (get : S State) s = .ok (s, s) := rfl
  have e1 : objAt h s = .ok (o, s) := by
    unfold objAt
    rw [bind_of_ok hget, ho]
    rfl
  have e2 : pobjAt o.pobj s = .ok (p, s) := by
    unfold pobjAt
    rw [bind_of_ok hget, hp]
    rfl
  have e3 : bytesAt p.data size s = .error .overrun := by
    rw [bytesAt, if_neg hsize, bind_of_ok hget, hl]
    show (if size ≤ data.length then (pure (data.take size) : S (List UInt8))
      else throw Fault.overrun) s = _
    rw [if_neg hle]
    rfl
  rw [teeReadObjectData, if_neg h0, uteeStorageObjRead]
  exact bind_of_error (by rw [bind_of_ok e1, bind_of_ok e2, bind_of_error e3])

/-- **Reads as a stream.** -/
theorem readAll_iff {reads : List (Nat × Nat)} {pos : Nat} (h0 : h ≠ 0)
    (hd : dataOf s h = some data) (hpos : pos ≤ data.length) :
    wp (readAll h reads) (fun rs _ => rs = streamed data pos reads) s ↔ Fits data pos reads := by
  induction reads generalizing s pos with
  | nil =>
    rw [readAll, wp_pure]
    exact iff_of_true rfl trivial
  | cons c l ih =>
    obtain ⟨size, count⟩ := c
    rw [readAll, wp_bind]
    by_cases hlen : size ≤ data.length
    · obtain ⟨t, e, hdt⟩ := readObjectData_ok size count h0 hd hlen
      rw [wp_of_eq e, wp_bind]
      constructor
      · intro hw
        obtain ⟨rs, u, e', hrs⟩ := wp_iff.mp hw
        have hrs : (⟨teeSuccess, data.take size, count⟩ : ReadReply) :: rs
          = streamed data pos ((size, count) :: l) := hrs
        obtain ⟨hhead, htail⟩ := List.cons.inj hrs
        obtain ⟨-, hbytes, hcount⟩ := ReadReply.mk.inj hhead
        have hn : min size (data.length - pos) = size := by
          have hl := congrArg List.length hbytes
          rw [List.length_take, List.length_take, List.length_drop] at hl
          omega
        rw [hn] at hbytes hcount htail
        refine ⟨by omega, hbytes, hcount, ?_⟩
        exact (ih hdt (by omega)).mp ((wp_of_eq e').mpr htail)
      · intro hf
        obtain ⟨hin, hbytes, hcount, hrest⟩ := hf
        have hn : min size (data.length - pos) = size := by omega
        refine wp_mono ((ih hdt (by omega)).mpr hrest) ?_
        intro rs u hrs
        show _ :: rs = streamed data pos ((size, count) :: l)
        rw [streamed, hn, hrs, hbytes, hcount]
    · have hno : ¬ Fits data pos ((size, count) :: l) := by
        intro hf
        exact hlen (Nat.le_trans (Nat.le_add_left size pos) hf.1)
      refine iff_of_false ?_ hno
      rw [wp_iff]
      rintro ⟨r, t, e, -⟩
      rw [readObjectData_overrun size count h0 hd (by omega)] at e
      cases e

/-- the only fault of a read through a live handle -/
theorem readAll_error {reads : List (Nat × Nat)} {f : Fault} (h0 : h ≠ 0)
    (hd : dataOf s h = some data) (e : readAll h reads s = .error f) : f = .overrun := by
  induction reads generalizing s with
  | nil => cases e
  | cons c l ih =>
    obtain ⟨size, count⟩ := c
    rw [readAll] at e
    by_cases hlen : size ≤ data.length
    · obtain ⟨t, e1, hdt⟩ := readObjectData_ok size count h0 hd hlen
      rw [bind_of_ok e1] at e
      cases e2 : readAll h l t with
      | error f' =>
        rw [bind_of_error e2] at e
        cases e
        exact ih hdt e2
      | ok r =>
        rw [bind_of_ok e2] at e
        cases e
    · rw [bind_of_error (readObjectData_overrun size count h0 hd (by omega))] at e
      cases e
      rfl

/-- no read is refused -/
theorem readAll_refused {reads : List (Nat × Nat)} (h0 : h ≠ 0) (hd : dataOf s h = some data) :
    Refused (readAll h reads s) ↔ reads = [] := by
  constructor
  · intro hr
    cases reads with
    | nil => rfl
    | cons c l =>
      obtain ⟨size, count⟩ := c
      exfalso
      cases e : readAll h ((size, count) :: l) s with
      | error f =>
        rw [e, readAll_error h0 hd e] at hr
        obtain ⟨res, hres⟩ := hr
        cases hres
      | ok r =>
        rw [e] at hr
        have hok : wp (readAll h ((size, count) :: l)) (fun rs _ => rs = r.1) s := by
          rw [wp_of_eq e]
        rw [readAll, wp_bind] at hok
        obtain ⟨r1, t, e1, hok⟩ := wp_iff.mp hok
        rw [wp_bind] at hok
        obtain ⟨rs, u, e2, hrs⟩ := wp_iff.mp hok
        have hrs : r1 :: rs = r.1 := hrs
        have hr : ∀ r' ∈ r.1, r'.res ≠ teeSuccess ∧ r'.bytes = [] := hr
        have hfirst := hr r1 (by rw [← hrs]; exact List.mem_cons_self)
        by_cases hlen : size ≤ data.length
        · obtain ⟨t', e1', -⟩ := readObjectData_ok size count h0 hd hlen
          rw [e1'] at e1
          cases e1
          exact hfirst.1 rfl
        · rw [readObjectData_overrun size count h0 hd (by omega)] at e1
          cases e1
  · intro he
    subst he
    intro r hr
    exact absurd hr List.not_mem_nil

/-- **When the reads through a handle are those of a stream.** -/
theorem streams_iff {flags : Nat} {reads : List (Nat × Nat)} (h0 : h ≠ 0)
    (hd : dataOf s h = some data) : Streams s h data flags reads ↔
      reads = [] ∨ (hasFlag flags teeDataFlagAccessRead = true ∧ Fits data 0 reads) := by
  unfold Streams
  by_cases hf : hasFlag flags teeDataFlagAccessRead = true
  · rw [if_pos hf, readAll_iff h0 hd (Nat.zero_le _)]
    constructor
    · exact fun h => Or.inr ⟨hf, h⟩
    · intro h
      rcases h with rfl | ⟨-, h⟩
      · trivial
      · exact h
  · rw [if_neg hf, readAll_refused h0 hd]
    constructor
    · exact fun h => Or.inl h
    · intro h
      rcases h with h | ⟨h, -⟩
      · exact h
      · exact absurd h hf

end

/-- the data of a handle that an open hands out -/
theorem open_data {s : State} {es : List Entry} (hs : Stored s es) (uuid : Uuid)
    (objectId : List UInt8) (flags : Nat) : wlp (uteeStorageObjOpen uuid objectId flags)
    (fun r t => r.obj ≠ 0 → ∃ e ∈ es, Matches uuid objectId e ∧ dataOf t r.obj = some e.data) s := by
  refine wlp_mono (wlp_of_wp (open_effect hs uuid objectId flags)) ?_
  intro r t hr hne
  obtain ⟨es', ht, hes'⟩ := hr.stored hs
  cases hr with
  | refused _ => exact absurd rfl hne
  | absent _ _ => exact absurd rfl hne
  | full _ _ _ _ _ _ => exact absurd rfl hne
  | found es1 e _ hes hall hnf =>
    have hsame : es' = es := by
      rcases hes' with h | ⟨-, -, h⟩
      · exact h
      · exact absurd h hnf
    subst hsame
    have hmem : e ∈ es' := by
      rw [hes]
      exact List.mem_append_right _ (List.mem_singleton_self e)
    exact ⟨e, hmem, hall e hmem, dataOf_handle (Function.update_self _ _ _) rfl (ht.live e hmem)⟩

/-- **Streaming**, over every run, every handle opened after it and every list of reads through it. -/
theorem readObjectData_streams_iff (answers : Nat → Nat) (calls : List Call) (uuid : Uuid)
    (objectId : List UInt8) (flags : Nat) :
    wlp (run step calls) (fun _ w => wlp (uteeStorageObjOpen uuid objectId flags) (fun r t =>
      r.obj ≠ 0 → ∃ data, dataOf t r.obj = some data ∧ ∀ reads, Streams t r.obj data flags reads ↔
        reads = [] ∨ (hasFlag flags teeDataFlagAccessRead = true ∧ Fits data 0 reads)) w.1)
      (.boot answers) := by
  refine wlp_mono (run_booked answers calls) ?_
  intro _ w hw
  obtain ⟨es, hs, -⟩ := hw
  refine wlp_mono (open_data hs uuid objectId flags) ?_
  intro r t h hne
  obtain ⟨e, -, -, hd⟩ := h hne
  exact ⟨e.data, hd, fun reads => streams_iff hne hd⟩

/-- two reads of one byte each give the first byte twice -/
theorem streams_again : ∃ u w, run step [.objCreate someTa [1] 0 [7, 8]] (.boot roomy) = .ok (u, w) ∧
    ∃ r t, uteeStorageObjOpen someTa [1] teeDataFlagAccessRead w.1 = .ok (r, t) ∧
      dataOf t r.obj = some [7, 8] ∧
      ¬ Streams t r.obj [7, 8] teeDataFlagAccessRead [(1, 1), (1, 1)] := by
  have hrun : ∃ u w, run step [.objCreate someTa [1] 0 [7, 8]] (.boot roomy) = .ok (u, w) ∧
      wp (uteeStorageObjOpen someTa [1] teeDataFlagAccessRead) (fun r t => r.obj ≠ 0 ∧
        dataOf t r.obj = some [7, 8]) w.1 := by
    rw [← wp_iff]
    decide +kernel
  obtain ⟨u, w, e, hopen⟩ := hrun
  obtain ⟨r, t, e', hne, hd⟩ := wp_iff.mp hopen
  refine ⟨u, w, e, r, t, e', hd, ?_⟩
  rw [streams_iff hne hd]
  intro h
  rcases h with h | ⟨-, -, -, -, h⟩
  · cases h
  · exact absurd h.2.1 (by decide)

/-! ## creating -/

/-- there is one more object, at `a`, with this UUID, id and data, and the handle refers to it -/
structure Created (s t : State) (h : Nat) (uuid : Uuid) (objectId data : List UInt8) (a : Nat) :
    Prop where
  list : t.links.elems .globalPobjList = a :: s.links.elems .globalPobjList
  kept : ∀ b x, s.heap.blocks b = some x → t.heap.blocks b = some x
  object : IsObject t a uuid objectId
  handle : ∃ o, t.heap.blocks h = some (.obj o) ∧ o.pobj = a
  data : dataOf t h = some data
  closes : wp (teeCloseObject h) (fun _ _ => True) t

/-- the create fails and leaves the memory and the list, or it makes the object and its handle -/
def CreateAtomic (s : State) (junk : Nat) (uuid : Uuid) (objectId : List UInt8) (flags : Nat)
    (data : List UInt8) : Prop :=
  wp (teeCreatePersistentObject junk uuid objectId flags data) (fun r t =>
    (r.res ≠ teeSuccess ∧ t.heap.blocks = s.heap.blocks ∧ t.links = s.links) ∨
    (r.res = teeSuccess ∧ ∃ a, Created s t r.obj uuid objectId data a)) s

section
variable {B : Nat → Option Block} {A : Nat → Nat} {n : Nat} {L : Links Queue} {es : List Entry}
  {junk : Nat} {uuid : Uuid} {objectId : List UInt8} {flags : Nat} {data : List UInt8}

/-- when the allocations succeed, the handle is what the local variable was -/
theorem created_iff (hs : Stored ⟨⟨B, A, n⟩, L⟩ es) (junk : Nat) (uuid : Uuid)
    (objectId : List UInt8) (flags : Nat) (data : List UInt8) (h1 : Gets1 B A n)
    (h2 : Gets2 B A n) (h3 : Gets3 B A n) :
    (∃ a, Created ⟨⟨B, A, n⟩, L⟩ ⟨⟨withEntry B (newEntry uuid objectId flags data A n), A, n + 3⟩,
      L.insertHead .globalPobjList (A n)⟩ junk uuid objectId data a) ↔
      ∃ o, B junk = some (.obj o) ∧ o.pobj = A n := by
  obtain ⟨ht, hg⟩ := hs.created uuid objectId flags data h1 h2 h3
  have hlist : (L.insertHead .globalPobjList (A n)).elems .globalPobjList
      = A n :: L.elems .globalPobjList := by
    have h := ht.elems_eq
    have h' := hs.elems_eq
    rw [addrs, List.map_cons] at h
    exact h.trans (congrArg (A n :: ·) h'.symm)
  constructor
  · intro h
    obtain ⟨a, hc⟩ := h
    obtain ⟨o, ho, hpo⟩ := hc.handle
    have ha : A n = a := (List.cons.inj (hlist.symm.trans hc.list)).1
    exact ⟨o, hg.handles junk o ho, hpo.trans ha.symm⟩
  · intro h
    obtain ⟨o, ho, hpo⟩ := h
    have hh := hg.kept junk _ ho
    have he := ht.live _ List.mem_cons_self
    refine ⟨A n, hlist, hg.kept, (isObject_iff he).mpr ⟨rfl, rfl⟩, ⟨o, hh, hpo⟩,
      dataOf_handle hh hpo he, ?_⟩
    have h0 := hs.live_ne_zero ho
    rw [teeCloseObject, if_neg h0, teeObjFree, if_neg h0, wp_bind, wp_objAt hh, wp_free h0 hh]
    trivial

/-- **When a create is done or not done**, in terms of the answers of the allocator. -/
theorem Stored.atomic_iff (hs : Stored ⟨⟨B, A, n⟩, L⟩ es) :
    CreateAtomic ⟨⟨B, A, n⟩, L⟩ junk uuid objectId flags data ↔
      Gets1 B A n ∧ Gets2 B A n ∧ (¬ Gets3 B A n ∨ ∃ o, B junk = some (.obj o) ∧ o.pobj = A n) := by
  unfold CreateAtomic teeCreatePersistentObject
  rw [wp_bind]
  by_cases h12 : Gets1 B A n ∧ Gets2 B A n
  · obtain ⟨h1, h2⟩ := h12
    by_cases h3 : Gets3 B A n
    · rw [wp_create h1 h2 h3 hs.linkable_first, if_pos rfl, wp_pure]
      have hno : ¬ (teeSuccess ≠ teeSuccess) := fun h => h rfl
      have hiff := created_iff hs junk uuid objectId flags data h1 h2 h3
      constructor
      · intro h
        rcases h with ⟨h, -⟩ | ⟨-, h⟩
        · exact absurd h hno
        · exact ⟨h1, h2, Or.inr (hiff.mp h)⟩
      · intro h
        obtain ⟨-, -, h | h⟩ := h
        · exact absurd h3 h
        · exact Or.inr ⟨rfl, hiff.mpr h⟩
    · have hres : ¬ (teeErrorOutOfMemory = teeSuccess) := by decide
      rw [wp_create_noData h1 h2 h3, if_neg hres, wp_pure]
      refine iff_of_true ?_ ⟨h1, h2, Or.inl h3⟩
      exact Or.inl ⟨hres, rfl, rfl⟩
  · refine iff_of_false ?_ fun h => h12 ⟨h.1, h.2.1⟩
    refine create_faults ?_ h12
    intro p h
    have h0 : B 0 = none := hs.no_null
    rw [h0] at h
    cases h

end

/-- **Creates**, over every run and every pattern of failing allocations. -/
theorem createAtomic_iff (answers : Nat → Nat) (calls : List Call) :
    wlp (run step calls) (fun _ w => ∀ junk uuid objectId flags data,
      CreateAtomic w.1 junk uuid objectId flags data ↔
        Gets1 w.1.heap.blocks w.1.heap.answers w.1.heap.calls ∧
        Gets2 w.1.heap.blocks w.1.heap.answers w.1.heap.calls ∧
        (¬ Gets3 w.1.heap.blocks w.1.heap.answers w.1.heap.calls ∨ ∃ o, w.1.heap.blocks junk
          = some (.obj o) ∧ o.pobj = w.1.heap.answers w.1.heap.calls)) (.boot answers) := by
  refine wlp_mono (run_booked answers calls) ?_
  intro _ w hw junk uuid objectId flags data
  obtain ⟨es, hs, -⟩ := hw
  exact hs.atomic_iff

/-- without memory for the object the function faults; with memory for everything the handle is
what was in the local variable -/
theorem createAtomic_fails :
    ¬ CreateAtomic (.boot fun _ => 0) 0xDEADBEEF someTa [1] 0 [7] ∧
    ¬ CreateAtomic (.boot roomy) 0xDEADBEEF someTa [1] 0 [7] := by
  constructor
  · intro h
    have hgets := ((Stored.boot fun _ => 0).atomic_iff.mp h).1
    exact hgets.1 rfl
  · intro h
    obtain ⟨-, -, h | ⟨o, ho, -⟩⟩ := (Stored.boot roomy).atomic_iff.mp h
    · refine h ⟨⟨?_, ?_, rfl⟩, ?_, ?_⟩ <;> decide
    · cases ho

/-! ## deleting -/

/-- the blocks after the release of those at `l` -/
def released (B : Nat → Option Block) (l : List Nat) : Nat → Option Block :=
  fun a => if a ∈ l then none else B a

/-- the delete takes the object out of its list, leaves the other queue, and releases the blocks of
the id, the data, the object and the handle and no others; both queues are well formed -/
def DeletesExactly (s : State) (h : Nat) : Prop :=
  wp (uteeStorageObjDel h) (fun _ t => ∃ o p, s.heap.blocks h = some (.obj o) ∧
    s.heap.blocks o.pobj = some (.pobj p) ∧
    t.links.Queue .globalPobjList ((s.links.elems .globalPobjList).erase o.pobj) ∧
    t.links.first .teePobjs = s.links.first .teePobjs ∧
    t.links.last .teePobjs = s.links.last .teePobjs ∧
    t.links.Queue .teePobjs (s.links.elems .teePobjs) ∧
    t.heap.blocks = released s.heap.blocks [p.objId, p.data, o.pobj, h]) s

section
variable {s : State} {es es1 es2 : List Entry} {e : Entry} {o : Obj} {h : Nat}

/-- the data of a deleted object is still allocated -/
theorem deleted_data (hs : Stored s (es1 ++ e :: es2)) (ho : s.heap.blocks h = some (.obj o)) :
    (deleted s h e).heap.blocks e.pobj.data = some (.bytes e.data) := by
  have he := hs.live e (List.mem_append_right _ List.mem_cons_self)
  obtain ⟨-, hne⟩ := parts_split hs
  have h1 : e.pobj.data ≠ h := by
    intro hh
    have hd := he.data
    rw [hh, ho] at hd
    cases hd
  have h2 : e.pobj.data ≠ e.addr := by
    intro hh
    have hd := he.data
    rw [hh, he.pobj] at hd
    cases hd
  refine (Function.update_of_ne h1 _ _).trans ?_
  rw [withoutEntry_of_ne h2 hne.symm, he.data]

theorem Stored.del_inexact (hs : Stored s es) (h : Nat) : ¬ DeletesExactly s h := by
  intro hd
  obtain ⟨res, t, hdel, heff⟩ := wp_wlp hd (del_effect hs h)
  obtain ⟨o, p, ho, hp, -, -, -, -, hb⟩ := hdel
  have hgone : ∀ a ∈ [p.objId, p.data, o.pobj, h], t.heap.blocks a = none := by
    intro a ha
    rw [hb]
    exact if_pos ha
  cases heff with
  | refused _ _ =>
    have hh := hgone h (by simp)
    rw [ho] at hh
    cases hh
  | removed o' es1 e es2 ho' hpo hm hes =>
    subst hes
    cases ho.symm.trans ho'
    have he := hs.live e (List.mem_append_right _ List.mem_cons_self)
    rw [hpo] at hp
    cases hp.symm.trans he.pobj
    have hdata := hgone e.pobj.data (by simp)
    rw [deleted_data hs ho] at hdata
    cases hdata

/-- **What a delete does**: the list is right and the data is kept; when the object was the last of
its list, the other queue's `last` now addresses a link of this list. -/
theorem del_frame (hs : Stored s (es1 ++ e :: es2)) (ho : s.heap.blocks h = some (.obj o))
    (hpo : o.pobj = e.addr) (hm : o.handleFlags &&& teeDataFlagAccessWriteMeta ≠ 0) :
    wp (uteeStorageObjDel h) (fun res t => res = teeSuccess ∧
      t.links.elems .globalPobjList = addrs (es1 ++ es2) ∧
      t.links.Chain .globalPobjList (addrs (es1 ++ es2)) ∧
      t.links.first .teePobjs = s.links.first .teePobjs ∧
      t.links.last .teePobjs
        = (if es2 = [] then s.links.prev e.addr else s.links.last .teePobjs) ∧
      t.heap.blocks = released s.heap.blocks [e.pobj.objId, e.addr, h]) s := by
  have ht := hs.deleted ho
  have hne : Queue.teePobjs ≠ Queue.globalPobjList := by decide
  have hc := hs.chain
  rw [addrs, List.map_append, List.map_cons] at hc
  obtain ⟨hnd, z, hseg, hz⟩ := hc
  obtain ⟨hfirst, hlast⟩ := Links.remove_other hne hseg hz hnd
  have htwice := Links.remove_remove .teePobjs hseg hz hnd
  rw [wp_del hs ho hpo hm]
  refine ⟨rfl, ht.elems_eq, ht.chain, ?_, ?_, ?_⟩
  · show ((s.links.remove .globalPobjList e.addr).remove .teePobjs e.addr).first .teePobjs = _
    rw [htwice]
    exact hfirst
  · show ((s.links.remove .globalPobjList e.addr).remove .teePobjs e.addr).last .teePobjs = _
    rw [htwice]
    by_cases hes : es2 = []
    · have hmap : es2.map Entry.addr = [] := by rw [hes, List.map_nil]
      rw [if_pos hmap, if_pos hes]
      exact Function.update_self Queue.teePobjs (s.links.prev e.addr)
        (s.links.remove .globalPobjList e.addr).last
    · have hmap : es2.map Entry.addr ≠ [] := fun h => hes (List.map_eq_nil_iff.mp h)
      rw [if_neg hmap, if_neg hes]
      exact hlast
  · funext a
    show Function.update (Function.update (Function.update s.heap.blocks e.pobj.objId none) e.addr
      none) h none a = if a ∈ [e.pobj.objId, e.addr, h] then none else s.heap.blocks a
    by_cases h1 : a = h
    · rw [h1, Function.update_self, if_pos (by simp)]
    rw [Function.update_of_ne h1]
    by_cases h2 : a = e.addr
    · rw [h2, Function.update_self, if_pos (by simp)]
    rw [Function.update_of_ne h2]
    by_cases h3 : a = e.pobj.objId
    · rw [h3, Function.update_self, if_pos (by simp)]
    rw [Function.update_of_ne h3, if_neg]
    simp [h1, h2, h3]

end

/-- **Deletes**: in no reachable state, and through no handle, are they exact. -/
theorem not_deletesExactly (answers : Nat → Nat) (calls : List Call) :
    wlp (run step calls) (fun _ w => ∀ h, ¬ DeletesExactly w.1 h) (.boot answers) := by
  refine wlp_mono (run_booked answers calls) ?_
  intro _ w hw
  obtain ⟨es, hs, -⟩ := hw
  exact fun h => hs.del_inexact h

/-- the delete of the only object: its data is still allocated, and the other queue's `last` is the
head of the list -/
theorem deletesExactly_fails : ∃ u w, run step [.objCreate someTa [1] 0 [7],
    .objOpen someTa [1] teeDataFlagAccessWriteMeta] (.boot roomy) = .ok (u, w) ∧
    0x1300 ∈ w.2.handles ∧ ¬ DeletesExactly w.1 0x1300 ∧
    ∃ res t, uteeStorageObjDel 0x1300 w.1 = .ok (res, t) ∧ res = teeSuccess ∧
      t.heap.blocks 0x1200 = some (.bytes [7]) ∧
      t.links.last .teePobjs = .head .globalPobjList := by
  have hrun : ∃ u w, run step [.objCreate someTa [1] 0 [7],
      .objOpen someTa [1] teeDataFlagAccessWriteMeta] (.boot roomy) = .ok (u, w) ∧
      0x1300 ∈ w.2.handles ∧ wp (uteeStorageObjDel 0x1300) (fun res t => res = teeSuccess ∧
        t.heap.blocks 0x1200 = some (.bytes [7]) ∧
        t.links.last .teePobjs = .head .globalPobjList) w.1 := by
    rw [← wp_iff]
    decide +kernel
  obtain ⟨u, w, e, hmem, hdel⟩ := hrun
  obtain ⟨es, hs, -⟩ := booked_of_run e
  exact ⟨u, w, e, hmem, hs.del_inexact 0x1300, wp_iff.mp hdel⟩

end MTower.Storage
