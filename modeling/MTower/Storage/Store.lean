import MTower.Storage.Rules

/-!
# The store

What the blocks and links mean: a list of entries, newest first.  `Stored s es` holds of every state
that calls of the store can reach, whatever handles are around, and each of the four calls is a
function of the entries.

* `Stored`         the entries of a state;
* `create_effect`  an entry is added in front, or nothing changes;
* `open_effect`    all entries match and a handle to the last one is made, or there is none;
* `del_effect`     the entry of the handle is taken out;
* `read_effect`    only the position of the handle changes.
-/

set_option linter.unusedVariables false

namespace MTower.Storage
open Lib
open Kernel (Uuid)

/-! ## entries -/

/-- an object with its address, its id and its data -/
structure Entry where
  addr : Nat
  pobj : Pobj
  id : List UInt8
  data : List UInt8

/-- the blocks of the id and of the data -/
def Entry.parts (e : Entry) : List Nat := [e.pobj.objId, e.pobj.data]

/-- the blocks of an entry -/
structure Entry.In (e : Entry) (B : Nat → Option Block) : Prop where
  pobj : B e.addr = some (.pobj e.pobj)
  id : B e.pobj.objId = some (.bytes e.id)
  data : B e.pobj.data = some (.bytes e.data)
  refcnt : e.pobj.refcnt = 1
  idLen : e.pobj.objIdLen = e.id.length
  dataLen : e.pobj.dataLen = e.data.length

def addrs (es : List Entry) : List Nat := es.map Entry.addr

/-- the store holds the entries `es` and no other object -/
structure Stored (s : State) (es : List Entry) : Prop where
  chain : s.links.Chain .globalPobjList (addrs es)
  live : ∀ e ∈ es, e.In s.heap.blocks
  owned : (es.flatMap Entry.parts).Nodup
  all : ∀ a p, s.heap.blocks a = some (.pobj p) → a ∈ addrs es
  small : ∀ a, s.heap.blocks a ≠ none → a ≠ 0 ∧ a < 2 ^ 32

theorem Stored.boot (answers : Nat → Nat) : Stored (.boot answers) [] where
  chain := ⟨List.nodup_nil, .head .globalPobjList, rfl, rfl⟩
  live := fun e he => absurd he List.not_mem_nil
  owned := List.nodup_nil
  all := fun a p h => nomatch h
  small := fun a h => absurd rfl h

section
variable {s t : State} {es es1 es2 : List Entry} {e : Entry}

theorem mem_addrs {a : Nat} : a ∈ addrs es ↔ ∃ e ∈ es, e.addr = a := List.mem_map

theorem Stored.pobjOf (hs : Stored s es) {a : Nat} (ha : a ∈ addrs es) :
    ∃ p, s.heap.blocks a = some (.pobj p) := by
  obtain ⟨e, he, rfl⟩ := mem_addrs.mp ha
  exact ⟨e.pobj, (hs.live e he).pobj⟩

theorem Stored.elems_eq (hs : Stored s es) : s.links.elems .globalPobjList = addrs es := by
  refine hs.chain.elems ?_
  intro a ha
  obtain ⟨p, hp⟩ := hs.pobjOf ha
  refine (hs.small a ?_).2
  rw [hp]
  exact Option.some_ne_none _

/-- the first entry, if there is one -/
theorem Stored.first_eq (hs : Stored s es) :
    s.links.first .globalPobjList = 0 ∧ es = [] ∨
      ∃ e es', es = e :: es' ∧ s.links.first .globalPobjList = e.addr ∧ e.addr ≠ 0 := by
  obtain ⟨-, z, hseg, hz⟩ := hs.chain
  cases es with
  | nil =>
    have h : Place.head Queue.globalPobjList = z := hseg
    rw [← h] at hz
    exact Or.inl ⟨hz, rfl⟩
  | cons e es' => exact Or.inr ⟨e, es', rfl, hseg.2.1, hseg.1⟩

theorem Stored.linkable_first (hs : Stored s es) :
    Linkable s.heap.blocks (s.links.first .globalPobjList) :=
  Linkable.first hs.chain fun _ ha => hs.pobjOf ha

/-- handles can come and go -/
theorem Stored.frame (hs : Stored s es) (hl : t.links = s.links)
    (hb : ∀ a b, s.heap.blocks a = some b → (∀ o, b ≠ .obj o) → t.heap.blocks a = some b)
    (hp : ∀ a p, t.heap.blocks a = some (.pobj p) → s.heap.blocks a = some (.pobj p))
    (hsmall : ∀ a, t.heap.blocks a ≠ none → a ≠ 0 ∧ a < 2 ^ 32) : Stored t es := by
  refine ⟨?_, ?_, hs.owned, fun a p h => hs.all a p (hp a p h), hsmall⟩
  · rw [hl]
    exact hs.chain
  · intro e he
    obtain ⟨h1, h2, h3, h4, h5, h6⟩ := hs.live e he
    refine ⟨hb _ _ h1 ?_, hb _ _ h2 ?_, hb _ _ h3 ?_, h4, h5, h6⟩
    · exact fun o h => nomatch h
    · exact fun o h => nomatch h
    · exact fun o h => nomatch h

theorem nodup_addrs_split (hs : Stored s (es1 ++ e :: es2)) :
    ∀ e' ∈ es1 ++ es2, e'.addr ≠ e.addr := by
  have hnd := hs.chain.1
  rw [addrs, List.map_append, List.map_cons, List.nodup_middle, List.nodup_cons] at hnd
  intro e' he' h
  refine hnd.1 ?_
  rw [← h, ← List.map_append]
  exact List.mem_map_of_mem he'

theorem parts_split (hs : Stored s (es1 ++ e :: es2)) :
    (∀ e' ∈ es1 ++ es2, ∀ a ∈ e'.parts, ∀ b ∈ e.parts, a ≠ b) ∧
      e.pobj.objId ≠ e.pobj.data := by
  have hperm : (es1 ++ e :: es2).flatMap Entry.parts |>.Perm
      (e.parts ++ (es1 ++ es2).flatMap Entry.parts) := by
    have hm : (es1 ++ e :: es2).Perm (e :: (es1 ++ es2)) := List.perm_middle
    have h := hm.flatMap_right Entry.parts
    rw [List.flatMap_cons] at h
    exact h
  have hnd := hperm.nodup_iff.mp hs.owned
  obtain ⟨hown, -, hdis⟩ := List.nodup_append.mp hnd
  constructor
  · intro e' he' a ha b hb h
    exact hdis b hb a (List.mem_flatMap.mpr ⟨e', he', ha⟩) h.symm
  · have h2 : [e.pobj.objId, e.pobj.data].Nodup := hown
    rw [List.nodup_cons] at h2
    exact fun h => h2.1 (List.mem_singleton.mpr h)

/-- an entry goes, with its object and its id; handles can change -/
theorem Stored.drop (hs : Stored s (es1 ++ e :: es2))
    (hl : t.links.Chain .globalPobjList (addrs (es1 ++ es2)))
    (hb : ∀ a b, s.heap.blocks a = some b → (∀ o, b ≠ .obj o) → a ≠ e.addr → a ≠ e.pobj.objId →
      t.heap.blocks a = some b)
    (hsub : ∀ a b, t.heap.blocks a = some b → s.heap.blocks a = some b)
    (hgone : t.heap.blocks e.addr = none) : Stored t (es1 ++ es2) := by
  have hmem : ∀ e' ∈ es1 ++ es2, e' ∈ es1 ++ e :: es2 := by
    intro e' he'
    rcases List.mem_append.mp he' with h | h
    · exact List.mem_append_left _ h
    · exact List.mem_append_right _ (List.mem_cons_of_mem e h)
  have he := hs.live e (List.mem_append_right _ List.mem_cons_self)
  have haddr := nodup_addrs_split hs
  obtain ⟨hparts, -⟩ := parts_split hs
  refine ⟨hl, ?_, ?_, ?_, ?_⟩
  · intro e' he'
    obtain ⟨h1, h2, h3, h4, h5, h6⟩ := hs.live e' (hmem e' he')
    have hid : e.pobj.objId ∈ e.parts := List.mem_cons_self
    refine ⟨hb _ _ h1 (fun o h => nomatch h) (haddr e' he') ?_,
      hb _ _ h2 (fun o h => nomatch h) ?_ (hparts e' he' _ List.mem_cons_self _ hid),
      hb _ _ h3 (fun o h => nomatch h) ?_
        (hparts e' he' _ (List.mem_cons_of_mem _ (List.mem_singleton_self _)) _ hid), h4, h5, h6⟩
    · intro h
      rw [h, he.id] at h1
      cases h1
    · intro h
      rw [h, he.pobj] at h2
      cases h2
    · intro h
      rw [h, he.pobj] at h3
      cases h3
  · have hnd := hs.owned
    rw [List.flatMap_append, List.flatMap_cons] at hnd
    rw [List.flatMap_append]
    exact hnd.sublist (List.Sublist.append_left (List.sublist_append_right e.parts _) _)
  · intro a p h
    have ha := hs.all a p (hsub a _ h)
    obtain ⟨e', he', rfl⟩ := mem_addrs.mp ha
    refine mem_addrs.mpr ⟨e', ?_, rfl⟩
    rcases List.mem_append.mp he' with h1 | h1
    · exact List.mem_append_left _ h1
    · rcases List.mem_cons.mp h1 with rfl | h1
      · rw [hgone] at h
        cases h
      · exact List.mem_append_right _ h1
  · intro a h
    obtain ⟨b, hb'⟩ := Option.ne_none_iff_exists'.mp h
    refine hs.small a ?_
    rw [hsub a b hb']
    exact Option.some_ne_none b

/-- an entry comes, with new blocks -/
theorem Stored.add (hs : Stored s es)
    (hl : t.links = s.links.insertHead .globalPobjList e.addr)
    (hb : ∀ a b, s.heap.blocks a = some b → t.heap.blocks a = some b) (he : e.In t.heap.blocks)
    (haddr : s.heap.blocks e.addr = none) (hid : s.heap.blocks e.pobj.objId = none)
    (hdata : s.heap.blocks e.pobj.data = none) (hne : e.pobj.objId ≠ e.pobj.data)
    (hp : ∀ a p, t.heap.blocks a = some (.pobj p) →
      a = e.addr ∨ s.heap.blocks a = some (.pobj p))
    (hsmall : ∀ a, t.heap.blocks a ≠ none → a ≠ 0 ∧ a < 2 ^ 32) : Stored t (e :: es) := by
  have hnew : e.addr ∉ addrs es := by
    intro h
    obtain ⟨p, hp⟩ := hs.pobjOf h
    rw [haddr] at hp
    cases hp
  have h0 : e.addr ≠ 0 := by
    refine (hsmall e.addr ?_).1
    rw [he.pobj]
    exact Option.some_ne_none _
  refine ⟨?_, ?_, ?_, ?_, hsmall⟩
  · rw [hl]
    exact hs.chain.insertHead h0 hnew
  · intro e' he'
    rcases List.mem_cons.mp he' with rfl | he'
    · exact he
    · obtain ⟨h1, h2, h3, h4, h5, h6⟩ := hs.live e' he'
      exact ⟨hb _ _ h1, hb _ _ h2, hb _ _ h3, h4, h5, h6⟩
  · have hold : ∀ a ∈ es.flatMap Entry.parts, s.heap.blocks a ≠ none := by
      intro a ha h
      obtain ⟨e', he', ha⟩ := List.mem_flatMap.mp ha
      obtain ⟨-, h2, h3, -⟩ := hs.live e' he'
      rcases List.mem_cons.mp ha with rfl | ha
      · rw [h] at h2
        cases h2
      · obtain rfl := List.mem_singleton.mp ha
        rw [h] at h3
        cases h3
    rw [List.flatMap_cons]
    refine List.nodup_append.mpr ⟨?_, hs.owned, ?_⟩
    · show [e.pobj.objId, e.pobj.data].Nodup
      rw [List.nodup_cons]
      exact ⟨fun h => hne (List.mem_singleton.mp h), List.nodup_singleton _⟩
    · intro a ha b hbm hab
      rcases List.mem_cons.mp ha with rfl | ha
      · exact hold b hbm (hab ▸ hid)
      · obtain rfl := List.mem_singleton.mp ha
        exact hold b hbm (hab ▸ hdata)
  · intro a p h
    rcases hp a p h with rfl | h
    · exact List.mem_cons_self
    · exact List.mem_cons_of_mem _ (hs.all a p h)

end

/-! ## create -/

section
variable {B : Nat → Option Block} {A : Nat → Nat} {n : Nat} {L : Links Queue}

theorem fresh_update {a m : Nat} {b : Block} :
    Fresh (Function.update B a (some b)) A m ↔ Fresh B A m ∧ A m ≠ a := by
  unfold Fresh
  by_cases h : A m = a
  · rw [h, Function.update_self]
    simp
  · rw [Function.update_of_ne h]
    simp [h]

/-- the allocations of a create: of the object, of its id, of its data -/
def Gets1 (B : Nat → Option Block) (A : Nat → Nat) (n : Nat) : Prop := Fresh B A n

def Gets2 (B : Nat → Option Block) (A : Nat → Nat) (n : Nat) : Prop :=
  Fresh B A (n + 1) ∧ A (n + 1) ≠ A n

def Gets3 (B : Nat → Option Block) (A : Nat → Nat) (n : Nat) : Prop :=
  Fresh B A (n + 2) ∧ A (n + 2) ≠ A n ∧ A (n + 2) ≠ A (n + 1)

/-- the entry that a create makes of the next three answers -/
def newEntry (uuid : Uuid) (objectId : List UInt8) (flags : Nat) (data : List UInt8)
    (A : Nat → Nat) (n : Nat) : Entry where
  addr := A n
  pobj := ⟨1, uuid, A (n + 1), objectId.length, flags, true, 0, A (n + 2), data.length⟩
  id := objectId
  data := data

/-- the blocks with those of the entry -/
def withEntry (B : Nat → Option Block) (e : Entry) : Nat → Option Block :=
  Function.update (Function.update (Function.update B e.addr (some (.pobj e.pobj))) e.pobj.objId
    (some (.bytes e.id))) e.pobj.data (some (.bytes e.data))

variable {uuid : Uuid} {objectId : List UInt8} {flags : Nat} {data : List UInt8}
  {Q : Nat → State → Prop}

/-- up to the allocation of the data, when the first two succeed -/
theorem wp_create_front (h1 : Gets1 B A n) (h2 : Gets2 B A n) :
    wp (uteeStorageObjCreate uuid objectId flags data) Q ⟨⟨B, A, n⟩, L⟩ ↔
    wp (saveData (A n) data) Q ⟨⟨Function.update (Function.update B (A n) (some (.pobj
      ⟨1, uuid, A (n + 1), objectId.length, flags, true, 0, 0, 0⟩))) (A (n + 1))
      (some (.bytes objectId)), A, n + 2⟩, L⟩ := by
  have h2' : ∀ b, Fresh (Function.update B (A n) (some b)) A (n + 1) := fun b => fresh_update.mpr h2
  have hne := h2.2
  have hself : ∀ b, Function.update (Function.update B (A n) (some b)) (A (n + 1))
      (some (.bytes (List.replicate objectId.length 0))) (A n) = some b := fun b =>
    (Function.update_of_ne hne.symm _ _).trans (Function.update_self _ _ _)
  rw [uteeStorageObjCreate, wp_bind, wp_malloc h1, wp_bind,
    wp_setPobj (Function.update_self (A n) _ B), Function.update_idem, wp_bind, wp_malloc (h2' _),
    wp_bind, wp_setPobj (hself _), Function.update_comm hne, Function.update_idem, if_neg h2.1.1,
    wp_bind, wp_pobjAt (hself _), wp_bind,
    wp_copyTo (Function.update_self (A (n + 1)) _ _) List.length_replicate,
    Function.update_idem, wp_bind,
    wp_setPobj ((Function.update_of_ne hne.symm _ _).trans (Function.update_self _ _ _)),
    Function.update_comm hne, Function.update_idem]
  exact Iff.rfl

/-- without a block for the object or for its id the function faults -/
theorem create_faults (h0 : ∀ p, B 0 ≠ some (.pobj p)) (h : ¬ (Gets1 B A n ∧ Gets2 B A n)) :
    ¬ wp (uteeStorageObjCreate uuid objectId flags data) Q ⟨⟨B, A, n⟩, L⟩ := by
  rw [uteeStorageObjCreate, wp_bind]
  by_cases h1 : Gets1 B A n
  · have h2 : ∀ b, ¬ Fresh (Function.update B (A n) (some b)) A (n + 1) := fun b hf =>
      h ⟨h1, fresh_update.mp hf⟩
    rw [wp_malloc h1, wp_bind, wp_setPobj (Function.update_self (A n) _ B), Function.update_idem,
      wp_bind, wp_malloc_full (h2 _), wp_bind, wp_setPobj (Function.update_self (A n) _ B),
      Function.update_idem, if_pos rfl, wp_bind,
      wp_free h1.1 (Function.update_self (A n) _ B), Function.update_idem, wp_bind]
    refine not_wp_pobjAt ?_
    intro p hp
    rw [Function.update_self] at hp
    cases hp
  · rw [wp_malloc_full h1, wp_bind, setPobj, wp_bind]
    exact not_wp_pobjAt h0

/-- without a block for the data the first two are released -/
theorem wp_create_noData (h1 : Gets1 B A n) (h2 : Gets2 B A n) (h3 : ¬ Gets3 B A n) :
    wp (uteeStorageObjCreate uuid objectId flags data) Q ⟨⟨B, A, n⟩, L⟩ ↔
      Q teeErrorOutOfMemory ⟨⟨B, A, n + 3⟩, L⟩ := by
  have hne := h2.2
  have hfull : ∀ b b', ¬ Fresh (Function.update (Function.update B (A n) (some b)) (A (n + 1))
      (some b')) A (n + 2) := by
    intro b b' hf
    obtain ⟨hf, h⟩ := fresh_update.mp hf
    obtain ⟨hf, h'⟩ := fresh_update.mp hf
    exact h3 ⟨hf, h', h⟩
  have hB : Function.update (Function.update B (A (n + 1)) none) (A n) none = B := by
    have e1 : Function.update B (A (n + 1)) none = B :=
      Function.update_eq_self_iff.mpr h2.1.2.2.symm
    have e2 : Function.update B (A n) none = B := Function.update_eq_self_iff.mpr h1.2.2.symm
    rw [e1, e2]
  rw [wp_create_front h1 h2, saveData, wp_bind, wp_malloc_full (hfull _ _), wp_bind,
    wp_setPobj ((Function.update_of_ne hne.symm _ _).trans (Function.update_self _ _ _)),
    Function.update_comm hne, Function.update_idem, if_pos rfl, wp_bind,
    wp_pobjAt ((Function.update_of_ne hne.symm _ _).trans (Function.update_self _ _ _)), wp_bind,
    wp_free h2.1.1 (Function.update_self _ _ _), Function.update_idem, wp_bind,
    Function.update_comm hne.symm,
    wp_free h1.1 (Function.update_self _ _ _), Function.update_idem, hB, wp_pure]

/-- all three allocations succeed -/
theorem wp_create (h1 : Gets1 B A n) (h2 : Gets2 B A n) (h3 : Gets3 B A n)
    (hf : Linkable B (L.first .globalPobjList)) :
    wp (uteeStorageObjCreate uuid objectId flags data) Q ⟨⟨B, A, n⟩, L⟩ ↔
      Q teeSuccess ⟨⟨withEntry B (newEntry uuid objectId flags data A n), A, n + 3⟩,
        L.insertHead .globalPobjList (A n)⟩ := by
  have hne := h2.2
  obtain ⟨hfr, hd1, hd2⟩ := h3
  have hfresh : ∀ b b', Fresh (Function.update (Function.update B (A n) (some b)) (A (n + 1))
      (some b')) A (n + 2) := fun b b' => fresh_update.mpr ⟨fresh_update.mpr ⟨hfr, hd1⟩, hd2⟩
  have hself : ∀ b b' b'', Function.update (Function.update (Function.update B (A n) (some b))
      (A (n + 1)) (some b')) (A (n + 2)) (some b'') (A n) = some b := by
    intro b b' b''
    rw [Function.update_of_ne hd1.symm, Function.update_of_ne hne.symm, Function.update_self]
  -- an update of the object moves in front of those of its id and data
  have hmove : ∀ b b' b'' c, Function.update (Function.update (Function.update
      (Function.update B (A n) (some b)) (A (n + 1)) (some b')) (A (n + 2)) (some b'')) (A n) c
      = Function.update (Function.update (Function.update B (A n) c) (A (n + 1)) (some b'))
        (A (n + 2)) (some b'') := by
    intro b b' b'' c
    rw [Function.update_comm hd1, Function.update_comm hne, Function.update_idem]
  rw [wp_create_front h1 h2, saveData, wp_bind, wp_malloc (hfresh _ _), wp_bind,
    wp_setPobj (hself _ _ _), hmove, if_neg hfr.1, wp_bind,
    wp_copyTo (Function.update_self (A (n + 2)) _ _) List.length_replicate, Function.update_idem,
    wp_bind, wp_setPobj (hself _ _ _), hmove, wp_bind, wp_insertHead (hself _ _ _) ?_, wp_pure]
  · exact Iff.rfl
  · intro h0
    obtain ⟨p, hp⟩ := hf h0
    refine ⟨p, ?_⟩
    rw [Function.update_of_ne, Function.update_of_ne, Function.update_of_ne, hp]
    · intro h
      rw [h, h1.2.2] at hp
      cases hp
    · intro h
      rw [h, h2.1.2.2] at hp
      cases hp
    · intro h
      rw [h, hfr.2.2] at hp
      cases hp

theorem withEntry_old {e : Entry} {a : Nat} {b : Block} (h : B a = some b)
    (h1 : B e.addr = none) (h2 : B e.pobj.objId = none) (h3 : B e.pobj.data = none) :
    withEntry B e a = some b := by
  have hne : ∀ c, B c = none → a ≠ c := by
    intro c hc hac
    rw [hac, hc] at h
    cases h
  rw [withEntry, Function.update_of_ne (hne _ h3), Function.update_of_ne (hne _ h2),
    Function.update_of_ne (hne _ h1), h]

theorem withEntry_in {e : Entry} (h1 : e.addr ≠ e.pobj.objId) (h2 : e.addr ≠ e.pobj.data)
    (h3 : e.pobj.objId ≠ e.pobj.data) (hr : e.pobj.refcnt = 1)
    (hi : e.pobj.objIdLen = e.id.length) (hd : e.pobj.dataLen = e.data.length) :
    e.In (withEntry B e) := by
  refine ⟨?_, ?_, Function.update_self _ _ _, hr, hi, hd⟩
  · rw [withEntry, Function.update_of_ne h2, Function.update_of_ne h1, Function.update_self]
  · rw [withEntry, Function.update_of_ne h3, Function.update_self]

theorem withEntry_new {e : Entry} {a : Nat} {b : Block} (h : withEntry B e a = some b) :
    B a = some b ∨ (a = e.addr ∧ b = .pobj e.pobj) ∨
      ((a = e.pobj.objId ∨ a = e.pobj.data) ∧ ∃ l, b = .bytes l) := by
  unfold withEntry at h
  by_cases h3 : a = e.pobj.data
  · rw [h3, Function.update_self] at h
    exact Or.inr (Or.inr ⟨Or.inr h3, e.data, (Option.some.inj h).symm⟩)
  rw [Function.update_of_ne h3] at h
  by_cases h2 : a = e.pobj.objId
  · rw [h2, Function.update_self] at h
    exact Or.inr (Or.inr ⟨Or.inl h2, e.id, (Option.some.inj h).symm⟩)
  rw [Function.update_of_ne h2] at h
  by_cases h1 : a = e.addr
  · rw [h1, Function.update_self] at h
    exact Or.inr (Or.inl ⟨h1, (Option.some.inj h).symm⟩)
  · rw [Function.update_of_ne h1] at h
    exact Or.inl h

end

/-- what a create leaves as it was: every block, and which blocks are handles -/
structure Grown (s t : State) : Prop where
  kept : ∀ a b, s.heap.blocks a = some b → t.heap.blocks a = some b
  handles : ∀ a o, t.heap.blocks a = some (.obj o) → s.heap.blocks a = some (.obj o)

/-- the store with a new entry -/
theorem Stored.created {B : Nat → Option Block} {A : Nat → Nat} {n : Nat} {L : Links Queue}
    {es : List Entry} (hs : Stored ⟨⟨B, A, n⟩, L⟩ es) (uuid : Uuid)
    (objectId : List UInt8) (flags : Nat) (data : List UInt8) (h1 : Gets1 B A n) (h2 : Gets2 B A n) (h3 : Gets3 B A n) :
    Stored ⟨⟨withEntry B (newEntry uuid objectId flags data A n), A, n + 3⟩,
        L.insertHead .globalPobjList (A n)⟩ (newEntry uuid objectId flags data A n :: es) ∧
      Grown ⟨⟨B, A, n⟩, L⟩ ⟨⟨withEntry B (newEntry uuid objectId flags data A n), A, n + 3⟩,
        L.insertHead .globalPobjList (A n)⟩ := by
  have hold : ∀ a b, B a = some b →
      withEntry B (newEntry uuid objectId flags data A n) a = some b := fun a b h =>
    withEntry_old h h1.2.2 h2.1.2.2 h3.1.2.2
  constructor
  · refine hs.add rfl hold ?_ h1.2.2 h2.1.2.2 h3.1.2.2 h3.2.2.symm ?_ ?_
    · exact withEntry_in h2.2.symm h3.2.1.symm h3.2.2.symm rfl rfl rfl
    · intro a p h
      rcases withEntry_new h with h | ⟨h, -⟩ | ⟨-, l, h⟩
      · exact Or.inr h
      · exact Or.inl h
      · cases h
    · intro a h
      obtain ⟨b, hb⟩ := Option.ne_none_iff_exists'.mp h
      rcases withEntry_new hb with hb | ⟨rfl, -⟩ | ⟨rfl | rfl, -⟩
      · refine hs.small a ?_
        show B a ≠ none
        rw [hb]
        exact Option.some_ne_none b
      · exact ⟨h1.1, h1.2.1⟩
      · exact ⟨h2.1.1, h2.1.2.1⟩
      · exact ⟨h3.1.1, h3.1.2.1⟩
  · refine ⟨hold, ?_⟩
    intro a o h
    rcases withEntry_new h with h | ⟨-, h⟩ | ⟨-, l, h⟩
    · exact h
    · cases h
    · cases h

theorem Stored.no_null {s : State} {es : List Entry} (hs : Stored s es) :
    s.heap.blocks 0 = none := by
  by_contra h
  exact (hs.small 0 h).1 rfl

/-- **A create that does not fault**: nothing changes, or there is one more entry. -/
theorem create_effect {s : State} {es : List Entry} (hs : Stored s es) (uuid : Uuid)
    (objectId : List UInt8) (flags : Nat) (data : List UInt8) :
    wlp (uteeStorageObjCreate uuid objectId flags data) (fun res t =>
      (res ≠ teeSuccess ∧ t.heap.blocks = s.heap.blocks ∧ t.links = s.links) ∨
      (res = teeSuccess ∧ Grown s t ∧ ∃ e, Stored t (e :: es) ∧ e.pobj.uuid = uuid ∧
        e.id = objectId ∧ e.data = data)) s := by
  obtain ⟨⟨B, A, n⟩, L⟩ := s
  by_cases h12 : Gets1 B A n ∧ Gets2 B A n
  · obtain ⟨h1, h2⟩ := h12
    refine wlp_of_wp ?_
    by_cases h3 : Gets3 B A n
    · obtain ⟨ht, hg⟩ := hs.created uuid objectId flags data h1 h2 h3
      rw [wp_create h1 h2 h3 hs.linkable_first]
      exact Or.inr ⟨rfl, hg, _, ht, rfl, rfl, rfl⟩
    · rw [wp_create_noData h1 h2 h3]
      exact Or.inl ⟨by decide, rfl, rfl⟩
  · refine wlp_of_faults (create_faults ?_ h12)
    intro p h
    have h0 : B 0 = none := hs.no_null
    rw [h0] at h
    cases h

/-! ## release -/

section
variable {B : Nat → Option Block} {A : Nat → Nat} {n : Nat} {L : Links Queue} {e : Entry}

/-- the blocks without the object and its id: its data stays -/
def withoutEntry (B : Nat → Option Block) (e : Entry) : Nat → Option Block :=
  Function.update (Function.update B e.pobj.objId none) e.addr none

theorem withoutEntry_of_ne {a : Nat} (h1 : a ≠ e.addr) (h2 : a ≠ e.pobj.objId) :
    withoutEntry B e a = B a := by
  rw [withoutEntry, Function.update_of_ne h1, Function.update_of_ne h2]

theorem withoutEntry_sub {a : Nat} {b : Block} (h : withoutEntry B e a = some b) :
    B a = some b := by
  unfold withoutEntry at h
  by_cases h1 : a = e.addr
  · rw [h1, Function.update_self] at h
    cases h
  rw [Function.update_of_ne h1] at h
  by_cases h2 : a = e.pobj.objId
  · rw [h2, Function.update_self] at h
    cases h
  · rwa [Function.update_of_ne h2] at h

/-- one of several references is given up -/
theorem wp_release_shared {a : Nat} {p : Pobj} {Q : Nat → State → Prop}
    (hp : B a = some (.pobj p)) (h0 : a ≠ 0) (hcount : (p.refcnt + (2 ^ 32 - 1)) % 2 ^ 32 ≠ 0) :
    wp (teePobjRelease a) Q ⟨⟨B, A, n⟩, L⟩ ↔ Q teeSuccess ⟨⟨Function.update B a (some (.pobj
      { p with refcnt := (p.refcnt + (2 ^ 32 - 1)) % 2 ^ 32 })), A, n⟩, L⟩ := by
  rw [teePobjRelease, if_neg h0, wp_bind, wp_setPobj hp, wp_bind,
    wp_pobjAt (Function.update_self a _ B), if_neg hcount, wp_pure]

/-- the last reference is given up -/
theorem wp_release_last {a : Nat} {p : Pobj} {b : Block} {Q : Nat → State → Prop}
    (hp : B a = some (.pobj p)) (hb : B p.objId = some b) (h0 : a ≠ 0) (hi : p.objId ≠ 0)
    (hne : a ≠ p.objId) (hcount : (p.refcnt + (2 ^ 32 - 1)) % 2 ^ 32 = 0)
    (hn : Linkable B (L.next a)) (hprev : ∀ c, L.prev a = .next c → ∃ p, B c = some (.pobj p)) :
    wp (teePobjRelease a) Q ⟨⟨B, A, n⟩, L⟩ ↔ Q teeSuccess
      ⟨⟨Function.update (Function.update B p.objId none) a none, A, n⟩, L.remove .teePobjs a⟩ := by
  have hstill : ∀ c q, (∃ p', B c = some (.pobj p')) →
      ∃ p', Function.update B a (some (.pobj q)) c = some (.pobj p') := by
    intro c q h
    by_cases hc : c = a
    · exact ⟨q, by rw [hc, Function.update_self]⟩
    · obtain ⟨p', hp'⟩ := h
      exact ⟨p', by rw [Function.update_of_ne hc, hp']⟩
  have hid : ∀ c, Function.update B a (some c) p.objId = some b := by
    intro c
    rw [Function.update_of_ne hne.symm, hb]
  have hself : ∀ c, Function.update (Function.update B a (some c)) p.objId none a = some c := by
    intro c
    rw [Function.update_of_ne hne, Function.update_self]
  rw [teePobjRelease, if_neg h0, wp_bind, wp_setPobj hp, wp_bind,
    wp_pobjAt (Function.update_self a _ B), if_pos hcount, wp_bind,
    wp_remove (Function.update_self a _ B) (fun h => hstill _ _ (hn h))
      (fun c h => hstill _ _ (hprev c h)), wp_bind, wp_free hi (hid _), wp_bind,
    wp_free h0 (hself _), wp_pure, Function.update_comm hne, Function.update_idem]

/-- the only reference to an entry is given up -/
theorem wp_release {Q : Nat → State → Prop} (he : e.In B) (h0 : e.addr ≠ 0)
    (hi : e.pobj.objId ≠ 0) (hn : Linkable B (L.next e.addr))
    (hp : ∀ a, L.prev e.addr = .next a → ∃ p, B a = some (.pobj p)) :
    wp (teePobjRelease e.addr) Q ⟨⟨B, A, n⟩, L⟩ ↔
      Q teeSuccess ⟨⟨withoutEntry B e, A, n⟩, L.remove .teePobjs e.addr⟩ := by
  have hne : e.addr ≠ e.pobj.objId := by
    intro h
    have hid := he.id
    rw [← h, he.pobj] at hid
    cases hid
  have hcount : (e.pobj.refcnt + (2 ^ 32 - 1)) % 2 ^ 32 = 0 := by
    rw [he.refcnt]
    norm_num
  rw [wp_release_last he.pobj he.id h0 hi hne hcount hn hp]
  exact Iff.rfl

end

section
variable {s : State} {es es1 es2 : List Entry} {e : Entry}

theorem Stored.live_ne_zero (hs : Stored s es) {a : Nat} {b : Block}
    (h : s.heap.blocks a = some b) : a ≠ 0 := by
  refine (hs.small a ?_).1
  rw [h]
  exact Option.some_ne_none b

/-- the neighbours of an entry are objects -/
theorem Stored.linkable_next (hs : Stored s (es1 ++ e :: es2)) :
    Linkable s.heap.blocks (s.links.next e.addr) := by
  have hc := hs.chain
  rw [addrs, List.map_append, List.map_cons] at hc
  refine Linkable.next hc ?_
  rw [← List.map_cons, ← List.map_append]
  exact fun a ha => hs.pobjOf ha

theorem Stored.linkable_prev (hs : Stored s (es1 ++ e :: es2)) {a : Nat}
    (h : s.links.prev e.addr = .next a) : ∃ p, s.heap.blocks a = some (.pobj p) := by
  have hc := hs.chain
  rw [addrs, List.map_append, List.map_cons] at hc
  refine Linkable.prev hc ?_ h
  rw [← List.map_cons, ← List.map_append]
  exact fun a ha => hs.pobjOf ha

end

/-! ## open -/

/-- the object that a TA asks for -/
def Matches (uuid : Uuid) (objectId : List UInt8) (e : Entry) : Prop :=
  e.pobj.uuid = uuid ∧ e.id = objectId

instance (uuid : Uuid) (objectId : List UInt8) (e : Entry) : Decidable (Matches uuid objectId e) :=
  inferInstanceAs (Decidable (_ ∧ _))

/-- the arguments that `utee_storage_obj_open` accepts -/
def Admits (objectId : List UInt8) (flags : Nat) : Prop :=
  flags &&& (2 ^ 32 - 1 - validFlags) = 0 ∧ objectId.length ≤ teeObjectIdMaxLen

instance (objectId : List UInt8) (flags : Nat) : Decidable (Admits objectId flags) :=
  inferInstanceAs (Decidable (_ ∧ _))

/-- the handle that an open makes -/
def newObj (flags addr : Nat) : Obj :=
  ⟨teeHandleFlagPersistent ||| teeHandleFlagInitialized ||| flags, 0, addr⟩

section
variable {B : Nat → Option Block} {A : Nat → Nat} {n : Nat} {L : Links Queue} {es : List Entry}
  {uuid : Uuid} {objectId : List UInt8} {flags : Nat}

/-- **The loop over the list**: it ends at the first entry that does not match. -/
theorem wp_findStored {po : Nat} {Q : Option Nat → State → Prop} (hlive : ∀ e ∈ es, e.In B) :
    wp (findStored uuid objectId po (addrs es)) Q ⟨⟨B, A, n⟩, L⟩ ↔
      Q (if ∀ e ∈ es, Matches uuid objectId e then some ((addrs es).getLastD po) else none)
        ⟨⟨B, A, n⟩, L⟩ := by
  induction es generalizing po with
  | nil =>
    have h : ∀ e ∈ ([] : List Entry), Matches uuid objectId e :=
      fun e he => absurd he List.not_mem_nil
    rw [if_pos h]
    exact Iff.rfl
  | cons e es ih =>
    have he := hlive e List.mem_cons_self
    have ih := @ih e.addr fun e' he' => hlive e' (List.mem_cons_of_mem e he')
    have hmis : ¬ Matches uuid objectId e → ¬ ∀ e' ∈ e :: es, Matches uuid objectId e' :=
      fun h h' => h (h' e List.mem_cons_self)
    show wp (findStored uuid objectId po (e.addr :: addrs es)) Q _ ↔ _
    rw [findStored, wp_bind, wp_pobjAt he.pobj]
    by_cases hlen : objectId.length = e.pobj.objIdLen
    · have hle : objectId.length ≤ e.id.length := by rw [hlen, he.idLen]
      have htake : e.id.take objectId.length = e.id := by
        rw [hlen, he.idLen, List.take_length]
      rw [if_pos hlen, wp_bind, wp_bytesAt he.id hle, htake]
      by_cases hid : objectId = e.id
      · rw [if_pos hid]
        by_cases hu : uuid = e.pobj.uuid
        · have hm : Matches uuid objectId e := ⟨hu.symm, hid.symm⟩
          have hall : (∀ e' ∈ e :: es, Matches uuid objectId e') ↔
              ∀ e' ∈ es, Matches uuid objectId e' := by
            rw [List.forall_mem_cons]
            exact and_iff_right hm
          have hlast : (addrs (e :: es)).getLastD po = (addrs es).getLastD e.addr :=
            List.getLastD_cons
          rw [if_pos hu, ih, hlast]
          simp only [hall]
        · rw [if_neg hu, if_neg (hmis fun h => hu h.1.symm), wp_pure]
      · rw [if_neg hid, if_neg (hmis fun h => hid h.2.symm), wp_pure]
    · have hid : ¬ Matches uuid objectId e := by
        intro h
        exact hlen (by rw [he.idLen, h.2])
      rw [if_neg hlen, if_neg (hmis hid), wp_pure]

end

/-- the outcomes of an open: its arguments are refused; an entry does not match, or there is none;
there is no block for the handle, and the object is given up; there is a handle -/
inductive Opened (uuid : Uuid) (objectId : List UInt8) (flags : Nat) (es : List Entry)
    (s : State) : Reply → State → Prop where
  | refused : ¬ Admits objectId flags → Opened uuid objectId flags es s ⟨teeErrorBadParameters, 0⟩ s
  | absent : Admits objectId flags → (es = [] ∨ ∃ e ∈ es, ¬ Matches uuid objectId e) →
      Opened uuid objectId flags es s ⟨teeSuccess, 0⟩ s
  | full (es' : List Entry) (e : Entry) : Admits objectId flags → es = es' ++ [e] →
      (∀ e ∈ es, Matches uuid objectId e) → s.heap.Full →
      Opened uuid objectId flags es s ⟨teeErrorOutOfMemory, 0⟩
        ⟨⟨withoutEntry s.heap.blocks e, s.heap.answers, s.heap.calls + 1⟩,
          s.links.remove .teePobjs e.addr⟩
  | found (es' : List Entry) (e : Entry) : Admits objectId flags → es = es' ++ [e] →
      (∀ e ∈ es, Matches uuid objectId e) → ¬ s.heap.Full →
      Opened uuid objectId flags es s ⟨teeSuccess, s.heap.answers s.heap.calls⟩
        ⟨⟨Function.update s.heap.blocks (s.heap.answers s.heap.calls)
          (some (.obj (newObj flags e.addr))), s.heap.answers, s.heap.calls + 1⟩, s.links⟩

/-- **An open.** -/
theorem open_effect {s : State} {es : List Entry} (hs : Stored s es) (uuid : Uuid)
    (objectId : List UInt8) (flags : Nat) :
    wp (uteeStorageObjOpen uuid objectId flags) (Opened uuid objectId flags es s) s := by
  unfold uteeStorageObjOpen
  by_cases hflags : flags &&& (2 ^ 32 - 1 - validFlags) ≠ 0
  · rw [if_pos hflags, wp_pure]
    exact .refused fun h => hflags h.1
  rw [if_neg hflags]
  by_cases hlen : objectId.length > teeObjectIdMaxLen
  · rw [if_pos hlen, wp_pure]
    exact .refused fun h => absurd h.2 (by omega)
  have had : Admits objectId flags := ⟨not_not.mp hflags, by omega⟩
  rw [if_neg hlen, wp_bind, wp_get]
  rcases hs.first_eq with ⟨h0, hes⟩ | ⟨e0, es0, hes, h0, hne0⟩
  · rw [if_pos h0, wp_pure]
    exact .absent had (Or.inl hes)
  have hne : s.links.first .globalPobjList ≠ 0 := by
    rw [h0]
    exact hne0
  rw [if_neg hne, hs.elems_eq, wp_bind]
  obtain ⟨⟨B, A, n⟩, L⟩ := s
  rw [wp_findStored hs.live]
  by_cases hall : ∀ e ∈ es, Matches uuid objectId e
  · have hnil : es ≠ [] := by
      rw [hes]
      exact List.cons_ne_nil _ _
    obtain ⟨es', e, rfl⟩ : ∃ es' e, es = es' ++ [e] :=
      ⟨es.dropLast, es.getLast hnil, (List.dropLast_append_getLast hnil).symm⟩
    have hlast : (addrs (es' ++ [e])).getLastD 0 = e.addr := by
      rw [addrs, List.map_append]
      exact List.getLastD_concat
    have he : e.In B := hs.live e (List.mem_append_right _ (List.mem_singleton_self e))
    rw [if_pos hall, hlast]
    show wp (teeMalloc _ >>= _) _ _
    rw [wp_bind]
    by_cases hf : Fresh B A n
    · have hnf := not_full_iff_fresh.mpr hf
      have hkept : ∀ b, Function.update B (A n) (some b) e.addr = some (.pobj e.pobj) := by
        intro b
        rw [Function.update_of_ne, he.pobj]
        intro h
        have hp := he.pobj
        rw [h, hf.2.2] at hp
        cases hp
      rw [wp_malloc hf, if_neg hf.1, wp_bind, wp_storeAt, Function.update_idem, wp_bind,
        wp_pobjAt (hkept _), wp_pure]
      exact .found es' e had rfl hall hnf
    · have hfull : (Heap.mk B A n).Full := not_not.mp fun h => hf (not_full_iff_fresh.mp h)
      rw [wp_malloc_full hf, if_pos rfl, wp_bind,
        wp_release he (hs.live_ne_zero he.pobj) (hs.live_ne_zero he.id) hs.linkable_next
          (fun a h => hs.linkable_prev h), wp_pure]
      exact .full es' e had rfl hall hfull
  · rw [if_neg hall]
    show wp (pure _) _ _
    rw [wp_pure]
    refine .absent had (Or.inr ?_)
    push Not at hall
    exact hall

/-- handles are not part of the store: a block that is one can be made, changed or released -/
theorem Stored.setHandle {s : State} {es : List Entry} (hs : Stored s es) {a n : Nat}
    {b : Option Block} (hold : s.heap.blocks a = none ∨ ∃ o, s.heap.blocks a = some (.obj o))
    (hnew : ∀ p, b ≠ some (.pobj p)) (hb : b ≠ none → a ≠ 0 ∧ a < 2 ^ 32) :
    Stored ⟨⟨Function.update s.heap.blocks a b, s.heap.answers, n⟩, s.links⟩ es := by
  refine hs.frame rfl ?_ ?_ ?_
  · intro c d hc hd
    refine (Function.update_of_ne ?_ _ _).trans hc
    rintro rfl
    rcases hold with h | ⟨o, h⟩
    · rw [h] at hc
      cases hc
    · rw [h] at hc
      exact hd o (Option.some.inj hc).symm
  · intro c p hc
    by_cases hca : c = a
    · subst hca
      have hc : Function.update s.heap.blocks c b c = some (.pobj p) := hc
      rw [Function.update_self] at hc
      exact absurd hc (hnew p)
    · exact (Function.update_of_ne hca _ _).symm.trans hc
  · intro c hc
    by_cases hca : c = a
    · subst hca
      refine hb ?_
      rw [← Function.update_self c b s.heap.blocks]
      exact hc
    · refine hs.small c ?_
      rw [← Function.update_of_ne hca b s.heap.blocks]
      exact hc

/-- the entries after an open -/
theorem Opened.stored {s t : State} {es : List Entry} {uuid : Uuid} {objectId : List UInt8}
    {flags : Nat} {r : Reply} (hs : Stored s es) (h : Opened uuid objectId flags es s r t) :
    ∃ es', Stored t es' ∧ (es' = es ∨ ∃ e, es = es' ++ [e] ∧ s.heap.Full) := by
  cases h with
  | refused _ => exact ⟨es, hs, Or.inl rfl⟩
  | absent _ _ => exact ⟨es, hs, Or.inl rfl⟩
  | full es' e _ hes _ hfull =>
    subst hes
    refine ⟨es', ?_, Or.inr ⟨e, rfl, hfull⟩⟩
    have hc := hs.chain
    rw [addrs, List.map_append] at hc
    have hc := hc.remove .teePobjs
    have hdrop := hs.drop (t := ⟨⟨withoutEntry s.heap.blocks e, s.heap.answers, s.heap.calls + 1⟩,
      s.links.remove .teePobjs e.addr⟩) ?_ ?_ (fun a b h => withoutEntry_sub h) ?_
    · rw [List.append_nil] at hdrop
      exact hdrop
    · rw [List.append_nil]
      rw [List.map_nil, List.append_nil] at hc
      exact hc
    · intro a b hb _ h1 h2
      exact (withoutEntry_of_ne h1 h2).trans hb
    · exact Function.update_self _ _ _
  | found es' e _ hes _ hnf =>
    refine ⟨es, ?_, Or.inl rfl⟩
    obtain ⟨h0, hlt, hn⟩ := Heap.not_full_iff.mp hnf
    exact hs.setHandle (Or.inl hn) (fun p h => nomatch h) fun _ => ⟨h0, hlt⟩

/-! ## delete and read -/

/-- the state after a delete of the entry `e` through the handle `h` -/
def deleted (s : State) (h : Nat) (e : Entry) : State where
  heap := ⟨Function.update (withoutEntry s.heap.blocks e) h none, s.heap.answers, s.heap.calls⟩
  links := (s.links.remove .globalPobjList e.addr).remove .teePobjs e.addr

section
variable {s : State} {es es1 es2 : List Entry} {e : Entry} {o : Obj} {h : Nat}

/-- **A delete through a live handle with the right to it.** -/
theorem wp_del {Q : Nat → State → Prop} (hs : Stored s (es1 ++ e :: es2))
    (ho : s.heap.blocks h = some (.obj o)) (hpo : o.pobj = e.addr)
    (hm : o.handleFlags &&& teeDataFlagAccessWriteMeta ≠ 0) :
    wp (uteeStorageObjDel h) Q s ↔ Q teeSuccess (deleted s h e) := by
  have he := hs.live e (List.mem_append_right _ List.mem_cons_self)
  have h0 := hs.live_ne_zero he.pobj
  have hi := hs.live_ne_zero he.id
  have hh := hs.live_ne_zero ho
  have hnext := hs.linkable_next
  have hprev : ∀ a, s.links.prev e.addr = .next a → ∃ p, s.heap.blocks a = some (.pobj p) :=
    fun a h => hs.linkable_prev h
  have hc := hs.chain
  rw [addrs, List.map_append, List.map_cons] at hc
  obtain ⟨hnd, z, hseg, hz⟩ := hc
  obtain ⟨hn', hp'⟩ := Links.remove_self .globalPobjList hseg hz hnd
  obtain ⟨⟨B, A, n⟩, L⟩ := s
  have ho : B h = some (.obj o) := ho
  have he : e.In B := he
  have hstill : withoutEntry B e h = some (.obj o) := by
    rw [withoutEntry_of_ne, ho]
    · rintro rfl
      rw [he.pobj] at ho
      cases ho
    · rintro rfl
      rw [he.id] at ho
      cases ho
  have hne : o.pobj ≠ 0 := by
    rw [hpo]
    exact h0
  rw [uteeStorageObjDel, wp_bind, wp_objAt ho, if_neg hm, if_neg hne, wp_bind, hpo,
    wp_pobjAt he.pobj, if_neg hi, wp_bind, wp_remove he.pobj hnext hprev, wp_bind,
    wp_release he h0 hi (by rw [hn']; exact hnext) (by rw [hp']; exact hprev), wp_bind,
    teeObjFree, if_neg hh, wp_bind, wp_objAt hstill, wp_free hh hstill, wp_pure]
  exact Iff.rfl

/-- the outcomes of a delete that does not fault -/
inductive Deleted (h : Nat) (es : List Entry) (s : State) : Nat → State → Prop where
  | refused (res : Nat) : res ≠ teeSuccess → Deleted h es s res s
  | removed (o : Obj) (es1 : List Entry) (e : Entry) (es2 : List Entry) :
      s.heap.blocks h = some (.obj o) → o.pobj = e.addr →
      o.handleFlags &&& teeDataFlagAccessWriteMeta ≠ 0 → es = es1 ++ e :: es2 →
      Deleted h es s teeSuccess (deleted s h e)

theorem del_effect (hs : Stored s es) (h : Nat) :
    wlp (uteeStorageObjDel h) (Deleted h es s) s := by
  cases hb : s.heap.blocks h with
  | none =>
    obtain ⟨⟨B, A, n⟩, L⟩ := s
    rw [uteeStorageObjDel, wlp_bind, wlp_objAt]
    intro o ho
    exact absurd (hb.symm.trans ho) (fun h => nomatch h)
  | some b =>
    by_cases hkind : ∃ o p, b = .obj o ∧ s.heap.blocks o.pobj = some (.pobj p) ∧
        o.handleFlags &&& teeDataFlagAccessWriteMeta ≠ 0
    · obtain ⟨o, p, rfl, hp, hm⟩ := hkind
      obtain ⟨e, hmem, hpo⟩ := mem_addrs.mp (hs.all _ _ hp)
      obtain ⟨es1, es2, rfl⟩ := List.append_of_mem hmem
      refine wlp_of_wp ((wp_del hs hb hpo.symm hm).mpr ?_)
      exact .removed o es1 e es2 hb hpo.symm hm rfl
    · obtain ⟨⟨B, A, n⟩, L⟩ := s
      rw [uteeStorageObjDel, wlp_bind, wlp_objAt]
      intro o ho
      obtain rfl := Option.some.inj (hb.symm.trans ho)
      by_cases hm : o.handleFlags &&& teeDataFlagAccessWriteMeta = 0
      · rw [if_pos hm, wlp_pure]
        exact .refused _ (by decide)
      rw [if_neg hm]
      by_cases h0 : o.pobj = 0
      · rw [if_pos h0, wlp_pure]
        exact .refused _ (by decide)
      · rw [if_neg h0, wlp_bind, wlp_pobjAt]
        intro p hp
        exact absurd ⟨o, p, rfl, hp, hm⟩ hkind

/-- the entries after a delete -/
theorem Stored.deleted (hs : Stored s (es1 ++ e :: es2)) (ho : s.heap.blocks h = some (.obj o)) :
    Stored (deleted s h e) (es1 ++ es2) := by
  have he := hs.live e (List.mem_append_right _ List.mem_cons_self)
  have hc := hs.chain
  rw [addrs, List.map_append, List.map_cons] at hc
  have hlinks := hc.remove_remove .teePobjs
  rw [← List.map_append] at hlinks
  refine hs.drop hlinks ?_ ?_ ?_
  · intro a b hb hkind h1 h2
    refine (Function.update_of_ne ?_ _ _).trans ((withoutEntry_of_ne h1 h2).trans hb)
    rintro rfl
    rw [ho] at hb
    exact hkind o (Option.some.inj hb).symm
  · intro a b hb
    by_cases hah : a = h
    · subst hah
      have hb : Function.update (withoutEntry s.heap.blocks e) a none a = some b := hb
      rw [Function.update_self] at hb
      cases hb
    · exact withoutEntry_sub ((Function.update_of_ne hah _ _).symm.trans hb)
  · have hne : e.addr ≠ h := by
      intro hah
      rw [← hah, he.pobj] at ho
      cases ho
    exact (Function.update_of_ne hne _ _).trans (Function.update_self _ _ _)

/-- **A read** copies from the start of the data and moves the position. -/
theorem wp_read {Q : Nat × List UInt8 → State → Prop} {p : Pobj} {len : Nat} {l : List UInt8}
    (ho : s.heap.blocks h = some (.obj o)) (hp : s.heap.blocks o.pobj = some (.pobj p))
    (hl : s.heap.blocks p.data = some (.bytes l)) (hlen : len ≤ l.length) :
    wp (uteeStorageObjRead h len) Q s ↔ Q (teeSuccess, l.take len)
      ⟨⟨Function.update s.heap.blocks h (some (.obj { o with
        dataPosition := (o.dataPosition + len) % 2 ^ 32 })), s.heap.answers, s.heap.calls⟩,
        s.links⟩ := by
  obtain ⟨⟨B, A, n⟩, L⟩ := s
  rw [uteeStorageObjRead, wp_bind, wp_objAt ho, wp_bind, wp_pobjAt hp, wp_bind,
    wp_bytesAt hl hlen, wp_bind, wp_storeAt, wp_pure]

/-- what is known after a read -/
theorem read_effect (s : State) (h len : Nat) : wlp (uteeStorageObjRead h len) (fun r t =>
    r.1 = teeSuccess ∧ ∃ o pos, s.heap.blocks h = some (.obj o) ∧
      t = ⟨⟨Function.update s.heap.blocks h (some (.obj { o with dataPosition := pos })),
        s.heap.answers, s.heap.calls⟩, s.links⟩) s := by
  obtain ⟨⟨B, A, n⟩, L⟩ := s
  rw [uteeStorageObjRead, wlp_bind, wlp_objAt]
  intro o ho
  rw [wlp_bind, wlp_pobjAt]
  intro p hp
  rw [wlp_bind]
  refine wlp_mono wlp_bytesAt ?_
  rintro l t rfl
  exact ⟨rfl, o, _, ho, rfl⟩

end

end MTower.Storage
