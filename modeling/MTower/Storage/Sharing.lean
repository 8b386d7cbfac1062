import MTower.Storage.Runs

/-!
# Sharing of open objects

`tee_pobj_get` and `tee_pobj_release`, with a record of the handles that are out: the address of an
entry and the flags the handle was asked for with.  The entry keeps the flags of its first opener
only; comparing with them stands for comparing with all handles, because the comparison is symmetric
and transitive.

* `checkAccess_iff`, `Compatible.trans`  what the comparison says;
* `Pool`, `Counts`     the entries of a state, and the handles of each;
* `SharingRule`        one entry for a key, its count, and when a get is granted;
* `sharing_of_run`     the rule holds after every run.
-/

set_option linter.unusedVariables false

namespace MTower.Storage
open Lib
open Kernel (Uuid)

/-! ## the comparison -/

/-- handles with these flags can be compared at all -/
def Shareable (f : Nat) : Prop :=
  hasFlag f teeDataFlagAccessWriteMeta = false ∧
  (hasFlag f teeDataFlagAccessRead = true → hasFlag f teeDataFlagShareRead = true) ∧
  (hasFlag f teeDataFlagAccessWrite = true → hasFlag f teeDataFlagShareWrite = true)

def SameShare (f g : Nat) : Prop :=
  f &&& teeDataFlagShareRead = g &&& teeDataFlagShareRead ∧
  f &&& teeDataFlagShareWrite = g &&& teeDataFlagShareWrite

def Compatible (oflags nflags : Nat) : Prop := teePobjCheckAccess oflags nflags = teeSuccess

instance (oflags nflags : Nat) : Decidable (Compatible oflags nflags) :=
  inferInstanceAs (Decidable (_ = _))

theorem hasFlag_congr {f g flag : Nat} (h : f &&& flag = g &&& flag) :
    hasFlag f flag = hasFlag g flag := by
  rw [hasFlag, hasFlag, h]

theorem conflict_iff {p : Prop} [Decidable p] {x : Nat} :
    (if p then teeErrorAccessConflict else x) = teeSuccess ↔ ¬ p ∧ x = teeSuccess := by
  by_cases h : p
  · rw [if_pos h]
    exact iff_of_false (by decide) fun h' => h'.1 h
  · rw [if_neg h]
    exact (and_iff_right h).symm

/-- **What `tee_pobj_check_access` compares.** -/
theorem compatible_iff {f g : Nat} :
    Compatible f g ↔ Shareable f ∧ Shareable g ∧ SameShare f g := by
  unfold Compatible teePobjCheckAccess
  rw [conflict_iff, conflict_iff, conflict_iff, conflict_iff, conflict_iff]
  constructor
  · intro h
    obtain ⟨hm, hr, hsr, hw, hsw, -⟩ := h
    have hsr := not_not.mp hsr
    have hsw := not_not.mp hsw
    rw [hasFlag_congr hsr] at hr
    rw [hasFlag_congr hsw] at hw
    refine ⟨⟨?_, ?_, ?_⟩, ⟨?_, ?_, ?_⟩, hsr.symm, hsw.symm⟩
    · simp_all
    · simp_all
    · simp_all
    · simp_all
    · rw [hasFlag_congr hsr]
      simp_all
    · rw [hasFlag_congr hsw]
      simp_all
  · intro h
    obtain ⟨⟨hm, hr, hw⟩, ⟨hm', hr', hw'⟩, hsr, hsw⟩ := h
    rw [← hasFlag_congr hsr] at hr'
    rw [← hasFlag_congr hsw] at hw'
    refine ⟨?_, ?_, ?_, ?_, ?_, rfl⟩
    · simp [hm, hm']
    · rw [← hasFlag_congr hsr]
      simp
      tauto
    · exact fun h => h hsr.symm
    · rw [← hasFlag_congr hsw]
      simp
      tauto
    · exact fun h => h hsw.symm

theorem Compatible.symm {f g : Nat} (h : Compatible f g) : Compatible g f := by
  rw [compatible_iff] at h ⊢
  obtain ⟨hf, hg, hr, hw⟩ := h
  exact ⟨hg, hf, hr.symm, hw.symm⟩

theorem Compatible.trans {f g h : Nat} (h1 : Compatible f g) (h2 : Compatible g h) :
    Compatible f h := by
  rw [compatible_iff] at h1 h2 ⊢
  obtain ⟨hf, -, hr, hw⟩ := h1
  obtain ⟨-, hh, hr', hw'⟩ := h2
  exact ⟨hf, hh, hr.trans hr', hw.trans hw'⟩

/-! ## entries -/

/-- an entry of `tee_pobjs` -/
structure Slot where
  addr : Nat
  pobj : Pobj
  id : List UInt8

/-- what a get compares -/
def Slot.key (e : Slot) : Uuid × List UInt8 × Nat := (e.pobj.uuid, e.id, e.pobj.fops)

/-- the blocks of an entry -/
structure Slot.In (e : Slot) (B : Nat → Option Block) : Prop where
  pobj : B e.addr = some (.pobj e.pobj)
  id : B e.pobj.objId = some (.bytes e.id)
  idLen : e.pobj.objIdLen = e.id.length

/-- the entries of a state -/
structure Pool (s : State) (es : List Slot) : Prop where
  chain : s.links.Chain .teePobjs (es.map Slot.addr)
  live : ∀ e ∈ es, e.In s.heap.blocks
  owned : (es.map fun e => e.pobj.objId).Nodup
  keys : (es.map Slot.key).Nodup
  small : ∀ a, s.heap.blocks a ≠ none → a ≠ 0 ∧ a < 2 ^ 32

theorem Pool.boot (answers : Nat → Nat) : Pool (.boot answers) [] where
  chain := ⟨List.nodup_nil, .head .teePobjs, rfl, rfl⟩
  live := fun e he => absurd he List.not_mem_nil
  owned := List.nodup_nil
  keys := List.nodup_nil
  small := fun a h => absurd rfl h

section
variable {s t : State} {es es1 es2 : List Slot} {e : Slot}

theorem Pool.pobjOf (hs : Pool s es) {a : Nat} (ha : a ∈ es.map Slot.addr) :
    ∃ p, s.heap.blocks a = some (.pobj p) := by
  obtain ⟨e, he, rfl⟩ := List.mem_map.mp ha
  exact ⟨e.pobj, (hs.live e he).pobj⟩

theorem Pool.ne_zero (hs : Pool s es) {a : Nat} {b : Block} (h : s.heap.blocks a = some b) :
    a ≠ 0 := by
  refine (hs.small a ?_).1
  rw [h]
  exact Option.some_ne_none b

theorem Pool.elems_eq (hs : Pool s es) : s.links.elems .teePobjs = es.map Slot.addr := by
  refine hs.chain.elems ?_
  intro a ha
  obtain ⟨p, hp⟩ := hs.pobjOf ha
  refine (hs.small a ?_).2
  rw [hp]
  exact Option.some_ne_none _

theorem Slot.In.addr_ne {B : Nat → Option Block} {e' : Slot} (he : e.In B) (he' : e'.In B) :
    e.addr ≠ e'.pobj.objId := by
  intro h
  have hp := he.pobj
  rw [h, he'.id] at hp
  cases hp

theorem Pool.addr_split (hs : Pool s (es1 ++ e :: es2)) : ∀ e' ∈ es1 ++ es2, e'.addr ≠ e.addr := by
  have hnd := hs.chain.1
  rw [List.map_append, List.map_cons, List.nodup_middle, List.nodup_cons, ← List.map_append] at hnd
  intro e' he' h
  exact hnd.1 (h ▸ List.mem_map_of_mem he')

theorem Pool.id_split (hs : Pool s (es1 ++ e :: es2)) :
    ∀ e' ∈ es1 ++ es2, e'.pobj.objId ≠ e.pobj.objId := by
  have hnd := hs.owned
  rw [List.map_append, List.map_cons, List.nodup_middle, List.nodup_cons, ← List.map_append] at hnd
  intro e' he' h
  refine hnd.1 ?_
  rw [← h]
  exact List.mem_map.mpr ⟨e', he', rfl⟩

theorem mem_split {e' : Slot} (h : e' ∈ es1 ++ e :: es2) : e' = e ∨ e' ∈ es1 ++ es2 := by
  rcases List.mem_append.mp h with h | h
  · exact Or.inr (List.mem_append_left _ h)
  · rcases List.mem_cons.mp h with h | h
    · exact Or.inl h
    · exact Or.inr (List.mem_append_right _ h)

theorem mem_of_split {e' : Slot} (h : e' ∈ es1 ++ es2) : e' ∈ es1 ++ e :: es2 := by
  rcases List.mem_append.mp h with h | h
  · exact List.mem_append_left _ h
  · exact List.mem_append_right _ (List.mem_cons_of_mem e h)

/-! ### what changes the entries -/

def Slot.withCount (e : Slot) (r : Nat) : Slot := { e with pobj := { e.pobj with refcnt := r } }

/-- a count changes -/
theorem Pool.setCount (hs : Pool s (es1 ++ e :: es2)) (r n : Nat) :
    Pool ⟨⟨Function.update s.heap.blocks e.addr (some (.pobj (e.withCount r).pobj)),
      s.heap.answers, n⟩, s.links⟩ (es1 ++ e.withCount r :: es2) := by
  have he := hs.live e (List.mem_append_right _ List.mem_cons_self)
  have hmap : ∀ (β : Type) (f : Slot → β), f (e.withCount r) = f e →
      (es1 ++ e.withCount r :: es2).map f = (es1 ++ e :: es2).map f := by
    intro β f hf
    rw [List.map_append, List.map_append, List.map_cons, List.map_cons, hf]
  refine ⟨?_, ?_, ?_, ?_, ?_⟩
  · rw [hmap Nat Slot.addr rfl]
    exact hs.chain
  · intro e' he'
    rcases mem_split he' with rfl | he'
    · refine ⟨Function.update_self _ _ _, ?_, he.idLen⟩
      exact (Function.update_of_ne (he.addr_ne he).symm _ _).trans he.id
    · have hold := hs.live e' (mem_of_split he')
      refine ⟨?_, ?_, hold.idLen⟩
      · exact (Function.update_of_ne (hs.addr_split e' he') _ _).trans hold.pobj
      · exact (Function.update_of_ne (he.addr_ne hold).symm _ _).trans hold.id
  · rw [hmap Nat (fun e => e.pobj.objId) rfl]
    exact hs.owned
  · rw [hmap _ Slot.key rfl]
    exact hs.keys
  · intro a ha
    by_cases hae : a = e.addr
    · rw [hae]
      refine hs.small e.addr ?_
      rw [he.pobj]
      exact Option.some_ne_none _
    · refine hs.small a ?_
      rw [← Function.update_of_ne hae (some (Block.pobj (e.withCount r).pobj)) s.heap.blocks]
      exact ha

/-- an entry comes -/
theorem Pool.add (hs : Pool s es) (n : Nat)
    (h1 : s.heap.blocks e.addr = none) (h2 : s.heap.blocks e.pobj.objId = none)
    (hne : e.addr ≠ e.pobj.objId) (hlen : e.pobj.objIdLen = e.id.length)
    (hkey : e.key ∉ es.map Slot.key) (hs1 : e.addr ≠ 0 ∧ e.addr < 2 ^ 32)
    (hs2 : e.pobj.objId ≠ 0 ∧ e.pobj.objId < 2 ^ 32) :
    Pool ⟨⟨Function.update (Function.update s.heap.blocks e.addr (some (.pobj e.pobj)))
      e.pobj.objId (some (.bytes e.id)), s.heap.answers, n⟩,
      s.links.insertHead .teePobjs e.addr⟩ (e :: es) := by
  have hold : ∀ a b, s.heap.blocks a = some b → Function.update (Function.update s.heap.blocks
      e.addr (some (.pobj e.pobj))) e.pobj.objId (some (.bytes e.id)) a = some b := by
    intro a b hb
    rw [Function.update_of_ne, Function.update_of_ne, hb]
    · intro h
      rw [h, h1] at hb
      cases hb
    · intro h
      rw [h, h2] at hb
      cases hb
  refine ⟨hs.chain.insertHead hs1.1 ?_, ?_, ?_, ?_, ?_⟩
  · intro h
    obtain ⟨p, hp⟩ := hs.pobjOf h
    rw [h1] at hp
    cases hp
  · intro e' he'
    rcases List.mem_cons.mp he' with rfl | he'
    · refine ⟨?_, Function.update_self _ _ _, hlen⟩
      exact (Function.update_of_ne hne _ _).trans (Function.update_self _ _ _)
    · have h := hs.live e' he'
      exact ⟨hold _ _ h.pobj, hold _ _ h.id, h.idLen⟩
  · rw [List.map_cons, List.nodup_cons]
    refine ⟨?_, hs.owned⟩
    intro h
    obtain ⟨e', he', heq⟩ := List.mem_map.mp h
    have hid := (hs.live e' he').id
    have heq : e'.pobj.objId = e.pobj.objId := heq
    rw [heq, h2] at hid
    cases hid
  · rw [List.map_cons, List.nodup_cons]
    exact ⟨hkey, hs.keys⟩
  · intro a ha
    by_cases hi : a = e.pobj.objId
    · rw [hi]
      exact hs2
    by_cases hp : a = e.addr
    · rw [hp]
      exact hs1
    · refine hs.small a ?_
      intro h
      exact ha ((Function.update_of_ne hi _ _).trans ((Function.update_of_ne hp _ _).trans h))

/-- an entry goes -/
theorem Pool.drop (hs : Pool s (es1 ++ e :: es2)) (n : Nat) :
    Pool ⟨⟨Function.update (Function.update s.heap.blocks e.pobj.objId none) e.addr none,
      s.heap.answers, n⟩, s.links.remove .teePobjs e.addr⟩ (es1 ++ es2) := by
  have he := hs.live e (List.mem_append_right _ List.mem_cons_self)
  have hsub : (es1 ++ es2).Sublist (es1 ++ e :: es2) :=
    List.Sublist.append_left (List.sublist_cons_self e es2) es1
  refine ⟨?_, ?_, hs.owned.sublist (hsub.map _), hs.keys.sublist (hsub.map _), ?_⟩
  · have hc := hs.chain
    rw [List.map_append, List.map_cons] at hc
    have hc := hc.remove .teePobjs
    rw [← List.map_append] at hc
    exact hc
  · intro e' he'
    have hold := hs.live e' (mem_of_split he')
    have hkept : ∀ a, a ≠ e.addr → a ≠ e.pobj.objId → Function.update (Function.update
        s.heap.blocks e.pobj.objId none) e.addr none a = s.heap.blocks a := fun a h1 h2 =>
      (Function.update_of_ne h1 _ _).trans (Function.update_of_ne h2 _ _)
    refine ⟨?_, ?_, hold.idLen⟩
    · exact (hkept _ (hs.addr_split e' he') (hold.addr_ne he)).trans hold.pobj
    · exact (hkept _ (he.addr_ne hold).symm (hs.id_split e' he')).trans hold.id
  · intro a ha
    refine hs.small a ?_
    intro h
    refine ha ?_
    show Function.update (Function.update s.heap.blocks e.pobj.objId none) e.addr none a = none
    by_cases h1 : a = e.addr
    · rw [h1, Function.update_self]
    by_cases h2 : a = e.pobj.objId
    · rw [Function.update_of_ne h1, h2, Function.update_self]
    · rw [Function.update_of_ne h1, Function.update_of_ne h2, h]

end

/-! ## get -/

section
variable {B : Nat → Option Block} {A : Nat → Nat} {n : Nat} {L : Links Queue}
  {es es1 es2 : List Slot} {e : Slot} {uuid : Uuid} {objId : List UInt8} {flags : Nat}
  {temporary : Bool} {fops : Nat}

/-- the last entry with the key -/
def lastWith (k : Uuid × List UInt8 × Nat) (obj : Nat) (es : List Slot) : Nat :=
  es.foldl (fun a e => if e.key = k then e.addr else a) obj

theorem wp_findOpen {obj : Nat} {Q : Nat → State → Prop} (hlive : ∀ e ∈ es, e.In B) :
    wp (findOpen uuid objId fops obj (es.map Slot.addr)) Q ⟨⟨B, A, n⟩, L⟩ ↔
      Q (lastWith (uuid, objId, fops) obj es) ⟨⟨B, A, n⟩, L⟩ := by
  induction es generalizing obj with
  | nil => exact Iff.rfl
  | cons e es ih =>
    have he := hlive e List.mem_cons_self
    have hrest : ∀ e' ∈ es, e'.In B := fun e' he' => hlive e' (List.mem_cons_of_mem e he')
    show wp (findOpen uuid objId fops obj (e.addr :: es.map Slot.addr)) Q _ ↔
      Q (lastWith _ (if e.key = (uuid, objId, fops) then e.addr else obj) es) _
    rw [findOpen, wp_bind, wp_pobjAt he.pobj]
    by_cases hlen : objId.length = e.pobj.objIdLen
    · have hle : objId.length ≤ e.id.length := by rw [hlen, he.idLen]
      have htake : e.id.take objId.length = e.id := by rw [hlen, he.idLen, List.take_length]
      rw [if_pos hlen, wp_bind, wp_bytesAt he.id hle, htake]
      by_cases hk : e.key = (uuid, objId, fops)
      · have hc : objId = e.id ∧ uuid = e.pobj.uuid ∧ fops = e.pobj.fops := by
          cases hk
          exact ⟨rfl, rfl, rfl⟩
        rw [if_pos hc, if_pos hk, ih hrest]
      · have hc : ¬ (objId = e.id ∧ uuid = e.pobj.uuid ∧ fops = e.pobj.fops) := by
          intro h
          obtain ⟨h1, h2, h3⟩ := h
          refine hk ?_
          rw [Slot.key, h1, h2, h3]
        rw [if_neg hc, if_neg hk, ih hrest]
    · have hk : e.key ≠ (uuid, objId, fops) := by
        intro h
        cases h
        exact hlen he.idLen.symm
      rw [if_neg hlen, if_neg hk, ih hrest]

theorem lastWith_absent {k : Uuid × List UInt8 × Nat} {obj : Nat} (h : k ∉ es.map Slot.key) :
    lastWith k obj es = obj := by
  induction es with
  | nil => rfl
  | cons e es ih =>
    have hne : e.key ≠ k := fun he => h (he ▸ List.mem_cons_self)
    show lastWith k (if e.key = k then e.addr else obj) es = obj
    rw [if_neg hne]
    exact ih fun hk => h (List.mem_cons_of_mem _ hk)

theorem lastWith_found {obj : Nat} (hnd : ((es1 ++ e :: es2).map Slot.key).Nodup) :
    lastWith e.key obj (es1 ++ e :: es2) = e.addr := by
  rw [List.map_append, List.map_cons, List.nodup_middle, List.nodup_cons] at hnd
  have h2 : e.key ∉ es2.map Slot.key := fun h => hnd.1 (List.mem_append_right _ h)
  rw [lastWith, List.foldl_append, List.foldl_cons, if_pos rfl]
  exact lastWith_absent h2

/-- the key is that of an entry, and the handle is granted -/
theorem wp_get_granted {Q : Reply → State → Prop} (hs : Pool ⟨⟨B, A, n⟩, L⟩ (es1 ++ e :: es2))
    (hk : e.key = (uuid, objId, fops)) (ht : temporary = e.pobj.temporary)
    (hc : Compatible e.pobj.flags flags) :
    wp (teePobjGet uuid objId flags temporary fops) Q ⟨⟨B, A, n⟩, L⟩ ↔
      Q ⟨teeSuccess, e.addr⟩ ⟨⟨Function.update B e.addr (some (.pobj
        (e.withCount ((e.pobj.refcnt + 1) % 2 ^ 32)).pobj)), A, n⟩, L⟩ := by
  have he := hs.live e (List.mem_append_right _ List.mem_cons_self)
  have h0 : e.addr ≠ 0 := hs.ne_zero he.pobj
  have hne : ¬ (temporary ≠ e.pobj.temporary) := fun h => h ht
  have hc : teePobjCheckAccess e.pobj.flags flags = teeSuccess := hc
  have helems : L.elems .teePobjs = (es1 ++ e :: es2).map Slot.addr := hs.elems_eq
  rw [teePobjGet, wp_bind, wp_get, wp_bind, helems, wp_findOpen hs.live, ← hk,
    lastWith_found hs.keys, if_pos h0, wp_bind, wp_pobjAt he.pobj, if_neg hne, if_pos hc, wp_bind,
    wp_storeAt, wp_pure]
  exact Iff.rfl

/-- the key is that of an entry, and the handle is refused -/
theorem get_refused (hs : Pool ⟨⟨B, A, n⟩, L⟩ (es1 ++ e :: es2))
    (hk : e.key = (uuid, objId, fops))
    (hno : ¬ (temporary = e.pobj.temporary ∧ Compatible e.pobj.flags flags)) :
    wp (teePobjGet uuid objId flags temporary fops) (fun r t => r.res ≠ teeSuccess ∧ r.obj = 0 ∧
      t = ⟨⟨B, A, n⟩, L⟩) ⟨⟨B, A, n⟩, L⟩ := by
  have he := hs.live e (List.mem_append_right _ List.mem_cons_self)
  have h0 : e.addr ≠ 0 := hs.ne_zero he.pobj
  have helems : L.elems .teePobjs = (es1 ++ e :: es2).map Slot.addr := hs.elems_eq
  rw [teePobjGet, wp_bind, wp_get, wp_bind, helems, wp_findOpen hs.live, ← hk,
    lastWith_found hs.keys, if_pos h0, wp_bind, wp_pobjAt he.pobj]
  by_cases ht : temporary ≠ e.pobj.temporary
  · rw [if_pos ht, wp_pure]
    exact ⟨by decide, rfl, rfl⟩
  · have hc : ¬ teePobjCheckAccess e.pobj.flags flags = teeSuccess := fun hc =>
      hno ⟨not_not.mp ht, hc⟩
    rw [if_neg ht, if_neg hc, wp_pure]
    exact ⟨hc, rfl, rfl⟩

/-- the entry that a get makes of the next two answers -/
def newSlot (uuid : Uuid) (objId : List UInt8) (flags : Nat) (temporary : Bool) (fops : Nat)
    (A : Nat → Nat) (n : Nat) : Slot where
  addr := A n
  pobj := ⟨1, uuid, A (n + 1), objId.length, flags, temporary, fops, 0, 0⟩
  id := objId

/-- the key is new, and the allocations succeed -/
theorem wp_get_new {Q : Reply → State → Prop} (hs : Pool ⟨⟨B, A, n⟩, L⟩ es)
    (hk : (uuid, objId, fops) ∉ es.map Slot.key) (h1 : Gets1 B A n) (h2 : Gets2 B A n) :
    wp (teePobjGet uuid objId flags temporary fops) Q ⟨⟨B, A, n⟩, L⟩ ↔
      Q ⟨teeSuccess, A n⟩ ⟨⟨Function.update (Function.update B (A n) (some (.pobj
        (newSlot uuid objId flags temporary fops A n).pobj))) (A (n + 1)) (some (.bytes objId)),
        A, n + 2⟩, L.insertHead .teePobjs (A n)⟩ := by
  have helems : L.elems .teePobjs = es.map Slot.addr := hs.elems_eq
  have hne := h2.2
  have hno : ¬ (0 : Nat) ≠ 0 := fun h => h rfl
  have hfresh : ∀ b, Fresh (Function.update B (A n) (some b)) A (n + 1) := fun b =>
    fresh_update.mpr h2
  have hself : ∀ b b', Function.update (Function.update B (A n) (some b)) (A (n + 1)) (some b')
      (A n) = some b := fun b b' =>
    (Function.update_of_ne hne.symm _ _).trans (Function.update_self _ _ _)
  have hmove : ∀ b b' c, Function.update (Function.update (Function.update B (A n) (some b))
      (A (n + 1)) (some b')) (A n) (some c) = Function.update (Function.update B (A n) (some c))
      (A (n + 1)) (some b') := by
    intro b b' c
    rw [Function.update_comm hne, Function.update_idem]
  rw [teePobjGet, wp_bind, wp_get, wp_bind, helems, wp_findOpen hs.live, lastWith_absent hk,
    if_neg hno, wp_bind, wp_malloc h1, if_neg h1.1, wp_bind,
    wp_setPobj (Function.update_self (A n) _ B), Function.update_idem, wp_bind,
    wp_malloc (hfresh _), wp_bind, wp_setPobj (hself _ _), hmove, if_neg h2.1.1, wp_bind,
    wp_copyTo (Function.update_self (A (n + 1)) _ _) List.length_replicate, Function.update_idem,
    wp_bind, wp_setPobj (hself _ _), hmove, wp_bind, wp_insertHead (hself _ _) ?_, wp_pure]
  · exact Iff.rfl
  · intro h0
    obtain ⟨p, hp⟩ := Linkable.first hs.chain (fun _ ha => hs.pobjOf ha) h0
    have hp : B (L.first .teePobjs) = some (.pobj p) := hp
    refine ⟨p, ?_⟩
    rw [Function.update_of_ne, Function.update_of_ne, hp]
    · intro h
      rw [h, h1.2.2] at hp
      cases hp
    · intro h
      rw [h, h2.1.2.2] at hp
      cases hp

/-- the key is new, and an allocation fails -/
theorem get_full (hs : Pool ⟨⟨B, A, n⟩, L⟩ es) (hk : (uuid, objId, fops) ∉ es.map Slot.key)
    (h : ¬ (Gets1 B A n ∧ Gets2 B A n)) :
    wp (teePobjGet uuid objId flags temporary fops) (fun r t => r.res ≠ teeSuccess ∧ r.obj = 0 ∧
      t.heap.blocks = B ∧ t.links = L) ⟨⟨B, A, n⟩, L⟩ := by
  have helems : L.elems .teePobjs = es.map Slot.addr := hs.elems_eq
  have hno : ¬ (0 : Nat) ≠ 0 := fun h => h rfl
  rw [teePobjGet, wp_bind, wp_get, wp_bind, helems, wp_findOpen hs.live, lastWith_absent hk,
    if_neg hno, wp_bind]
  by_cases h1 : Gets1 B A n
  · have h2 : ∀ b, ¬ Fresh (Function.update B (A n) (some b)) A (n + 1) := fun b hf =>
      h ⟨h1, fresh_update.mp hf⟩
    have hB : Function.update B (A n) none = B := Function.update_eq_self_iff.mpr h1.2.2.symm
    rw [wp_malloc h1, if_neg h1.1, wp_bind, wp_setPobj (Function.update_self (A n) _ B),
      Function.update_idem, wp_bind, wp_malloc_full (h2 _), wp_bind,
      wp_setPobj (Function.update_self (A n) _ B), Function.update_idem, if_pos rfl, wp_bind,
      wp_free h1.1 (Function.update_self (A n) _ B), Function.update_idem, hB, wp_pure]
    exact ⟨by decide, rfl, rfl, rfl⟩
  · rw [wp_malloc_full h1, if_pos rfl, wp_pure]
    exact ⟨by decide, rfl, rfl, rfl⟩

end

/-! ## handles -/

/-- the number of handles to the entry at `a` -/
def outstanding (out : List (Nat × Nat)) (a : Nat) : Nat := out.countP fun x => decide (x.1 = a)

/-- every handle is one to an entry; an entry has as many as it counts, and its flags are those of
a handle or compatible with them -/
structure Counts (es : List Slot) (out : List (Nat × Nat)) : Prop where
  known : ∀ x ∈ out, x.1 ∈ es.map Slot.addr
  count : ∀ e ∈ es, e.pobj.refcnt = outstanding out e.addr
  some : ∀ e ∈ es, 1 ≤ outstanding out e.addr
  flags : ∀ e ∈ es, ∀ f, (e.addr, f) ∈ out → f = e.pobj.flags ∨ Compatible e.pobj.flags f

section
variable {es es1 es2 : List Slot} {e : Slot} {out : List (Nat × Nat)} {a b f : Nat}

theorem outstanding_cons_self : outstanding ((a, f) :: out) a = outstanding out a + 1 := by
  have h : decide ((a, f).1 = a) = true := decide_eq_true rfl
  exact List.countP_cons_of_pos h

theorem outstanding_cons_of_ne (h : a ≠ b) : outstanding ((a, f) :: out) b = outstanding out b := by
  rw [outstanding, List.countP_cons_of_neg (by simpa using h)]
  rfl

theorem outstanding_erase_self (h : (a, f) ∈ out) :
    outstanding out a = outstanding (out.erase (a, f)) a + 1 := by
  rw [← outstanding_cons_self (f := f)]
  exact (List.perm_cons_erase h).countP_eq _

theorem outstanding_erase_of_ne (h : a ≠ b) :
    outstanding (out.erase (a, f)) b = outstanding out b := by
  by_cases hm : (a, f) ∈ out
  · rw [← outstanding_cons_of_ne (f := f) h]
    exact ((List.perm_cons_erase hm).countP_eq _).symm
  · rw [List.erase_of_not_mem hm]

theorem outstanding_le : outstanding out a ≤ out.length := List.countP_le_length

theorem exists_handle (h : 1 ≤ outstanding out a) : ∃ f, (a, f) ∈ out := by
  obtain ⟨x, hx, hxa⟩ := List.countP_pos_iff.mp h
  refine ⟨x.2, ?_⟩
  have hxa : x.1 = a := of_decide_eq_true hxa
  rw [← hxa]
  exact hx

theorem one_le_outstanding (h : (a, f) ∈ out) : 1 ≤ outstanding out a := by
  rw [outstanding_erase_self h]
  exact Nat.le_add_left 1 _

/-- **The first opener's flags stand for all**: they are compatible with `g` when those of every
handle are. -/
theorem Counts.compatible_iff (hc : Counts es out) (he : e ∈ es) (g : Nat) :
    Compatible e.pobj.flags g ↔ ∀ f, (e.addr, f) ∈ out → Compatible f g := by
  constructor
  · intro h f hf
    rcases hc.flags e he f hf with rfl | h'
    · exact h
    · exact h'.symm.trans h
  · intro h
    obtain ⟨f, hf⟩ := exists_handle (hc.some e he)
    rcases hc.flags e he f hf with h' | h'
    · rw [← h']
      exact h f hf
    · exact h'.trans (h f hf)

/-- one more handle -/
theorem Counts.granted (hc : Counts (es1 ++ e :: es2) out) (hne : ∀ e' ∈ es1 ++ es2, e'.addr ≠ e.addr)
    (hf : Compatible e.pobj.flags f) :
    Counts (es1 ++ e.withCount (e.pobj.refcnt + 1) :: es2) ((e.addr, f) :: out) := by
  have he : e ∈ es1 ++ e :: es2 := List.mem_append_right _ List.mem_cons_self
  have hmap : (es1 ++ e.withCount (e.pobj.refcnt + 1) :: es2).map Slot.addr
      = (es1 ++ e :: es2).map Slot.addr := by
    rw [List.map_append, List.map_append, List.map_cons, List.map_cons]
    rfl
  refine ⟨?_, ?_, ?_, ?_⟩
  · intro x hx
    rw [hmap]
    rcases List.mem_cons.mp hx with rfl | hx
    · exact List.mem_map_of_mem he
    · exact hc.known x hx
  · intro e' he'
    rcases mem_split he' with rfl | he'
    · show e.pobj.refcnt + 1 = outstanding ((e.addr, f) :: out) e.addr
      rw [outstanding_cons_self, hc.count e he]
    · rw [outstanding_cons_of_ne (hne e' he').symm]
      exact hc.count e' (mem_of_split he')
  · intro e' he'
    rcases mem_split he' with rfl | he'
    · show 1 ≤ outstanding ((e.addr, f) :: out) e.addr
      rw [outstanding_cons_self]
      exact Nat.le_add_left 1 _
    · rw [outstanding_cons_of_ne (hne e' he').symm]
      exact hc.some e' (mem_of_split he')
  · intro e' he' g hg
    rcases mem_split he' with rfl | he'
    · rcases List.mem_cons.mp hg with h | hg
      · cases h
        exact Or.inr hf
      · exact hc.flags e he g hg
    · rcases List.mem_cons.mp hg with h | hg
      · exact absurd (Prod.mk.inj h).1 (hne e' he')
      · exact hc.flags e' (mem_of_split he') g hg

/-- the first handle -/
theorem Counts.added (hc : Counts es out) (hnew : e.addr ∉ es.map Slot.addr)
    (hr : e.pobj.refcnt = 1) : Counts (e :: es) ((e.addr, e.pobj.flags) :: out) := by
  have hne : ∀ e' ∈ es, e.addr ≠ e'.addr := by
    intro e' he' h
    refine hnew ?_
    rw [h]
    exact List.mem_map_of_mem he'
  have hzero : outstanding out e.addr = 0 := by
    by_contra h
    obtain ⟨f, hf⟩ := exists_handle (Nat.one_le_iff_ne_zero.mpr h)
    exact hnew (hc.known _ hf)
  refine ⟨?_, ?_, ?_, ?_⟩
  · intro x hx
    rcases List.mem_cons.mp hx with rfl | hx
    · exact List.mem_cons_self
    · exact List.mem_cons_of_mem _ (hc.known x hx)
  · intro e' he'
    rcases List.mem_cons.mp he' with rfl | he'
    · rw [outstanding_cons_self, hzero, hr]
    · rw [outstanding_cons_of_ne (hne e' he')]
      exact hc.count e' he'
  · intro e' he'
    rcases List.mem_cons.mp he' with rfl | he'
    · rw [outstanding_cons_self]
      exact Nat.le_add_left 1 _
    · rw [outstanding_cons_of_ne (hne e' he')]
      exact hc.some e' he'
  · intro e' he' g hg
    rcases List.mem_cons.mp he' with rfl | he'
    · rcases List.mem_cons.mp hg with h | hg
      · cases h
        exact Or.inl rfl
      · exact absurd (hc.known _ hg) hnew
    · rcases List.mem_cons.mp hg with h | hg
      · exact absurd (Prod.mk.inj h).1.symm (hne e' he')
      · exact hc.flags e' he' g hg

/-- one handle less, and there are others -/
theorem Counts.released (hc : Counts (es1 ++ e :: es2) out)
    (hne : ∀ e' ∈ es1 ++ es2, e'.addr ≠ e.addr) (hf : (e.addr, f) ∈ out)
    (hmore : e.pobj.refcnt ≠ 1) :
    Counts (es1 ++ e.withCount (e.pobj.refcnt - 1) :: es2) (out.erase (e.addr, f)) := by
  have he : e ∈ es1 ++ e :: es2 := List.mem_append_right _ List.mem_cons_self
  have hcount := hc.count e he
  have hself := outstanding_erase_self hf
  have hmap : (es1 ++ e.withCount (e.pobj.refcnt - 1) :: es2).map Slot.addr
      = (es1 ++ e :: es2).map Slot.addr := by
    rw [List.map_append, List.map_append, List.map_cons, List.map_cons]
    rfl
  refine ⟨?_, ?_, ?_, ?_⟩
  · intro x hx
    rw [hmap]
    exact hc.known x (List.mem_of_mem_erase hx)
  · intro e' he'
    rcases mem_split he' with rfl | he'
    · show e.pobj.refcnt - 1 = outstanding (out.erase (e.addr, f)) e.addr
      omega
    · rw [outstanding_erase_of_ne (hne e' he').symm]
      exact hc.count e' (mem_of_split he')
  · intro e' he'
    rcases mem_split he' with rfl | he'
    · show 1 ≤ outstanding (out.erase (e.addr, f)) e.addr
      omega
    · rw [outstanding_erase_of_ne (hne e' he').symm]
      exact hc.some e' (mem_of_split he')
  · intro e' he' g hg
    have hg := List.mem_of_mem_erase hg
    rcases mem_split he' with rfl | he'
    · exact hc.flags e he g hg
    · exact hc.flags e' (mem_of_split he') g hg

/-- the last handle goes -/
theorem Counts.dropped (hc : Counts (es1 ++ e :: es2) out)
    (hne : ∀ e' ∈ es1 ++ es2, e'.addr ≠ e.addr) (hf : (e.addr, f) ∈ out)
    (hlast : e.pobj.refcnt = 1) : Counts (es1 ++ es2) (out.erase (e.addr, f)) := by
  have he : e ∈ es1 ++ e :: es2 := List.mem_append_right _ List.mem_cons_self
  have hcount := hc.count e he
  have hself := outstanding_erase_self hf
  have hnone : ∀ g, (e.addr, g) ∉ out.erase (e.addr, f) := by
    intro g hg
    have h := one_le_outstanding hg
    omega
  refine ⟨?_, ?_, ?_, ?_⟩
  · intro x hx
    have h := hc.known x (List.mem_of_mem_erase hx)
    obtain ⟨e', he', hex⟩ := List.mem_map.mp h
    rcases mem_split he' with rfl | he'
    · refine absurd hx ?_
      have hx' : x = (e'.addr, x.2) := by rw [hex]
      rw [hx']
      exact hnone x.2
    · exact List.mem_map.mpr ⟨e', he', hex⟩
  · intro e' he'
    rw [outstanding_erase_of_ne (hne e' he').symm]
    exact hc.count e' (mem_of_split he')
  · intro e' he'
    rw [outstanding_erase_of_ne (hne e' he').symm]
    exact hc.some e' (mem_of_split he')
  · intro e' he' g hg
    exact hc.flags e' (mem_of_split he') g (List.mem_of_mem_erase hg)

end

/-! ## runs -/

/-- a get, or a release of a handle that was asked for with `flags` -/
inductive PobjCall where
  | get (uuid : Uuid) (objId : List UInt8) (flags : Nat) (temporary : Bool) (fops : Nat)
  | release (obj flags : Nat)

def pobjCall : PobjCall → S Reply
  | .get uuid objId flags temporary fops => teePobjGet uuid objId flags temporary fops
  | .release obj _ => do
    let res ← teePobjRelease obj
    pure ⟨res, 0⟩

/-- the handles after a call -/
def noteHandle (c : PobjCall) (r : Reply) (s t : State) (out : List (Nat × Nat)) :
    List (Nat × Nat) :=
  match c with
  | .get _ _ flags _ _ => if r.res = teeSuccess then (r.obj, flags) :: out else out
  | .release obj flags => out.erase (obj, flags)

abbrev PobjWorld := State × List (Nat × Nat)

def PobjWorld.boot (answers : Nat → Nat) : PobjWorld := (.boot answers, [])

def pobjStep (c : PobjCall) : Exec Fault PobjWorld Reply := ghost (noteHandle c) (pobjCall c)

/-- fewer than `2 ^ 32` handles are out after a get, and what is released is a handle -/
def Allowed (c : PobjCall) (w : PobjWorld) : Prop :=
  match c with
  | .get _ _ _ _ _ => w.2.length + 1 < 2 ^ 32
  | .release obj flags => (obj, flags) ∈ w.2

/-- the entry at `a` has this UUID, id and file operations -/
def KeyAt (s : State) (a : Nat) (uuid : Uuid) (objId : List UInt8) (fops : Nat) : Prop :=
  IsObject s a uuid objId ∧ ∃ p, s.heap.blocks a = some (.pobj p) ∧ p.fops = fops

/-- **The sharing rule.** -/
structure SharingRule (w : PobjWorld) : Prop where
  nodup : (w.1.links.elems .teePobjs).Nodup
  unique : ∀ a ∈ w.1.links.elems .teePobjs, ∀ b ∈ w.1.links.elems .teePobjs, ∀ uuid objId fops,
    KeyAt w.1 a uuid objId fops → KeyAt w.1 b uuid objId fops → a = b
  known : ∀ x ∈ w.2, x.1 ∈ w.1.links.elems .teePobjs
  counted : ∀ a ∈ w.1.links.elems .teePobjs, ∃ p, w.1.heap.blocks a = some (.pobj p) ∧
    p.refcnt = outstanding w.2 a ∧ 1 ≤ p.refcnt
  granted : ∀ a ∈ w.1.links.elems .teePobjs, ∀ p, w.1.heap.blocks a = some (.pobj p) →
    ∀ uuid objId fops flags temporary, KeyAt w.1 a uuid objId fops →
      wp (teePobjGet uuid objId flags temporary fops) (fun r _ =>
        (r.res = teeSuccess ↔ temporary = p.temporary ∧
          ∀ f, (a, f) ∈ w.2 → teePobjCheckAccess f flags = teeSuccess) ∧
        (r.res = teeSuccess → r.obj = a)) w.1

/-- the invariant -/
def Shared (w : PobjWorld) : Prop :=
  ∃ es, Pool w.1 es ∧ Counts es w.2 ∧ w.2.length < 2 ^ 32

theorem Shared.boot (answers : Nat → Nat) : Shared (.boot answers) := by
  refine ⟨[], .boot answers, ⟨?_, ?_, ?_, ?_⟩, Nat.two_pow_pos 32⟩
  · exact fun x hx => absurd hx List.not_mem_nil
  · exact fun e he => absurd he List.not_mem_nil
  · exact fun e he => absurd he List.not_mem_nil
  · exact fun e he => absurd he List.not_mem_nil

section
variable {s : State} {out : List (Nat × Nat)} {es : List Slot} {e : Slot} {uuid : Uuid}
  {objId : List UInt8} {flags : Nat} {temporary : Bool} {fops : Nat}

theorem keyAt_iff (he : e.In s.heap.blocks) :
    KeyAt s e.addr uuid objId fops ↔ e.key = (uuid, objId, fops) := by
  unfold KeyAt Slot.key
  rw [isObject_of_blocks he.pobj he.id he.idLen]
  constructor
  · intro h
    obtain ⟨⟨rfl, rfl⟩, p, hp, rfl⟩ := h
    cases he.pobj.symm.trans hp
    rfl
  · intro h
    cases h
    exact ⟨⟨rfl, rfl⟩, e.pobj, he.pobj, rfl⟩

/-- **A get keeps the invariant.** -/
theorem get_shared (h : Shared (s, out)) (hroom : out.length + 1 < 2 ^ 32) :
    wp (teePobjGet uuid objId flags temporary fops) (fun r t =>
      Shared (t, if r.res = teeSuccess then (r.obj, flags) :: out else out)) s := by
  obtain ⟨es, hs, hc, hlen⟩ := h
  obtain ⟨⟨B, A, n⟩, L⟩ := s
  have hs : Pool ⟨⟨B, A, n⟩, L⟩ es := hs
  have hc : Counts es out := hc
  by_cases hk : (uuid, objId, fops) ∈ es.map Slot.key
  · obtain ⟨e, he, hkey⟩ := List.mem_map.mp hk
    obtain ⟨es1, es2, rfl⟩ := List.append_of_mem he
    by_cases hg : temporary = e.pobj.temporary ∧ Compatible e.pobj.flags flags
    · obtain ⟨ht, hf⟩ := hg
      have hcount := hc.count e he
      have hle : outstanding out e.addr ≤ out.length := outstanding_le
      have hmod : (e.pobj.refcnt + 1) % 2 ^ 32 = e.pobj.refcnt + 1 := by
        rw [Nat.mod_eq_of_lt]
        omega
      rw [wp_get_granted hs hkey ht hf, if_pos rfl, hmod]
      exact ⟨_, hs.setCount _ _, hc.granted hs.addr_split hf, hroom⟩
    · refine wp_mono (get_refused hs hkey hg) ?_
      intro r t hr
      obtain ⟨hres, -, rfl⟩ := hr
      rw [if_neg hres]
      exact ⟨_, hs, hc, hlen⟩
  · by_cases h12 : Gets1 B A n ∧ Gets2 B A n
    · obtain ⟨h1, h2⟩ := h12
      rw [wp_get_new hs hk h1 h2, if_pos rfl]
      have hnew : A n ∉ es.map Slot.addr := by
        intro hmem
        obtain ⟨p, hp⟩ := hs.pobjOf hmem
        have hp : B (A n) = some (.pobj p) := hp
        rw [h1.2.2] at hp
        cases hp
      refine ⟨_, hs.add (e := newSlot uuid objId flags temporary fops A n) (n + 2) h1.2.2 h2.1.2.2
        h2.2.symm rfl hk ⟨h1.1, h1.2.1⟩ ⟨h2.1.1, h2.1.2.1⟩, hc.added hnew rfl, hroom⟩
    · refine wp_mono (get_full hs hk h12) ?_
      intro r t hr
      obtain ⟨hres, -, hb, hl⟩ := hr
      rw [if_neg hres]
      refine ⟨es, ⟨?_, ?_, hs.owned, hs.keys, ?_⟩, hc, hlen⟩
      · show t.links.Chain _ _
        rw [hl]
        exact hs.chain
      · intro e he
        obtain ⟨h1, h2, h3⟩ := hs.live e he
        exact ⟨by rw [hb]; exact h1, by rw [hb]; exact h2, h3⟩
      · intro a ha
        have ha : t.heap.blocks a ≠ none := ha
        rw [hb] at ha
        exact hs.small a ha

/-- **A release keeps the invariant.** -/
theorem release_shared {a f : Nat} (h : Shared (s, out)) (hf : (a, f) ∈ out) :
    wp (teePobjRelease a) (fun _ t => Shared (t, out.erase (a, f))) s := by
  obtain ⟨es, hs, hc, hlen⟩ := h
  obtain ⟨⟨B, A, n⟩, L⟩ := s
  have hs : Pool ⟨⟨B, A, n⟩, L⟩ es := hs
  have hc : Counts es out := hc
  have hlen : out.length < 2 ^ 32 := hlen
  obtain ⟨e, he, hea⟩ := List.mem_map.mp (hc.known _ hf)
  have hea : e.addr = a := hea
  subst hea
  obtain ⟨es1, es2, rfl⟩ := List.append_of_mem he
  have hin : e.In B := hs.live e he
  have h0 : e.addr ≠ 0 := hs.ne_zero hin.pobj
  have hcount := hc.count e he
  have hone := hc.some e he
  have hle : outstanding out e.addr ≤ out.length := outstanding_le
  have hlen' : (out.erase (e.addr, f)).length < 2 ^ 32 :=
    Nat.lt_of_le_of_lt (List.length_erase_le) hlen
  by_cases hlast : e.pobj.refcnt = 1
  · have hzero : (e.pobj.refcnt + (2 ^ 32 - 1)) % 2 ^ 32 = 0 := by
      rw [hlast]
      norm_num
    have hi : e.pobj.objId ≠ 0 := hs.ne_zero hin.id
    have hlinks := hs.chain
    rw [List.map_append, List.map_cons] at hlinks
    have hobjs : ∀ a ∈ es1.map Slot.addr ++ e.addr :: es2.map Slot.addr,
        ∃ p, B a = some (.pobj p) := by
      rw [← List.map_cons, ← List.map_append]
      exact fun a ha => hs.pobjOf ha
    rw [wp_release_last hin.pobj hin.id h0 hi (hin.addr_ne hin) hzero
      (Linkable.next hlinks hobjs) (fun c h => Linkable.prev hlinks hobjs h)]
    exact ⟨_, hs.drop n, hc.dropped hs.addr_split hf hlast, hlen'⟩
  · have hmod : (e.pobj.refcnt + (2 ^ 32 - 1)) % 2 ^ 32 = e.pobj.refcnt - 1 := by omega
    have hmore : (e.pobj.refcnt + (2 ^ 32 - 1)) % 2 ^ 32 ≠ 0 := by omega
    rw [wp_release_shared hin.pobj h0 hmore, hmod]
    exact ⟨_, hs.setCount _ _, hc.released hs.addr_split hf hlast, hlen'⟩

theorem pobjStep_shared (c : PobjCall) {w : PobjWorld} (hw : Shared w) (hg : Allowed c w) :
    wp (pobjStep c) (fun _ w' => Shared w') w := by
  obtain ⟨s, out⟩ := w
  rw [pobjStep, wp_ghost]
  cases c with
  | get uuid objId flags temporary fops => exact get_shared hw hg
  | release obj flags =>
    rw [pobjCall, wp_bind]
    exact release_shared hw hg

/-- **The invariant gives the rule.** -/
theorem Shared.rule {w : PobjWorld} (hw : Shared w) : SharingRule w := by
  obtain ⟨s, out⟩ := w
  obtain ⟨es, hs, hc, hlen⟩ := hw
  have hs : Pool s es := hs
  have hc : Counts es out := hc
  have helems := hs.elems_eq
  refine ⟨?_, ?_, ?_, ?_, ?_⟩
  · show (s.links.elems .teePobjs).Nodup
    rw [helems]
    exact hs.chain.1
  · show ∀ a ∈ s.links.elems .teePobjs, ∀ b ∈ s.links.elems .teePobjs, _
    rw [helems]
    intro a ha b hb uuid objId fops hka hkb
    obtain ⟨e, he, rfl⟩ := List.mem_map.mp ha
    obtain ⟨e', he', rfl⟩ := List.mem_map.mp hb
    have hk := (keyAt_iff (hs.live e he)).mp hka
    have hk' := (keyAt_iff (hs.live e' he')).mp hkb
    rw [List.inj_on_of_nodup_map hs.keys he he' (hk.trans hk'.symm)]
  · show ∀ x ∈ out, x.1 ∈ s.links.elems .teePobjs
    rw [helems]
    exact hc.known
  · show ∀ a ∈ s.links.elems .teePobjs, _
    rw [helems]
    intro a ha
    obtain ⟨e, he, rfl⟩ := List.mem_map.mp ha
    refine ⟨e.pobj, (hs.live e he).pobj, hc.count e he, ?_⟩
    rw [hc.count e he]
    exact hc.some e he
  · show ∀ a ∈ s.links.elems .teePobjs, _
    rw [helems]
    intro a ha p hp uuid objId fops flags temporary hkey
    obtain ⟨e, he, rfl⟩ := List.mem_map.mp ha
    obtain ⟨es1, es2, rfl⟩ := List.append_of_mem he
    have hk := (keyAt_iff (hs.live e he)).mp hkey
    cases (hs.live e he).pobj.symm.trans hp
    have hall := hc.compatible_iff he flags
    obtain ⟨⟨B, A, n⟩, L⟩ := s
    by_cases hg : temporary = e.pobj.temporary ∧ Compatible e.pobj.flags flags
    · rw [wp_get_granted hs hk hg.1 hg.2]
      exact ⟨iff_of_true rfl ⟨hg.1, hall.mp hg.2⟩, fun _ => rfl⟩
    · refine wp_mono (get_refused hs hk hg) ?_
      intro r t hr
      obtain ⟨hres, -, -⟩ := hr
      refine ⟨iff_of_false hres ?_, fun h => absurd h hres⟩
      exact fun h => hg ⟨h.1, hall.mpr h.2⟩

end

/-- **The sharing rule holds after every run**, and no run faults. -/
theorem sharing_of_run (answers : Nat → Nat) (calls : List PobjCall)
    (hg : Guarded pobjStep Allowed calls (.boot answers)) :
    ∃ u w, run pobjStep calls (.boot answers) = .ok (u, w) ∧ SharingRule w := by
  have h := wp_run (fun c w hw hg => pobjStep_shared c hw hg) hg (Shared.boot answers)
  obtain ⟨u, w, e, hw⟩ := wp_iff.mp h
  exact ⟨u, w, e, hw.rule⟩

/-- two openers, and the first one leaves -/
def firstLeaves : List PobjCall :=
  [.get someTa [1] (teeDataFlagAccessRead ||| teeDataFlagShareRead) false 0,
    .get someTa [1] teeDataFlagShareRead false 0,
    .release 0x1000 (teeDataFlagAccessRead ||| teeDataFlagShareRead)]

theorem firstLeaves_allowed {w : PobjWorld} (h0 : w.2 = [])
    (h1 : ∃ u t, run pobjStep (firstLeaves.take 1) w = .ok (u, t) ∧ t.2.length = 1)
    (h2 : ∃ u t, run pobjStep (firstLeaves.take 2) w = .ok (u, t) ∧
      (0x1000, teeDataFlagAccessRead ||| teeDataFlagShareRead) ∈ t.2) :
    Guarded pobjStep Allowed firstLeaves w := by
  have g1 : Guarded pobjStep Allowed (firstLeaves.take 1) w := by
    refine ⟨?_, fun _ _ _ => trivial⟩
    show w.2.length + 1 < 2 ^ 32
    rw [h0]
    norm_num
  have g2 : Guarded pobjStep Allowed (firstLeaves.take 2) w := by
    apply g1.snoc
    obtain ⟨u, t, e, h⟩ := h1
    rw [wlp_of_eq e]
    show t.2.length + 1 < 2 ^ 32
    rw [h]
    norm_num
  apply g2.snoc
  obtain ⟨u, t, e, h⟩ := h2
  exact (wlp_of_eq e).mpr h

theorem sharing_of_run_firstLeaves : ∃ u w,
    run pobjStep firstLeaves (.boot roomy) = .ok (u, w) ∧ SharingRule w := by
  apply sharing_of_run
  apply firstLeaves_allowed
  · rfl
  · rw [← wp_iff]
    decide +kernel
  · rw [← wp_iff]
    decide +kernel

end MTower.Storage
