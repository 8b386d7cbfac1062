import MTower.Storage.Runs

/-!
# The store as a map

The successful calls of one TA on one id, newest first.  `latest` is what a map would answer; the
list answers the same as long as no object is made while there is one.

* `History`             the calls and the state after them;
* `latest`, `MapLike`   the map, and a state that behaves like it;
* `history_stored`      the entries after a history;
* `mapLike_of_history`  when the store is a map.
-/

set_option linter.unusedVariables false

namespace MTower.Storage
open Lib
open Kernel (Uuid)

/-- the call is about this object; a handle is one to it because there are no others -/
def Call.On (uuid : Uuid) (objectId : List UInt8) : Call → Prop
  | .objCreate u i _ _ => u = uuid ∧ i = objectId
  | .objOpen u i _ => u = uuid ∧ i = objectId
  | .objRead _ _ => True
  | .objDel _ => True

inductive History (uuid : Uuid) (objectId : List UInt8) (answers : Nat → Nat) :
    List Call → State → Prop where
  | boot : History uuid objectId answers [] (.boot answers)
  | next {c : Call} {calls : List Call} {s t : State} {obj : Nat} :
      History uuid objectId answers calls s → c.On uuid objectId →
      call c s = .ok (⟨teeSuccess, obj⟩, t) → History uuid objectId answers (c :: calls) t

/-- the data of the last create that no delete follows -/
def latest : List Call → Option (List UInt8)
  | [] => none
  | .objCreate _ _ _ data :: _ => some data
  | .objDel _ :: _ => none
  | .objOpen _ _ _ :: l => latest l
  | .objRead _ _ :: l => latest l

/-- every create comes when there is no object -/
def CreatesFresh : List Call → Prop
  | [] => True
  | .objCreate _ _ _ _ :: l => latest l = none ∧ CreatesFresh l
  | .objOpen _ _ _ :: l => CreatesFresh l
  | .objRead _ _ :: l => CreatesFresh l
  | .objDel _ :: l => CreatesFresh l

/-- the data of the object that a handle refers to -/
def dataOf (s : State) (h : Nat) : Option (List UInt8) :=
  match s.heap.blocks h with
  | some (.obj o) =>
    match s.heap.blocks o.pobj with
    | some (.pobj p) =>
      match s.heap.blocks p.data with
      | some (.bytes l) => if p.dataLen = l.length then some l else none
      | _ => none
    | _ => none
  | _ => none

/-- at most one object has the id, and an open that succeeds finds the latest data, or nothing if
there is none -/
structure MapLike (uuid : Uuid) (objectId : List UInt8) (calls : List Call) (s : State) : Prop where
  atMostOne : ∀ a b, IsObject s a uuid objectId → IsObject s b uuid objectId → a = b
  finds : ∀ flags, wp (uteeStorageObjOpen uuid objectId flags) (fun r t => r.res = teeSuccess →
    (latest calls = none → r.obj = 0) ∧
    ∀ data, latest calls = some data → dataOf t r.obj = some data) s

/-! ## the entries -/

/-- the entries that a map has -/
def Latest (uuid : Uuid) (objectId : List UInt8) (es : List Entry) : Option (List UInt8) → Prop
  | none => es = []
  | some data => ∃ e, es = [e] ∧ Matches uuid objectId e ∧ e.data = data

theorem dataOf_handle {s : State} {h : Nat} {o : Obj} {e : Entry}
    (ho : s.heap.blocks h = some (.obj o)) (hpo : o.pobj = e.addr) (he : e.In s.heap.blocks) :
    dataOf s h = some e.data := by
  simp only [dataOf, ho, hpo, he.pobj, he.data, if_pos he.dataLen]

section
variable {uuid : Uuid} {objectId : List UInt8} {answers : Nat → Nat} {calls : List Call}
  {s t : State} {es : List Entry}

theorem CreatesFresh.tail {c : Call} (h : CreatesFresh (c :: calls)) : CreatesFresh calls := by
  cases c with
  | objCreate u i flags data => exact h.2
  | objOpen u i flags => exact h
  | objRead obj len => exact h
  | objDel obj => exact h

/-- one call -/
theorem Effect.latest {c : Call} {r : Reply} {es' : List Entry} (h : Effect es s c r es' t)
    (hres : r.res = teeSuccess) (hon : c.On uuid objectId) (hf : CreatesFresh (c :: calls))
    (hl : Latest uuid objectId es (latest calls)) :
    Latest uuid objectId es' (Storage.latest (c :: calls)) := by
  cases h with
  | kept _ res _ _ _ hopen =>
    obtain ⟨u, i, flags, rfl⟩ := hopen hres
    exact hl
  | created flags e _ _ =>
    rw [hf.1] at hl
    have hes : es = [] := hl
    exact ⟨e, by rw [hes], hon, rfl⟩
  | dropped _ _ _ _ _ _ _ _ _ _ _ => exact absurd hres (by decide)
  | found _ _ _ _ _ _ _ _ _ _ _ => exact hl
  | moved _ _ _ _ _ _ _ => exact hl
  | deleted h o es1 e es2 _ _ _ _ hes _ =>
    show es1 ++ es2 = []
    cases hlat : Storage.latest calls with
    | none =>
      rw [hlat] at hl
      have hl : es = [] := hl
      rw [hes] at hl
      exact absurd hl (by simp)
    | some data =>
      rw [hlat] at hl
      obtain ⟨e', he', -⟩ := hl
      rw [hes, List.append_eq_singleton_iff] at he'
      rcases he' with ⟨h1, h2⟩ | ⟨-, h2⟩
      · rw [h1, (List.cons.inj h2).2]
        rfl
      · cases h2

/-- **The entries after a history.** -/
theorem history_stored (h : History uuid objectId answers calls s) (hf : CreatesFresh calls) :
    ∃ es, Stored s es ∧ Latest uuid objectId es (latest calls) := by
  induction h with
  | boot => exact ⟨[], .boot answers, rfl⟩
  | @next c calls s t obj _ hon e ih =>
    obtain ⟨es, hs, hl⟩ := ih hf.tail
    have heff := call_effect hs c
    rw [wlp_of_eq e] at heff
    obtain ⟨es', ht, heff⟩ := heff
    exact ⟨es', ht, heff.latest rfl hon hf hl⟩

theorem Latest.atMostOne (hs : Stored s es) {o : Option (List UInt8)}
    (hl : Latest uuid objectId es o) {a b : Nat} (ha : IsObject s a uuid objectId)
    (hb : IsObject s b uuid objectId) : a = b := by
  obtain ⟨p, hp, -⟩ := ha
  obtain ⟨p', hp', -⟩ := hb
  have ha := hs.all a p hp
  have hb := hs.all b p' hp'
  cases o with
  | none =>
    have hl : es = [] := hl
    rw [hl] at ha
    exact absurd ha List.not_mem_nil
  | some data =>
    obtain ⟨e, rfl, -⟩ := hl
    rw [List.mem_singleton.mp ha, List.mem_singleton.mp hb]

theorem Latest.finds (hs : Stored s es) {o : Option (List UInt8)}
    (hl : Latest uuid objectId es o) (flags : Nat) :
    wp (uteeStorageObjOpen uuid objectId flags) (fun r t => r.res = teeSuccess →
      (o = none → r.obj = 0) ∧ ∀ data, o = some data → dataOf t r.obj = some data) s := by
  refine wp_mono (open_effect hs uuid objectId flags) ?_
  intro r t hr hres
  obtain ⟨es', ht, hes'⟩ := hr.stored hs
  cases hr with
  | refused _ => exact absurd hres (by decide)
  | absent _ hno =>
    refine ⟨fun _ => rfl, ?_⟩
    intro data ho
    subst ho
    obtain ⟨e, rfl, hm, -⟩ := hl
    rcases hno with h | ⟨e', he', hne⟩
    · cases h
    · rw [List.mem_singleton.mp he'] at hne
      exact absurd hm hne
  | full _ _ _ _ _ _ => exact absurd hres (by decide)
  | found es1 e _ hes _ hnf =>
    have hsame : es' = es := by
      rcases hes' with h | ⟨-, -, h⟩
      · exact h
      · exact absurd h hnf
    subst hsame
    constructor
    · intro ho
      subst ho
      have hl : es' = [] := hl
      rw [hl] at hes
      exact absurd hes (by simp)
    · intro data ho
      subst ho
      obtain ⟨e', rfl, -, rfl⟩ := hl
      obtain rfl : e' = e := by
        rcases List.append_eq_singleton_iff.mp hes.symm with ⟨-, h⟩ | ⟨-, h⟩
        · exact (List.cons.inj h).1.symm
        · cases h
      exact dataOf_handle (Function.update_self _ _ _) rfl (ht.live e' List.mem_cons_self)

end

/-- **The store is a map** over every history in which no object is made while there is one. -/
theorem mapLike_of_history (uuid : Uuid) (objectId : List UInt8) (answers : Nat → Nat)
    (calls : List Call) (s : State) (h : History uuid objectId answers calls s)
    (hf : CreatesFresh calls) : MapLike uuid objectId calls s := by
  obtain ⟨es, hs, hl⟩ := history_stored h hf
  exact ⟨fun a b ha hb => hl.atMostOne hs ha hb, fun flags => hl.finds hs flags⟩

/-- a key is made, erased through a handle and made again -/
def replaceKey : List Call :=
  [.objCreate someTa [1] 0 [8], .objDel 0x1300, .objOpen someTa [1] teeDataFlagAccessWriteMeta,
    .objCreate someTa [1] 0 [7]]

theorem mapLike_replaceKey : ∃ s, History someTa [1] roomy replaceKey s ∧
    MapLike someTa [1] replaceKey s := by
  have hrun : ∃ r s1, call (.objCreate someTa [1] 0 [7]) (.boot roomy) = .ok (r, s1) ∧
      r = ⟨teeSuccess, 0⟩ ∧ wp (call (.objOpen someTa [1] teeDataFlagAccessWriteMeta))
        (fun r s2 => r = ⟨teeSuccess, 0x1300⟩ ∧ wp (call (.objDel 0x1300)) (fun r s3 =>
          r = ⟨teeSuccess, 0⟩ ∧ wp (call (.objCreate someTa [1] 0 [8])) (fun r s4 =>
            r = ⟨teeSuccess, 0⟩) s3) s2) s1 := by
    rw [← wp_iff]
    decide +kernel
  obtain ⟨r1, s1, e1, rfl, hrun⟩ := hrun
  obtain ⟨r2, s2, e2, rfl, hrun⟩ := wp_iff.mp hrun
  obtain ⟨r3, s3, e3, rfl, hrun⟩ := wp_iff.mp hrun
  obtain ⟨r4, s4, e4, rfl⟩ := wp_iff.mp hrun
  have h1 : History someTa [1] roomy [.objCreate someTa [1] 0 [7]] s1 := .next .boot ⟨rfl, rfl⟩ e1
  have h4 : History someTa [1] roomy replaceKey s4 :=
    .next (.next (.next h1 ⟨rfl, rfl⟩ e2) trivial e3) ⟨rfl, rfl⟩ e4
  exact ⟨s4, h4, mapLike_of_history someTa [1] roomy replaceKey s4 h4 ⟨rfl, rfl, trivial⟩⟩

/-- a second key is made over the first: both are there, and the first one is found -/
theorem mapLike_overwrite : ∃ s, History someTa [1] roomy
    [.objCreate someTa [1] 0 [8], .objCreate someTa [1] 0 [7]] s ∧
    ¬ MapLike someTa [1] [.objCreate someTa [1] 0 [8], .objCreate someTa [1] 0 [7]] s ∧
    ∃ r t, uteeStorageObjOpen someTa [1] teeDataFlagAccessRead s = .ok (r, t) ∧
      r.res = teeSuccess ∧ dataOf t r.obj = some [7] := by
  have hrun : ∃ r1 s1, call (.objCreate someTa [1] 0 [7]) (.boot roomy) = .ok (r1, s1) ∧
      wp (do
        let r2 ← call (.objCreate someTa [1] 0 [8])
        let r ← uteeStorageObjOpen someTa [1] teeDataFlagAccessRead
        pure (r1, r2, r)) (fun x t => x.1 = ⟨teeSuccess, 0⟩ ∧ x.2.1 = ⟨teeSuccess, 0⟩ ∧
          x.2.2.res = teeSuccess ∧ dataOf t x.2.2.obj = some [7]) s1 := by
    rw [← wp_iff, ← wp_bind]
    decide +kernel
  obtain ⟨r1, s1, e1, hrun⟩ := hrun
  rw [wp_bind] at hrun
  obtain ⟨r2, s2, e2, hrun⟩ := wp_iff.mp hrun
  rw [wp_bind] at hrun
  obtain ⟨r, t, e, rfl, rfl, hres, hold⟩ := wp_iff.mp hrun
  refine ⟨s2, .next (.next .boot ⟨rfl, rfl⟩ e1) ⟨rfl, rfl⟩ e2, ?_, r, t, e, hres, hold⟩
  intro hmap
  have hfinds := hmap.finds teeDataFlagAccessRead
  rw [wp_of_eq e] at hfinds
  have hnew := (hfinds hres).2 [8] rfl
  rw [hold] at hnew
  exact absurd hnew (by decide)

end MTower.Storage
