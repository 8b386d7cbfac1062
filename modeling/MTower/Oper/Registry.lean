import MTower.Oper.Frame

/-!
# The registry of operation handles

* `Frame.Ok`, `WellFormed`   every element of the registry can be read, every handle is registered,
                             and no two handles have one buffer;
* `getOperationElem_eq`      in a well-formed registry the lookup ends;
* `wlp_teeFreeOperation`     what the release of a handle can do;
* `entry_wellFormed`         every call keeps the registry well formed.
-/

set_option linter.unusedVariables false

namespace MTower.Oper
open Lib Kernel Cryp

variable {c : Crypto} {s t : Sys} {h : Nat}

/-! ## a well-formed registry -/

/-- an element of the registry holds the address -/
def Frame.Holds (f : Frame) (e h : Nat) : Prop := e ∈ f.elems ∧ f.shapes e = some (.elem h)

/-- `h` is in the registry -/
def Frame.Registered (f : Frame) (h : Nat) : Prop := ∃ e, f.Holds e h

structure Frame.Ok (f : Frame) : Prop where
  null : f.shapes 0 = none
  elem : ∀ e ∈ f.elems, ∃ addr, f.shapes e = some (.elem addr)
  nodup : f.elems.Nodup
  registered : ∀ a b, f.shapes a = some (.op b) → f.Registered a
  buffer : ∀ a b, f.shapes a = some (.op b) → b ≠ 0 → f.shapes b = some .buffer
  own : ∀ a a' b, f.shapes a = some (.op b) → f.shapes a' = some (.op b) → b ≠ 0 → a = a'

def Registered (s : Sys) (h : Nat) : Prop := s.frame.Registered h

def WellFormed (s : Sys) : Prop := s.frame.Ok

instance : Stable WellFormed := stable_frame Frame.Ok

/-- the frame without the block at `a` -/
def Frame.erase (f : Frame) (a : Nat) : Frame := ⟨Function.update f.shapes a none, f.elems⟩

/-- the frame with a block of shape `x` at `a` -/
def Frame.put (f : Frame) (a : Nat) (x : Shape) : Frame :=
  ⟨Function.update f.shapes a (some x), f.elems⟩

/-- the frame with `e` at the head of the registry -/
def Frame.insert (f : Frame) (e : Nat) : Frame := ⟨f.shapes, e :: f.elems⟩

/-- the frame without `e` in the registry -/
def Frame.remove (f : Frame) (e : Nat) : Frame := ⟨f.shapes, f.elems.erase e⟩

section
variable {f : Frame} {a b e x : Nat}

theorem erase_shapes (f : Frame) (a q : Nat) :
    (f.erase a).shapes q = if q = a then none else f.shapes q := Function.update_apply _ _ _ _

theorem put_shapes (f : Frame) (a : Nat) (x : Shape) (q : Nat) :
    (f.put a x).shapes q = if q = a then some x else f.shapes q := Function.update_apply _ _ _ _

theorem Frame.erase_comm (f : Frame) (a b : Nat) : (f.erase a).erase b = (f.erase b).erase a := by
  show Frame.mk _ _ = Frame.mk _ _
  congr 1
  funext q
  show ((f.erase a).erase b).shapes q = ((f.erase b).erase a).shapes q
  rw [erase_shapes, erase_shapes, erase_shapes, erase_shapes]
  split <;> split <;> rfl

theorem Frame.erase_null (hf : f.Ok) : f.erase 0 = f := by
  show Frame.mk _ _ = Frame.mk _ _
  congr 1
  rw [← hf.null, Function.update_eq_self]

/-- a handle goes with its buffer; its element stays or is removed as well -/
theorem Frame.Ok.release (hf : f.Ok) (ha : f.shapes a = some (.op b)) :
    ((f.erase b).erase a).Ok := by
  have hs : ∀ q y, ((f.erase b).erase a).shapes q = some y → q ≠ a ∧ q ≠ b ∧
      f.shapes q = some y := by
    intro q y hq
    rw [erase_shapes, erase_shapes] at hq
    split at hq
    · cases hq
    · split at hq
      · cases hq
      · exact ⟨by assumption, by assumption, hq⟩
  have hk : ∀ q, q ≠ a → q ≠ b → ((f.erase b).erase a).shapes q = f.shapes q := by
    intro q h1 h2
    rw [erase_shapes, erase_shapes, if_neg h1, if_neg h2]
  have he : ∀ q addr, f.shapes q = some (.elem addr) → q ≠ a ∧ q ≠ b := by
    intro q addr hq
    refine ⟨?_, ?_⟩
    · rintro rfl
      rw [ha] at hq
      cases hq
    · rintro rfl
      by_cases h0 : q = 0
      · rw [h0, hf.null] at hq
        cases hq
      · rw [hf.buffer a q ha h0] at hq
        cases hq
  refine ⟨?_, ?_, hf.nodup, ?_, ?_, ?_⟩
  · rw [erase_shapes, erase_shapes]
    split
    · rfl
    · split
      · rfl
      · exact hf.null
  · intro q hq
    obtain ⟨addr, hq'⟩ := hf.elem q hq
    obtain ⟨h1, h2⟩ := he q addr hq'
    exact ⟨addr, (hk q h1 h2).trans hq'⟩
  · intro q d hq
    obtain ⟨-, -, hq'⟩ := hs q _ hq
    obtain ⟨e, hm, hq''⟩ := hf.registered q d hq'
    obtain ⟨h1, h2⟩ := he e q hq''
    exact ⟨e, hm, (hk e h1 h2).trans hq''⟩
  · intro q d hq h0
    obtain ⟨hne, -, hq'⟩ := hs q _ hq
    refine (hk d ?_ ?_).trans (hf.buffer q d hq' h0)
    · intro hd
      have hb := hf.buffer q d hq' h0
      rw [hd, ha] at hb
      cases hb
    · intro hd
      exact hne (hf.own q a d hq' (hd ▸ ha) h0)
  · intro q q' d hq hq' h0
    exact hf.own q q' d (hs q _ hq).2.2 (hs q' _ hq').2.2 h0

/-- an element goes that holds the address of no handle -/
theorem Frame.Ok.unregister (hf : f.Ok) (he : f.Holds e x) (hx : ∀ b, f.shapes x ≠ some (.op b)) :
    ((f.erase e).remove e).Ok := by
  have hs : ∀ q y, (f.erase e).shapes q = some y → q ≠ e ∧ f.shapes q = some y := by
    intro q y hq
    rw [erase_shapes] at hq
    split at hq
    · cases hq
    · exact ⟨by assumption, hq⟩
  have hk : ∀ q, q ≠ e → (f.erase e).shapes q = f.shapes q := by
    intro q hq
    rw [erase_shapes, if_neg hq]
  refine ⟨?_, ?_, hf.nodup.erase e, ?_, ?_, ?_⟩
  · show (f.erase e).shapes 0 = none
    rw [erase_shapes]
    split
    · rfl
    · exact hf.null
  · intro q hq
    obtain ⟨hne, hm⟩ := (hf.nodup.mem_erase_iff).mp hq
    obtain ⟨addr, hq'⟩ := hf.elem q hm
    exact ⟨addr, (hk q hne).trans hq'⟩
  · intro q d hq
    obtain ⟨-, hq'⟩ := hs q _ hq
    obtain ⟨e', hm, hq''⟩ := hf.registered q d hq'
    have hne : e' ≠ e := by
      rintro rfl
      have hx' := he.2
      rw [hq''] at hx'
      cases hx'
      exact hx d hq'
    exact ⟨e', (hf.nodup.mem_erase_iff).mpr ⟨hne, hm⟩, (hk e' hne).trans hq''⟩
  · intro q d hq h0
    obtain ⟨-, hq'⟩ := hs q _ hq
    have hb := hf.buffer q d hq' h0
    refine (hk d ?_).trans hb
    rintro rfl
    rw [he.2] at hb
    cases hb
  · intro q q' d hq hq' h0
    exact hf.own q q' d (hs q _ hq).2 (hs q' _ hq').2 h0

/-- a new handle with its element -/
theorem Frame.Ok.register (hf : f.Ok) (ha : f.shapes a = none) (ha0 : a ≠ 0)
    (he : f.shapes e = none) (he0 : e ≠ 0) (hne : e ≠ a) :
    (((f.put a (.op 0)).put e (.elem a)).insert e).Ok := by
  have hs : ∀ q, (((f.put a (.op 0)).put e (.elem a)).insert e).shapes q =
      if q = e then some (.elem a) else if q = a then some (.op 0) else f.shapes q := by
    intro q
    show ((f.put a (.op 0)).put e (.elem a)).shapes q = _
    rw [put_shapes, put_shapes]
  have hk : ∀ q y, f.shapes q = some y → q ≠ e ∧ q ≠ a := by
    intro q y hq
    refine ⟨?_, ?_⟩
    · rintro rfl
      rw [he] at hq
      cases hq
    · rintro rfl
      rw [ha] at hq
      cases hq
  have hold : ∀ q y, f.shapes q = some y →
      (((f.put a (.op 0)).put e (.elem a)).insert e).shapes q = some y := by
    intro q y hq
    obtain ⟨h1, h2⟩ := hk q y hq
    rw [hs, if_neg h1, if_neg h2, hq]
  have hop : ∀ q d, (((f.put a (.op 0)).put e (.elem a)).insert e).shapes q = some (.op d) →
      (q = a ∧ d = 0) ∨ f.shapes q = some (.op d) := by
    intro q d hq
    rw [hs] at hq
    split at hq
    · cases hq
    · split at hq
      · cases hq
        exact .inl ⟨by assumption, rfl⟩
      · exact .inr hq
  refine ⟨?_, ?_, ?_, ?_, ?_, ?_⟩
  · rw [hs, if_neg he0.symm, if_neg ha0.symm]
    exact hf.null
  · intro q hq
    rcases List.mem_cons.mp hq with rfl | hq
    · exact ⟨a, by rw [hs, if_pos rfl]⟩
    · obtain ⟨addr, hq'⟩ := hf.elem q hq
      exact ⟨addr, hold q _ hq'⟩
  · refine List.nodup_cons.mpr ⟨?_, hf.nodup⟩
    intro hm
    obtain ⟨addr, he'⟩ := hf.elem e hm
    rw [he] at he'
    cases he'
  · intro q d hq
    rcases hop q d hq with ⟨rfl, rfl⟩ | hq
    · exact ⟨e, List.mem_cons_self, by rw [hs, if_pos rfl]⟩
    · obtain ⟨e', hm, he'⟩ := hf.registered q d hq
      exact ⟨e', List.mem_cons_of_mem _ hm, hold e' _ he'⟩
  · intro q d hq h0
    rcases hop q d hq with ⟨-, rfl⟩ | hq
    · exact absurd rfl h0
    · exact hold d _ (hf.buffer q d hq h0)
  · intro q q' d hq hq' h0
    rcases hop q d hq with ⟨-, rfl⟩ | hq
    · exact absurd rfl h0
    · rcases hop q' d hq' with ⟨-, rfl⟩ | hq'
      · exact absurd rfl h0
      · exact hf.own q q' d hq hq' h0

/-- a buffer for a handle without one -/
theorem Frame.Ok.addBuffer (hf : f.Ok) (ha : f.shapes a = some (.op 0)) (hb : f.shapes b = none)
    (hb0 : b ≠ 0) : ((f.put b .buffer).put a (.op b)).Ok := by
  have hne : b ≠ a := by
    rintro rfl
    rw [ha] at hb
    cases hb
  have hs : ∀ q, ((f.put b .buffer).put a (.op b)).shapes q =
      if q = a then some (.op b) else if q = b then some .buffer else f.shapes q := by
    intro q
    rw [put_shapes, put_shapes]
  have hold : ∀ q y, q ≠ a → f.shapes q = some y →
      ((f.put b .buffer).put a (.op b)).shapes q = some y := by
    intro q y hqa hq
    have hqb : q ≠ b := by
      rintro rfl
      rw [hb] at hq
      cases hq
    rw [hs, if_neg hqa, if_neg hqb, hq]
  have helem : ∀ q addr, f.shapes q = some (.elem addr) →
      ((f.put b .buffer).put a (.op b)).shapes q = some (.elem addr) := by
    intro q addr hq
    refine hold q _ ?_ hq
    rintro rfl
    rw [ha] at hq
    cases hq
  have hop : ∀ q d, ((f.put b .buffer).put a (.op b)).shapes q = some (.op d) →
      (q = a ∧ d = b) ∨ q ≠ a ∧ f.shapes q = some (.op d) := by
    intro q d hq
    rw [hs] at hq
    split at hq
    · cases hq
      exact .inl ⟨by assumption, rfl⟩
    · split at hq
      · cases hq
      · exact .inr ⟨by assumption, hq⟩
  have hold' : ∀ q d, f.shapes q = some (.op d) → d ≠ 0 → d ≠ b := by
    rintro q d hq h0 rfl
    rw [hf.buffer q d hq h0] at hb
    cases hb
  refine ⟨?_, ?_, hf.nodup, ?_, ?_, ?_⟩
  · have ha0 : (0 : Nat) ≠ a := by
      rintro rfl
      rw [hf.null] at ha
      cases ha
    rw [hs, if_neg ha0, if_neg hb0.symm]
    exact hf.null
  · intro q hq
    obtain ⟨addr, hq'⟩ := hf.elem q hq
    exact ⟨addr, helem q addr hq'⟩
  · intro q d hq
    have hreg : f.Registered q := by
      rcases hop q d hq with ⟨rfl, -⟩ | ⟨-, hq⟩
      · exact hf.registered q 0 ha
      · exact hf.registered q d hq
    obtain ⟨e, hm, he⟩ := hreg
    exact ⟨e, hm, helem e q he⟩
  · intro q d hq h0
    rcases hop q d hq with ⟨-, rfl⟩ | ⟨-, hq⟩
    · rw [hs, if_neg hne, if_pos rfl]
    · have hd := hf.buffer q d hq h0
      refine hold d _ ?_ hd
      rintro rfl
      rw [ha] at hd
      cases hd
  · intro q q' d hq hq' h0
    rcases hop q d hq with ⟨rfl, rfl⟩ | ⟨-, h1⟩
    · rcases hop q' d hq' with ⟨rfl, -⟩ | ⟨-, h2⟩
      · rfl
      · exact absurd rfl (hold' q' d h2 h0)
    · rcases hop q' d hq' with ⟨rfl, hd⟩ | ⟨-, h2⟩
      · exact absurd hd (hold' q d h1 h0)
      · exact hf.own q q' d h1 h2 h0

end

/-! ## the lookup -/

theorem frame_elem {e addr : Nat} :
    s.frame.shapes e = some (.elem addr) ↔ s.heap.blocks e = some (.elem addr) := by
  show (s.heap.blocks e).map Block.shape = _ ↔ _
  cases hb : s.heap.blocks e with
  | none => simp
  | some b =>
    cases b with
    | op o => simp [Block.shape]
    | elem x => simp [Block.shape]
    | buffer d => simp [Block.shape]

theorem frame_op {a b : Nat} : s.frame.shapes a = some (.op b) ↔
    ∃ o, s.heap.blocks a = some (.op o) ∧ o.buffer = b := by
  show (s.heap.blocks a).map Block.shape = _ ↔ _
  cases hb : s.heap.blocks a with
  | none => simp
  | some x =>
    cases x with
    | op o => simp [Block.shape]
    | elem y => simp [Block.shape]
    | buffer d => simp [Block.shape]

theorem frame_none {a : Nat} : s.frame.shapes a = none ↔ s.heap.blocks a = none :=
  Option.map_eq_none_iff

theorem get_eq : (get : O Sys) s = .ok (s, s) := rfl

theorem blockAt_eq {a : Nat} {b : Block} (hb : s.heap.blocks a = some b) :
    blockAt a s = .ok (b, s) := by
  unfold blockAt
  rw [bind_of_ok get_eq, hb]
  rfl

theorem elemAt_eq {e addr : Nat} (he : s.heap.blocks e = some (.elem addr)) :
    elemAt e s = .ok (addr, s) := bind_of_ok (blockAt_eq he)

theorem opAt_eq {a : Nat} {o : Operation} (ho : s.heap.blocks a = some (.op o)) :
    opAt a s = .ok (o, s) := bind_of_ok (blockAt_eq ho)

/-- the element that the lookup finds -/
def Sys.found (s : Sys) (op : Nat) : Option Nat :=
  s.elems.find? fun e => s.heap.blocks e = some (.elem op)

theorem findElem_eq {op : Nat} {l : List Nat}
    (hl : ∀ e ∈ l, ∃ addr, s.heap.blocks e = some (.elem addr)) :
    findElem op l s =
      .ok ((l.find? fun e => s.heap.blocks e = some (.elem op)).getD 0, s) := by
  induction l with
  | nil => rfl
  | cons e l ih =>
    obtain ⟨addr, he⟩ := hl e List.mem_cons_self
    show (elemAt e >>= fun addr => if addr = op then pure e else findElem op l : O Nat) s = _
    rw [bind_of_ok (elemAt_eq he), List.find?_cons]
    by_cases ha : addr = op
    · have hd : decide (s.heap.blocks e = some (.elem op)) = true := by
        rw [he, ha]
        exact decide_eq_true rfl
      rw [if_pos ha, hd]
      rfl
    · have hd : decide (s.heap.blocks e = some (.elem op)) = false := by
        refine decide_eq_false ?_
        rw [he]
        intro hx
        cases hx
        exact ha rfl
      rw [if_neg ha, hd]
      exact ih fun e' he' => hl e' (List.mem_cons_of_mem _ he')

/-- every element of the registry can be read -/
def Readable (s : Sys) : Prop := ∀ e ∈ s.elems, ∃ addr, s.heap.blocks e = some (.elem addr)

theorem WellFormed.readable (hw : WellFormed s) : Readable s := by
  intro e he
  obtain ⟨addr, h1⟩ := hw.elem e he
  exact ⟨addr, frame_elem.mp h1⟩

theorem getOperationElem_eq (hr : Readable s) (op : Nat) :
    getOperationElem op s = .ok ((s.found op).getD 0, s) := findElem_eq hr

theorem found_some {op e : Nat} (h : s.found op = some e) : s.frame.Holds e op := by
  refine ⟨List.mem_of_find?_eq_some h, ?_⟩
  have hd := List.find?_some h
  exact frame_elem.mpr (of_decide_eq_true hd)

theorem found_none {op : Nat} : s.found op = none ↔ ¬ Registered s op := by
  show s.elems.find? _ = none ↔ _
  rw [List.find?_eq_none]
  constructor
  · rintro hn ⟨e, hm, he⟩
    exact hn e hm (decide_eq_true (frame_elem.mp he))
  · intro hn e hm hd
    exact hn ⟨e, hm, frame_elem.mpr (of_decide_eq_true hd)⟩

theorem WellFormed.null (hw : WellFormed s) : s.heap.blocks 0 = none :=
  frame_none.mp (Frame.Ok.null hw)

theorem elem_ne_zero (hn : s.heap.blocks 0 = none) {e op : Nat} (h : s.frame.Holds e op) :
    e ≠ 0 := by
  rintro rfl
  have h1 := frame_elem.mp h.2
  rw [hn] at h1
  cases h1

/-- `get_operation_elem` gives an element exactly for a registered handle -/
theorem unknown_eq (hw : WellFormed s) {op : Nat} (h0 : op ≠ 0) :
    ∃ b, unknown op s = .ok (b, s) ∧ (b = true ↔ ¬ Registered s op) := by
  refine ⟨decide ((s.found op).getD 0 = 0), ?_, ?_⟩
  · show (if op = 0 then pure true else do
      let e ← getOperationElem op
      pure (decide (e = 0)) : O Bool) s = _
    rw [if_neg h0, bind_of_ok (getOperationElem_eq hw.readable op)]
    rfl
  · rw [decide_eq_true_iff, ← found_none]
    cases hf : s.found op with
    | none => simp
    | some e =>
      show e = 0 ↔ _
      constructor
      · intro he
        exact absurd he (elem_ne_zero hw.null (found_some hf))
      · intro hx
        cases hx

/-! ## releasing -/

theorem erase_null (hn : s.heap.blocks 0 = none) : s.erase 0 = s := by
  show Sys.mk _ _ _ _ = _
  have he : s.heap.erase 0 = s.heap := by
    show Heap.mk _ _ _ = _
    rw [← hn, Function.update_eq_self]
  rw [he]

/-- a release of `NULL` is like one of an address without a block -/
theorem free_eq {a : Nat} (hn : s.heap.blocks 0 = none) (ha : a ≠ 0 → s.heap.blocks a ≠ none) :
    free a s = .ok ((), s.erase a) := by
  unfold free
  rw [bind_of_ok get_eq]
  by_cases h0 : a = 0
  · rw [if_pos h0, h0, erase_null hn]
    rfl
  · rw [if_neg h0]
    cases hb : s.heap.blocks a with
    | none => exact absurd hb (ha h0)
    | some b => rfl

theorem wlp_free {a : Nat} {Q : Unit → Sys → Prop} (hn : s.heap.blocks 0 = none)
    (hQ : Q () (s.erase a)) : wlp (free a) Q s := by
  by_cases ha : a ≠ 0 → s.heap.blocks a ≠ none
  · rw [wlp_of_eq (free_eq hn ha)]
    exact hQ
  · push Not at ha
    unfold free
    rw [wlp_bind, wlp_get, if_neg ha.1, ha.2]
    exact trivial

theorem erase_frame (s : Sys) (a : Nat) : (s.erase a).frame = s.frame.erase a := by
  show Frame.mk _ _ = Frame.mk _ _
  congr 1
  funext q
  show (Function.update s.heap.blocks a none q).map Block.shape =
    (s.frame.erase a).shapes q
  rw [erase_shapes, Function.update_apply]
  split <;> rfl

theorem erase_of_ne {a q : Nat} (hq : q ≠ a) : (s.erase a).heap.blocks q = s.heap.blocks q :=
  Function.update_of_ne hq _ _

theorem erase_blocks_null (hn : s.heap.blocks 0 = none) (a : Nat) :
    (s.erase a).heap.blocks 0 = none := by
  show Function.update s.heap.blocks a none 0 = none
  rw [Function.update_apply]
  split
  · rfl
  · exact hn

/-- an element is no buffer -/
theorem WellFormed.elem_ne_buffer (hw : WellFormed s) {o : Operation} {e x : Nat}
    (ho : s.heap.blocks h = some (.op o)) (he : s.heap.blocks e = some (.elem x)) :
    e ≠ o.buffer := by
  intro hb
  have h0 : o.buffer ≠ 0 := by
    intro h0
    rw [hb, h0, hw.null] at he
    cases he
  have h1 := hw.buffer h o.buffer (frame_op.mpr ⟨o, ho, rfl⟩) h0
  rw [← hb, frame_elem.mpr he] at h1
  cases h1

theorem wlp_sys {α : Type} {x : C α} {Q : α → Sys → Prop} :
    wlp (sys x) Q s ↔ wlp x (fun a u => Q a { s with utc := u }) s.utc := by
  unfold wlp sys
  cases x s.utc with
  | error f => exact Iff.rfl
  | ok r => exact Iff.rfl

theorem wp_sys {α : Type} {x : C α} {Q : α → Sys → Prop} :
    wp (sys x) Q s ↔ wp x (fun a u => Q a { s with utc := u }) s.utc := by
  unfold wp sys
  cases x s.utc with
  | error f => exact Iff.rfl
  | ok r => exact Iff.rfl

theorem touchElems_eq {l : List Nat} (hl : ∀ e ∈ l, ∃ addr, s.heap.blocks e = some (.elem addr)) :
    touchElems l s = .ok ((), s) := by
  induction l with
  | nil => rfl
  | cons e l ih =>
    obtain ⟨addr, he⟩ := hl e List.mem_cons_self
    show (elemAt e >>= fun _ => touchElems l) s = _
    rw [bind_of_ok (elemAt_eq he)]
    exact ih fun e' he' => hl e' (List.mem_cons_of_mem _ he')

theorem removeElem_eq {e : Nat} (hr : Readable s) (he : e ∈ s.elems) :
    removeElem e s = .ok ((), { s with elems := s.elems.erase e }) := by
  have ht : touchElems (e :: neighbours e s.elems) s = .ok ((), s) := by
    refine touchElems_eq ?_
    intro q hq
    rcases List.mem_cons.mp hq with rfl | hq
    · exact hr q he
    · exact hr q (neighbours_subset hq)
  show (touchElems (e :: neighbours e s.elems) >>= fun _ =>
    modify fun s => { s with elems := s.elems.erase e } : O Unit) s = _
  rw [bind_of_ok ht]
  rfl

theorem insertElem_eq (hr : Readable s) (e : Nat) :
    insertElem e s = .ok ((), { s with elems := e :: s.elems }) := by
  have ht : touchElems (s.elems.take 1) s = .ok ((), s) :=
    touchElems_eq fun q hq => hr q (List.mem_of_mem_take hq)
  show (touchElems (s.elems.take 1) >>= fun _ =>
    modify fun s => { s with elems := e :: s.elems } : O Unit) s = _
  rw [bind_of_ok ht]
  rfl

/-- a lookup that finds nothing is refused before the handle is read -/
theorem wlp_unknown (hw : WellFormed s) {Q : Bool → Sys → Prop} (htrue : Q true s)
    (hfalse : Registered s h → Q false s) : wlp (unknown h) Q s := by
  by_cases h0 : h = 0
  · unfold unknown
    rw [if_pos h0]
    exact htrue
  · obtain ⟨b, hu, hb⟩ := unknown_eq hw h0
    rw [wlp_of_eq hu]
    cases b with
    | true => exact htrue
    | false =>
      refine hfalse ?_
      by_contra hn
      cases hb.mpr hn

/-- the state without the handle `h`, its element `e` and its buffer `b` -/
def Sys.released (s : Sys) (h e b : Nat) : Sys :=
  ((({ s with elems := s.elems.erase e } : Sys).erase b).erase e).erase h

theorem released_frame (s : Sys) (e b : Nat) :
    (s.released h e b).frame = (((s.frame.erase b).erase e).erase h).remove e := by
  unfold Sys.released
  rw [erase_frame, erase_frame, erase_frame]
  rfl

/-- the second lookup of `TEE_FreeOperation` finds an element as the first one did -/
theorem WellFormed.found_again (hw : WellFormed s) {o : Operation} (hreg : Registered s h)
    (ho : s.heap.blocks h = some (.op o)) :
    Readable (s.erase o.buffer) ∧
      ∃ e, (s.erase o.buffer).found h = some e ∧ s.frame.Holds e h := by
  have hkeep : ∀ e x, s.heap.blocks e = some (.elem x) →
      (s.erase o.buffer).heap.blocks e = some (.elem x) := by
    intro e x he
    rw [erase_of_ne (hw.elem_ne_buffer ho he)]
    exact he
  constructor
  · intro e he
    obtain ⟨x, hx⟩ := hw.readable e he
    exact ⟨x, hkeep e x hx⟩
  · cases hf : (s.erase o.buffer).found h with
    | none =>
      obtain ⟨e, hm, he⟩ := hreg
      refine absurd ⟨e, hm, ?_⟩ (found_none.mp hf)
      exact frame_elem.mpr (hkeep e h (frame_elem.mp he))
    | some e =>
      obtain ⟨hm, he⟩ := found_some hf
      refine ⟨e, rfl, hm, ?_⟩
      obtain ⟨x, hx⟩ := hw.readable e hm
      have h1 := hkeep e x hx
      rw [frame_elem.mp he] at h1
      cases h1
      exact frame_elem.mpr hx

/-- `TEE_FreeOperation` behind `utee_cryp_state_free` -/
theorem dropHandle_eq (hw : WellFormed s) (hreg : Registered s h) {o : Operation}
    (ho : s.heap.blocks h = some (.op o)) : ∃ e, s.frame.Holds e h ∧ (do
      free o.buffer
      let e ← getOperationElem h
      if e ≠ 0 then do
        removeElem e
        free e
        free h
      else free h : O Unit) s = .ok ((), s.released h e o.buffer) := by
  obtain ⟨hr, e, hfe, he⟩ := hw.found_again hreg ho
  refine ⟨e, he, ?_⟩
  have hop : s.frame.shapes h = some (.op o.buffer) := frame_op.mpr ⟨o, ho, rfl⟩
  have heh : h ≠ e := by
    rintro rfl
    rw [frame_elem.mp he.2] at ho
    cases ho
  have hbh : h ≠ o.buffer := by
    intro hb
    have h0 : o.buffer ≠ 0 := by
      intro h0
      rw [hb, h0, hw.null] at ho
      cases ho
    have h1 := hw.buffer h o.buffer hop h0
    rw [← hb, hop] at h1
    cases h1
  -- what is released later is not the buffer
  have hlive : (s.erase o.buffer).heap.blocks e ≠ none := by
    rw [erase_of_ne (hw.elem_ne_buffer ho (frame_elem.mp he.2)), frame_elem.mp he.2]
    exact Option.some_ne_none _
  have hn := erase_blocks_null (s := { s with elems := s.elems.erase e }) hw.null o.buffer
  have hfree : free o.buffer s = .ok ((), s.erase o.buffer) := by
    refine free_eq hw.null ?_
    intro hb0 hb1
    have h1 := hw.buffer h o.buffer hop hb0
    rw [frame_none.mpr hb1] at h1
    cases h1
  have hget : getOperationElem h (s.erase o.buffer) = .ok (e, s.erase o.buffer) := by
    rw [getOperationElem_eq hr, hfe]
    rfl
  rw [bind_of_ok hfree, bind_of_ok hget, if_pos (elem_ne_zero hw.null he)]
  refine (bind_of_ok (removeElem_eq hr he.1)).trans ?_
  refine (bind_of_ok (free_eq hn fun _ => hlive)).trans ?_
  refine free_eq (erase_blocks_null hn e) ?_
  intro _
  rw [erase_of_ne heh, erase_of_ne hbh]
  show s.heap.blocks h ≠ none
  rw [ho]
  exact Option.some_ne_none _

theorem sys_ok {α : Type} {x : C α} {a : α} {u : Utc} (hx : x s.utc = .ok (a, u)) :
    sys x s = .ok (a, { s with utc := u }) := by
  unfold sys
  rw [hx]

/-- a registered handle passes the check -/
theorem unknown_false (hw : WellFormed s) (hreg : Registered s h) (h0 : h ≠ 0) :
    unknown h s = .ok (false, s) := by
  obtain ⟨b, hb, hbt⟩ := unknown_eq hw h0
  cases b with
  | false => exact hb
  | true => exact absurd hreg (hbt.mp rfl)

/-- the release of a registered handle -/
theorem teeFreeOperation_eq (hw : WellFormed s) (hreg : Registered s h) {o : Operation}
    (ho : s.heap.blocks h = some (.op o)) {u : Utc}
    (hu : uteeCrypStateFree c.provider o.state s.utc = .ok (teeSuccess, u)) :
    ∃ e, s.frame.Holds e h ∧ teeFreeOperation c h s =
      .ok ((), ({ s with utc := u } : Sys).released h e o.buffer) := by
  have h0 : h ≠ 0 := by
    rintro rfl
    rw [hw.null] at ho
    cases ho
  obtain ⟨e, he, hd⟩ := dropHandle_eq (s := { s with utc := u }) hw hreg ho
  refine ⟨e, he, ?_⟩
  unfold teeFreeOperation
  rw [bind_of_ok (unknown_false hw hreg h0), if_neg (by simp), bind_of_ok (opAt_eq ho),
    bind_of_ok (sys_ok hu), if_neg (by simp)]
  exact hd

/-- **What the release of a handle can do.** -/
theorem wlp_teeFreeOperation (hw : WellFormed s) {Q : Unit → Sys → Prop}
    (hQ : ∀ e o u, s.frame.Holds e h → s.heap.blocks h = some (.op o) →
      uteeCrypStateFree c.provider o.state s.utc = .ok (teeSuccess, u) →
      Q () (({ s with utc := u } : Sys).released h e o.buffer)) : wlp (teeFreeOperation c h) Q s := by
  unfold teeFreeOperation
  rw [wlp_bind]
  refine wlp_unknown hw ?_ ?_
  · rw [if_pos rfl]
    exact trivial
  · intro hreg
    rw [if_neg (by simp), wlp_bind, wlp_opAt]
    intro o ho
    rw [wlp_bind, wlp_sys, wlp_iff]
    intro res u hres
    by_cases hs : res = teeSuccess
    · rw [if_neg (by simp [hs])]
      obtain ⟨e, he, hd⟩ := dropHandle_eq (s := { s with utc := u }) hw hreg ho
      rw [wlp_of_eq hd]
      exact hQ e o u he ho (hs ▸ hres)
    · rw [if_pos hs]
      exact trivial

/-- the frame after the release of a handle -/
theorem WellFormed.released (hw : WellFormed s) {e : Nat} {o : Operation} (he : s.frame.Holds e h)
    (ho : s.heap.blocks h = some (.op o)) : WellFormed (s.released h e o.buffer) := by
  have hop : s.frame.shapes h = some (.op o.buffer) := frame_op.mpr ⟨o, ho, rfl⟩
  have hne : e ≠ h := by
    rintro rfl
    have h1 := he.2
    rw [hop] at h1
    cases h1
  show (s.released h e o.buffer).frame.Ok
  rw [released_frame, Frame.erase_comm _ e h]
  refine (Frame.Ok.release hw hop).unregister (x := h) ⟨he.1, ?_⟩ ?_
  · rw [erase_shapes, erase_shapes, if_neg hne, if_neg (hw.elem_ne_buffer ho (frame_elem.mp he.2))]
    exact he.2
  · intro b hb
    rw [erase_shapes, if_pos rfl] at hb
    cases hb

theorem teeFreeOperation_wellFormed (hw : WellFormed s) :
    wlp (teeFreeOperation c h) (fun _ t => WellFormed t) s := by
  refine wlp_teeFreeOperation hw ?_
  intro e o u he ho _
  exact WellFormed.released (s := { s with utc := u }) hw he ho

/-! ## allocating -/

theorem store_frame_put (s : Sys) (a : Nat) (b : Block) :
    (s.store a b).frame = s.frame.put a b.shape := by
  show Frame.mk _ _ = Frame.mk _ _
  congr 1
  funext q
  show (Function.update s.heap.blocks a (some b) q).map Block.shape =
    (s.frame.put a b.shape).shapes q
  rw [put_shapes, Function.update_apply]
  split <;> rfl

/-- the state after a call of the allocator that changed no block -/
def Sys.tick (s : Sys) : Sys := { s with heap := { s.heap with calls := s.heap.calls + 1 } }

theorem malloc_full {b : Block} (hf : s.heap.Full) : malloc b s = .ok (0, s.tick) := by
  show Except.ok ((s.heap.alloc b).1, { s with heap := (s.heap.alloc b).2 }) = _
  rw [Heap.alloc_full b hf]
  rfl

theorem malloc_new {b : Block} (hf : ¬ s.heap.Full) :
    malloc b s = .ok (s.heap.answers s.heap.calls, s.tick.store (s.heap.answers s.heap.calls) b) := by
  show Except.ok ((s.heap.alloc b).1, { s with heap := (s.heap.alloc b).2 }) = _
  rw [Heap.alloc_not_full b hf]
  rfl

/-- one call of the allocator: it fails and changes no block, or it adds a fresh one -/
theorem wlp_malloc {b : Block} {Q : Nat → Sys → Prop} (hfull : s.heap.Full → Q 0 s.tick)
    (hnew : ∀ a, a ≠ 0 → s.heap.blocks a = none → Q a (s.tick.store a b)) :
    wlp (malloc b) Q s := by
  by_cases hf : s.heap.Full
  · rw [wlp_of_eq (malloc_full hf)]
    exact hfull hf
  · obtain ⟨h0, -, hn⟩ := Heap.not_full_iff.mp hf
    rw [wlp_of_eq (malloc_new hf)]
    exact hnew _ h0 hn

theorem updateOp_eq {a : Nat} {o : Operation} {f : Operation → Operation}
    (ho : s.heap.blocks a = some (.op o)) :
    updateOp a f s = .ok ((), s.store a (.op (f o))) := bind_of_ok (opAt_eq ho)

theorem store_self {a : Nat} (b : Block) : (s.store a b).heap.blocks a = some b :=
  Function.update_self _ _ _

theorem store_of_ne {a q : Nat} (b : Block) (hq : q ≠ a) :
    (s.store a b).heap.blocks q = s.heap.blocks q := Function.update_of_ne hq _ _

/-- a handle that is registered in a well-formed state -/
structure Frame.Allocating (op : Nat) (f : Frame) : Prop where
  ok : f.Ok
  op : ∃ b, f.shapes op = some (.op b)

def Allocating (op : Nat) (s : Sys) : Prop := s.frame.Allocating op

theorem Allocating.congr {op : Nat} (hs : Allocating op s) (he : t.frame = s.frame) :
    Allocating op t := by
  unfold Allocating
  rw [he]
  exact hs

theorem allocBuffer_spec {op : Nat} {a : Setup} (hw : WellFormed s)
    (hb : s.frame.shapes op = some (.op 0)) :
    wlp (allocBuffer op a) (fun _ t => Allocating op t) s := by
  obtain ⟨o, ho, ho0⟩ := frame_op.mp hb
  unfold allocBuffer
  by_cases hsz : 1 < a.blockSize
  · rw [if_pos hsz, wlp_bind]
    refine wlp_malloc ?_ ?_
    · intro _
      have hs : Allocating op s := ⟨hw, 0, hb⟩
      rw [wlp_bind, wlp_of_eq (updateOp_eq (s := s.tick) ho)]
      refine hs.congr (store_frame (s := s.tick) ho ?_)
      show Shape.op 0 = Shape.op o.buffer
      rw [ho0]
    · intro b h0 hn
      have hne : op ≠ b := by
        rintro rfl
        rw [ho] at hn
        cases hn
      have ho' := (store_of_ne (s := s.tick) (.buffer (List.replicate (if a.bufferTwoBlocks = true
        then a.blockSize * 2 else a.blockSize) 0)) hne).trans ho
      rw [wlp_bind, wlp_of_eq (updateOp_eq ho')]
      have hf := Frame.Ok.addBuffer hw hb (frame_none.mpr hn) h0
      refine ⟨?_, b, ?_⟩
      · show Frame.Ok _
        rw [store_frame_put, store_frame_put]
        exact hf
      · rw [store_frame_put, put_shapes, if_pos rfl]
        rfl
  · rw [if_neg hsz]
    exact ⟨hw, 0, hb⟩

section
variable {P : Sys → Prop}

theorem keeps_andThen {x y : O Nat} (hx : Maintains P x) (hy : Maintains P y) :
    Maintains P (andThen x y) := by
  unfold andThen
  exact Maintains.bind hx fun _ => Maintains.ite (Maintains.pure _) hy

theorem keeps_setBlockSize {p : Frame → Prop} (op : Nat) (a : Setup) :
    Maintains (fun s => p s.frame) (setBlockSize op a) := by
  unfold setBlockSize
  exact Maintains.bind (keeps_frame_updateOp fun _ => rfl) fun _ => Maintains.pure _

variable [Stable P]

theorem keeps_allocKey {g : Operation → Nat → Operation}
    (hl : ∀ o k, (g o k).layout = o.layout) (ho : ∀ o k, (g o k).bufferOffs ≤ o.bufferOffs)
    (op ty n : Nat) : Maintains P (allocKey op ty n g) := by
  unfold allocKey
  refine Maintains.bind (keeps_allocateTransientObject ty n) fun r => ?_
  refine Maintains.ite (Maintains.pure _) (Maintains.bind (keeps_updateOp ?_ ?_) fun _ =>
    Maintains.pure _)
  · exact fun o => hl o r.2
  · exact fun o => ho o r.2

theorem keeps_allocKeys (op : Nat) (a : Setup) (m n : Nat) :
    Maintains P (allocKeys op a m n) := by
  unfold allocKeys
  refine Maintains.ite (Maintains.pure _) (Maintains.bind (keeps_opAt op) fun o => ?_)
  have hk : ∀ n, Maintains P (allocKey op (teeAlgGetKeyType m a.withPrivateKey) n
      fun o k => { o with key1 := k }) := by
    intro n
    refine keeps_allocKey ?_ ?_ op _ n
    · exact fun _ _ => rfl
    · exact fun _ _ => Nat.le_refl _
  have hk2 : ∀ n, Maintains P (allocKey op (teeAlgGetKeyType m a.withPrivateKey) n
      fun o k => { o with key2 := k }) := by
    intro n
    refine keeps_allocKey ?_ ?_ op _ n
    · exact fun _ _ => rfl
    · exact fun _ _ => Nat.le_refl _
  exact Maintains.ite (keeps_andThen (hk _) (hk2 _)) (hk _)

theorem keeps_allocState (op m n : Nat) : Maintains P (allocState c op m n) := by
  unfold allocState
  refine Maintains.bind (keeps_opAt op) fun o => Maintains.bind (keeps_sys _) fun r => ?_
  refine Maintains.ite (Maintains.pure _) (Maintains.bind (keeps_updateOp ?_ ?_) fun _ =>
    Maintains.pure _)
  · exact fun _ => rfl
  · exact fun _ => Nat.le_refl _

theorem keeps_initDigest (op m : Nat) : Maintains P (initDigest c op m) := by
  unfold initDigest
  with_reducible repeat' first | refine Maintains.bind ?_ fun _ => ?_ | refine Maintains.ite ?_ ?_
  all_goals simp

theorem keeps_setInitial (op : Nat) : Maintains P (setInitial op) := by
  unfold setInitial
  exact Maintains.bind (keeps_updateOp (fun _ => rfl) fun _ => Nat.le_refl _) fun _ =>
    Maintains.pure _

end

theorem prepareOperation_spec {op m n k : Nat} {a : Setup} (hw : WellFormed s)
    (hb : s.frame.shapes op = some (.op 0)) :
    wlp (prepareOperation c op a m k n) (fun _ t => Allocating op t) s := by
  have hrest : Maintains (fun s => s.frame.Allocating op) (andThen (setBlockSize op a) <|
      andThen (allocKeys op a m n) <| andThen (allocState c op m k) <|
      andThen (initDigest c op m) (setInitial op)) :=
    keeps_andThen (keeps_setBlockSize op a) <| keeps_andThen (keeps_allocKeys op a m n) <|
    keeps_andThen (keeps_allocState op m k) <|
    keeps_andThen (keeps_initDigest op m) (keeps_setInitial op)
  show wlp (andThen (allocBuffer op a) _) _ s
  unfold andThen
  rw [wlp_bind]
  refine wlp_mono (allocBuffer_spec hw hb) ?_
  intro res t ht
  by_cases hr : res = teeSuccess
  · rw [if_neg (by simp [hr])]
    exact hrest _ ht
  · rw [if_pos hr]
    exact ht

/-- the handle goes, its element may stay -/
theorem abandonOperation_spec {op res : Nat} (hs : Allocating op s) :
    wlp (abandonOperation c op res) (fun _ t => WellFormed t) s := by
  unfold abandonOperation
  by_cases hp : res ≠ teeErrorOutOfMemory ∧ res ≠ teeErrorNotSupported
  · rw [if_pos hp]
    exact trivial
  · obtain ⟨b, hb⟩ := hs.op
    obtain ⟨o, ho, rfl⟩ := frame_op.mp hb
    rw [if_neg hp, wlp_bind, wlp_of_eq (opAt_eq ho)]
    by_cases h0 : o.state ≠ 0
    · rw [if_pos h0]
      exact teeFreeOperation_wellFormed hs.ok
    · rw [if_neg h0, wlp_bind]
      have hn : s.heap.blocks 0 = none := frame_none.mp hs.ok.null
      refine wlp_free hn ?_
      rw [wlp_bind]
      have hkeep : ∀ k, Maintains (fun t => t.frame = s.frame.erase o.buffer)
          (teeFreeTransientObject k) := by
        intro k
        have := stable_frame fun f => f = s.frame.erase o.buffer
        exact keeps_freeTransientObject k
      refine wlp_mono (hkeep o.key1 _ (erase_frame _ _)) ?_
      intro _ t ht
      rw [wlp_bind]
      refine wlp_mono (hkeep o.key2 _ ht) ?_
      intro _ v hf
      have hv0 : v.heap.blocks 0 = none := by
        refine frame_none.mp ?_
        rw [hf, erase_shapes]
        split
        · rfl
        · exact frame_none.mpr hn
      refine wlp_free hv0 ?_
      show (v.erase op).frame.Ok
      rw [erase_frame, hf]
      exact hs.ok.release hb

theorem Frame.erase_put (f : Frame) {a : Nat} (ha : f.shapes a = none) (x : Shape) :
    (f.put a x).erase a = f := by
  show Frame.mk (Function.update (Function.update f.shapes a (some x)) a none) f.elems = f
  rw [Function.update_idem, ← ha, Function.update_eq_self]

theorem Frame.put_put (f : Frame) (a : Nat) (x y : Shape) : (f.put a x).put a y = f.put a y := by
  show Frame.mk (Function.update (Function.update f.shapes a (some x)) a (some y)) f.elems = _
  rw [Function.update_idem]
  rfl

theorem Frame.put_self (f : Frame) {a : Nat} {x : Shape} (ha : f.shapes a = some x) :
    f.put a x = f := by
  show Frame.mk (Function.update f.shapes a (some x)) f.elems = f
  rw [← ha, Function.update_eq_self]

/-- the state in which the handle `op` is registered by the element `e` and has no content -/
def Sys.registered (s : Sys) (op e : Nat) : Sys :=
  let t := ((s.tick.store op (.op Operation.zero)).tick.store e (.elem 0)).store e (.elem op)
  { t with elems := e :: t.elems }

theorem registered_frame (s : Sys) (op e : Nat) :
    (s.registered op e).frame = ((s.frame.put op (.op 0)).put e (.elem op)).insert e := by
  show (((s.tick.store op (.op Operation.zero)).tick.store e (.elem 0)).store e
    (.elem op)).frame.insert e = _
  rw [store_frame_put, store_frame_put]
  show ((((s.tick.store op (.op Operation.zero)).frame.put e (.elem 0)).put e (.elem op)).insert e) = _
  rw [Frame.put_put, store_frame_put]
  rfl

theorem Readable.notMem {a : Nat} (hr : Readable s) (ha : s.heap.blocks a = none) :
    a ∉ s.elems := by
  intro hm
  obtain ⟨x, hx⟩ := hr a hm
  rw [ha] at hx
  cases hx

theorem Readable.store {a : Nat} (hr : Readable s) (ha : a ∉ s.elems) (b : Block) :
    Readable (s.store a b) := by
  intro e he
  obtain ⟨x, hx⟩ := hr e he
  refine ⟨x, ?_⟩
  rw [store_of_ne]
  · exact hx
  · rintro rfl
    exact ha he

/-- the steps of `TEE_AllocateOperation` that register a handle -/
theorem insertElem_registered {op e : Nat} (hr : Readable s) (hop : s.heap.blocks op = none)
    (he : s.heap.blocks e = none) :
    insertElem e (((s.tick.store op (.op Operation.zero)).tick.store e (.elem 0)).store e
      (.elem op)) = .ok ((), s.registered op e) := by
  have h1 : Readable (s.tick.store op (.op Operation.zero)).tick :=
    Readable.store (s := s.tick) hr (hr.notMem hop) _
  exact insertElem_eq ((h1.store (hr.notMem he) _).store (hr.notMem he) _) e

/-- a registered handle whose fields are set -/
theorem registered_wellFormed (hw : WellFormed s) {op e : Nat} (hop0 : op ≠ 0)
    (hop : s.heap.blocks op = none) (he0 : e ≠ 0) (he : s.heap.blocks e = none) (hne : e ≠ op)
    {o : Operation} (ho : o.buffer = 0) :
    WellFormed ((s.registered op e).store op (.op o)) ∧
      ((s.registered op e).store op (.op o)).frame.shapes op = some (.op 0) := by
  have hop' : (s.registered op e).frame.shapes op = some (.op 0) := by
    rw [registered_frame]
    show ((s.frame.put op (.op 0)).put e (.elem op)).shapes op = _
    rw [put_shapes, put_shapes, if_neg hne.symm, if_pos rfl]
  have hfr : ((s.registered op e).store op (.op o)).frame = (s.registered op e).frame := by
    rw [store_frame_put]
    refine Frame.put_self _ ?_
    rw [hop', Block.shape, ho]
  refine ⟨?_, by rw [hfr, hop']⟩
  show Frame.Ok _
  rw [hfr, registered_frame]
  exact Frame.Ok.register hw (frame_none.mpr hop) hop0 (frame_none.mpr he) he0 hne

theorem registerOperation_wellFormed {m n k : Nat} {a : Setup} (hw : WellFormed s) :
    wlp (registerOperation c a m k n) (fun _ t => WellFormed t) s := by
  unfold registerOperation
  rw [wlp_bind]
  refine wlp_malloc ?_ ?_
  · intro _
    rw [if_pos rfl]
    exact hw
  · intro op hop0 hop
    rw [if_neg hop0, wlp_bind]
    have hn : (s.tick.store op (.op Operation.zero)).heap.blocks 0 = none := by
      rw [store_of_ne _ hop0.symm]
      exact hw.null
    refine wlp_malloc ?_ ?_
    · intro _
      rw [if_pos rfl, wlp_bind]
      refine wlp_free hn ?_
      show Frame.Ok _
      rw [erase_frame]
      show ((s.tick.store op (.op Operation.zero)).frame.erase op).Ok
      rw [store_frame_put]
      exact (Frame.erase_put s.frame (frame_none.mpr hop) _).symm ▸ hw
    · intro e he0 he
      have hne : e ≠ op := by
        rintro rfl
        rw [store_self] at he
        cases he
      have he' : s.heap.blocks e = none := (store_of_ne (s := s.tick) _ hne).symm.trans he
      obtain ⟨hreg, hop'⟩ := registered_wellFormed hw hop0 hop he0 he' hne
        (o := Operation.start a m k n) rfl
      rw [if_neg he0, wlp_bind]
      show wlp (insertElem e >>= _) _ _
      rw [wlp_bind, wlp_of_eq (insertElem_registered hw.readable hop he'), wlp_bind]
      show wlp (prepareOperation c op a m k n >>= _) _
        ((s.registered op e).store op (.op (Operation.start a m k n)))
      rw [wlp_bind]
      refine wlp_mono (prepareOperation_spec hreg hop') ?_
      intro res t ht
      by_cases hr : res ≠ teeSuccess
      · rw [if_pos hr, wlp_bind]
        exact wlp_mono (abandonOperation_spec ht) fun _ _ hu => hu
      · rw [if_neg hr]
        exact ht.ok

theorem teeAllocateOperation_wellFormed {p : Bool} {m n k : Nat} (hw : WellFormed s) :
    wlp (teeAllocateOperation c p m k n) (fun _ t => WellFormed t) s := by
  unfold teeAllocateOperation
  by_cases hp : p = false
  · rw [if_pos hp]
    exact trivial
  · rw [if_neg hp]
    by_cases hk : maxKeySizeOk m n = false
    · rw [if_pos hk]
      exact hw
    · rw [if_neg hk]
      cases setupOf m k with
      | none => exact hw
      | some a => exact registerOperation_wellFormed hw

/-- **Every call keeps the registry well formed.** -/
theorem entry_wellFormed (hw : WellFormed s) (e : Entry) :
    wlp (entry c e) (fun _ t => WellFormed t) s := by
  have hk : ∀ {x : O Nat}, Maintains WellFormed x → wlp x (fun _ t => WellFormed t) s :=
    fun hx => hx s hw
  cases e with
  | allocateOperation p a m n =>
    show wlp (teeAllocateOperation c p a m n >>= fun r => pure r.1) _ s
    rw [wlp_bind]
    exact teeAllocateOperation_wellFormed hw
  | freeOperation h =>
    show wlp (teeFreeOperation c h >>= fun _ => pure teeSuccess) _ s
    rw [wlp_bind]
    exact teeFreeOperation_wellFormed hw
  | getOperationInfo h i => exact hk (Maintains.map _ (keeps_getOperationInfo i))
  | getOperationInfoMultiple h i n => exact hk (Maintains.map _ (keeps_getOperationInfoMultiple i n))
  | resetOperation h => exact hk (Maintains.map _ (keeps_resetOperation h))
  | setOperationKey h k => exact hk (keeps_teeSetOperationKey k)
  | setOperationKey2 h k l => exact hk (keeps_teeSetOperationKey2 k l)
  | copyOperation d k => exact hk (Maintains.map _ (keeps_copyOperation d k))
  | digestUpdate h p n => exact hk (Maintains.map _ (keeps_digestUpdate p n))
  | digestDoFinal h p n o l => exact hk (Maintains.map _ (keeps_teeDigestDoFinal p n o l))
  | cipherInit h p n => exact hk (Maintains.map _ (keeps_cipherInit p n))
  | cipherUpdate h p n o l => exact hk (Maintains.map _ (keeps_teeCipherUpdate p n o l))
  | cipherDoFinal h p n o l => exact hk (Maintains.map _ (keeps_teeCipherDoFinal p n o l))
  | macInit h => exact hk (Maintains.map _ (keeps_macInit h))
  | macUpdate h p n => exact hk (Maintains.map _ (keeps_macUpdate p n))
  | macComputeFinal h p n o l => exact hk (Maintains.map _ (keeps_teeMacComputeFinal p n o l))
  | macCompareFinal h p n m l => exact hk (keeps_teeMacCompareFinal p n m l)
  | aeInit h p n k => exact hk (keeps_teeAeInit p n k)
  | aeUpdateAad h p n => exact hk (Maintains.map _ (keeps_aeUpdateAad p n))
  | aeUpdate h p n o l => exact hk (Maintains.map _ (keeps_teeAeUpdate p n o l))

end MTower.Oper
