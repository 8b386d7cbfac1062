import MTower.Kernel.Requests

/-!
# Looking a TA up by its UUID

The heads of the registered TAs are the linker section between `__start_…` and `__stop_…`; the loop
compares the raw bytes of two UUIDs and stops by comparing pointers.

* `HeadSection.lookup`      the loop, on addresses;
* `HeadSection.lookup_eq`   it stays inside the section and finds the first head with that UUID;
* `openSession_binds`       the context a new session gets;
* `openSession_not_found`   an open that finds no head.
-/

set_option linter.unusedVariables false

namespace MTower.Kernel
open Lib

/-! ## the bytes of a UUID -/

/-- the fields are within their C types -/
structure Uuid.Fits (u : Uuid) : Prop where
  timeLow : u.timeLow < 2 ^ 32
  timeMid : u.timeMid < 2 ^ 16
  timeHiAndVersion : u.timeHiAndVersion < 2 ^ 16
  node_length : u.clockSeqAndNode.length = 8
  node_byte : ∀ b ∈ u.clockSeqAndNode, b < 256

/-- a `TEE_UUID` in memory: no padding, little endian words -/
def Uuid.bytes (u : Uuid) : List Nat :=
  [u.timeLow % 256, u.timeLow / 256 % 256, u.timeLow / 65536 % 256, u.timeLow / 16777216 % 256,
    u.timeMid % 256, u.timeMid / 256 % 256,
    u.timeHiAndVersion % 256, u.timeHiAndVersion / 256 % 256] ++ u.clockSeqAndNode

theorem Uuid.bytes_inj {u v : Uuid} (hu : u.Fits) (hv : v.Fits) : u.bytes = v.bytes ↔ u = v := by
  constructor
  · intro h
    obtain ⟨hhead, hnode⟩ := List.append_inj h rfl
    simp only [List.cons.injEq, and_true] at hhead
    obtain ⟨h0, h1, h2, h3, h4, h5, h6, h7⟩ := hhead
    have ulow := hu.timeLow
    have vlow := hv.timeLow
    have umid := hu.timeMid
    have vmid := hv.timeMid
    have uhi := hu.timeHiAndVersion
    have vhi := hv.timeHiAndVersion
    have elow : u.timeLow = v.timeLow := by omega
    have emid : u.timeMid = v.timeMid := by omega
    have ehi : u.timeHiAndVersion = v.timeHiAndVersion := by omega
    cases u
    cases v
    simp only at elow emid ehi hnode
    rw [elow, emid, ehi, hnode]
  · intro h
    rw [h]

/-! ## the sections -/

section
variable {τ : Type}

/-- a section of heads of `size` bytes each -/
structure HeadSection (τ : Type) where
  start : Nat
  size : Nat
  size_pos : 0 < size
  heads : List (TaHead τ)

def HeadSection.stop (s : HeadSection τ) : Nat := s.start + s.size * s.heads.length

/-- the head that `ta` points to; any other pointer reads outside the section -/
def HeadSection.headAt (s : HeadSection τ) (ta : Nat) : Except Fault (TaHead τ) :=
  if s.start ≤ ta ∧ (ta - s.start) % s.size = 0 then
    match s.heads[(ta - s.start) / s.size]? with
    | some h => .ok h
    | none => .error .danglingPointer
  else .error .danglingPointer

/-- the loop of `tee_ta_init_pseudo_ta_session` and `tee_ta_init_user_ta_session` -/
def HeadSection.lookup (s : HeadSection τ) (uuid : Uuid) (ta : Nat) :
    Except Fault (Option (TaHead τ)) :=
  if h : ta ≥ s.stop then .ok none
  else do
    let head ← s.headAt ta
    if head.uuid.bytes = uuid.bytes then .ok (some head) else s.lookup uuid (ta + s.size)
termination_by s.stop - ta
decreasing_by
  have := s.size_pos
  omega

theorem HeadSection.headAt_index (s : HeadSection τ) {n : Nat} (hn : n < s.heads.length) :
    s.headAt (s.start + s.size * n) = .ok s.heads[n] := by
  have hpos := s.size_pos
  unfold headAt
  rw [Nat.add_sub_cancel_left, Nat.mul_mod_right, Nat.mul_div_cancel_left n hpos,
    if_pos ⟨Nat.le_add_right _ _, rfl⟩, List.getElem?_eq_getElem hn]

/-- from head `n` on -/
theorem HeadSection.lookup_from (s : HeadSection τ) {uuid : Uuid} (hu : uuid.Fits)
    (hs : ∀ h ∈ s.heads, h.uuid.Fits) (m n : Nat) (hm : n + m = s.heads.length) :
    s.lookup uuid (s.start + s.size * n) = .ok ((s.heads.drop n).find? fun h => h.uuid = uuid) := by
  induction m generalizing n with
  | zero =>
    have hstop : s.start + s.size * n ≥ s.stop := by
      rw [stop, ← hm, Nat.add_zero]
    rw [lookup, dif_pos hstop, List.drop_eq_nil_of_le (by omega)]
    rfl
  | succ m ih =>
    have hlt : n < s.heads.length := by omega
    have hnot : ¬ s.start + s.size * n ≥ s.stop := by
      have := Nat.mul_lt_mul_of_pos_left hlt s.size_pos
      rw [stop]
      omega
    have hnext : s.start + s.size * n + s.size = s.start + s.size * (n + 1) := by
      rw [Nat.mul_succ, Nat.add_assoc]
    rw [lookup, dif_neg hnot, s.headAt_index hlt, List.drop_eq_getElem_cons hlt, hnext,
      ih (n + 1) (by omega), List.find?_cons]
    show (if s.heads[n].uuid.bytes = uuid.bytes then _ else _) = _
    have hbytes := Uuid.bytes_inj (hs _ (List.getElem_mem hlt)) hu
    by_cases he : s.heads[n].uuid = uuid
    · rw [if_pos (hbytes.mpr he), decide_eq_true he]
    · rw [if_neg fun hb => he (hbytes.mp hb), decide_eq_false he]

/-- **The loop finds the first head**, and reads inside the section. -/
theorem HeadSection.lookup_eq (s : HeadSection τ) {uuid : Uuid} (hu : uuid.Fits)
    (hs : ∀ h ∈ s.heads, h.uuid.Fits) :
    s.lookup uuid s.start = .ok (s.heads.find? fun h => h.uuid = uuid) :=
  s.lookup_from hu hs s.heads.length 0 (Nat.zero_add _)

/-! ## an open -/

/-- `ta` is the first of `heads` with that UUID -/
def FirstWith (uuid : Uuid) (heads : List (TaHead τ)) (ta : TaHead τ) : Prop :=
  ta.uuid = uuid ∧ ∃ before after, heads = before ++ ta :: after ∧ ∀ h ∈ before, h.uuid ≠ uuid

theorem firstWith_iff {uuid : Uuid} {heads : List (TaHead τ)} {ta : TaHead τ} :
    FirstWith uuid heads ta ↔ (heads.find? fun h => h.uuid = uuid) = some ta := by
  rw [List.find?_eq_some_iff_append]
  simp [FirstWith]

theorem findTa_pseudo {tas : Tas τ} {uuid : Uuid} {ta : TaHead τ}
    (h : FirstWith uuid tas.pseudo ta) : findTa tas uuid = some (.pseudoCtx ta) := by
  rw [findTa, firstWith_iff.mp h]

theorem find?_none {uuid : Uuid} {heads : List (TaHead τ)} (h : ∀ ta ∈ heads, ta.uuid ≠ uuid) :
    (heads.find? fun h => h.uuid = uuid) = none := by
  apply List.find?_eq_none.mpr
  intro ta hta
  rw [decide_eq_true_eq]
  exact h ta hta

theorem findTa_user {tas : Tas τ} {uuid : Uuid} {ta : TaHead τ}
    (hp : ∀ h ∈ tas.pseudo, h.uuid ≠ uuid) (h : FirstWith uuid tas.user ta) :
    findTa tas uuid = some (.userCtx ta []) := by
  rw [findTa, find?_none hp, firstWith_iff.mp h]
  rfl

theorem findTa_none {tas : Tas τ} {uuid : Uuid} (hp : ∀ h ∈ tas.pseudo, h.uuid ≠ uuid)
    (hu : ∀ h ∈ tas.user, h.uuid ≠ uuid) : findTa tas uuid = none := by
  rw [findTa, find?_none hp, find?_none hu]
  rfl

variable {k : State τ}

/-- the open made one session, whose context is the new block `c` -/
def Binds (k t : State τ) (c : Block τ) : Prop :=
  ∃ s b, t.openSessions = s :: k.openSessions ∧ t.heap.blocks s = some (.session b) ∧
    t.ctxes = b.ctx :: k.ctxes ∧ k.heap.blocks b.ctx = none ∧ t.heap.blocks b.ctx = some c

/-- **A session of a TA that is found.** -/
theorem openSession_binds {tas : Tas τ} {uuid : Uuid} {c : Block τ} (h : Openable tas k uuid)
    (hc : findTa tas uuid = some c) (param : TeeTaParam) :
    wp (teeTaOpenSession tas .teeOpenSessions uuid param) (fun _ t => Binds k t c) k := by
  obtain ⟨hs0, hsn, hc0, hcn, hne⟩ := h.fresh
  refine wp_mono (openSession_opened h hc param) ?_
  rintro o t ⟨-, -, he⟩
  obtain ⟨u, hu⟩ := he.heap
  refine ⟨k.sessAddr, { ctx := k.ctxAddr, userCtx := u }, ?_, ?_, ?_, hcn, ?_⟩
  · rw [he.openSessions]
    rfl
  · rw [hu]
    exact Function.update_self _ _ _
  · rw [he.ctxes]
    rfl
  · rw [hu]
    show Function.update (k.withNew c).heap.blocks k.sessAddr _ k.ctxAddr = _
    rw [Function.update_of_ne hne]
    exact Function.update_self _ _ _

/-- **An open that finds no TA** takes its session back and makes no context. -/
theorem openSession_not_found {tas : Tas τ} {uuid : Uuid} (hf : ¬ k.heap.Full)
    (hc : findTa tas uuid = none) (param : TeeTaParam) :
    wp (teeTaOpenSession tas .teeOpenSessions uuid param)
      (fun o t => o.res = teeErrorItemNotFound ∧ SameButCalls k t) k := by
  have hl : k.sessions .teeOpenSessions = some k.openSessions := rfl
  rw [teeTaOpenSession, wp_bind, wp_teeTaInitSession hf (State.sessions_withSession hf hl),
    wp_initCtx_none hc]
  refine wp_mono (wp_finishInit_undo (by decide) hf hl rfl) ?_
  rintro r t ⟨rfl, ht⟩
  rw [if_pos (by decide), wp_pure]
  exact ⟨rfl, ht⟩

end

end MTower.Kernel
