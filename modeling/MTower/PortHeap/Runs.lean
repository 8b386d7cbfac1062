import MTower.PortHeap.Calls

/-!
# Runs of the secure heap

The clients call `tee_user_mem_alloc` and `tee_user_mem_free` and write into what they hold, in any
order.  Beside the state a book is kept of what they know: the pointers they hold with the lengths they
asked for, the bytes they expect there, and what was called and answered.

* `Ready`        the tiling, also before the first call has made it;
* `call_effect`  what a call can do, in terms of the blocks;
* `Good`         the invariant of the runs.
-/

set_option linter.unusedVariables false

namespace MTower.PortHeap
open Lib Lib.Chunks

/-! ## calls -/

inductive Call where
  | alloc (len hint : Nat)
  | free (buffer : Nat)
  | write (a : Nat) (b : UInt8)
deriving DecidableEq

def call (c : Config) : Call → M Nat
  | .alloc len hint => teeUserMemAlloc c len hint
  | .free buffer => do
    teeUserMemFree c buffer
    pure 0
  | .write a b => do
    modify fun s => s.withMem (Function.update s.mem a b)
    pure 0

/-! ## the invariant of the state -/

/-- the usable bytes -/
def capacity (c : Config) : Nat := endAddress c - pucAlignedHeap c

/-- cut into the blocks `cs`, or not yet cut -/
def Ready (c : Config) (s : State) (cs : List Chunk) : Prop :=
  Tiled c s cs ∨ (∃ m, s = .boot m) ∧ cs = [⟨capacity c, true⟩]

section
variable {c : Config} {s : State} {cs l1 l2 : List Chunk} {k n : Nat}

theorem Tiled.free_le (h : Tiled c s cs) : s.xFreeBytesRemaining ≤ capacity c := by
  have h1 := freeBytes_le_total cs
  have h2 := h.tiles
  rw [h.bytes, capacity]
  omega

/-- the payload of a block in use is its owner's -/
theorem Tiled.payload (hc : c.Fits) (h : Tiled c s cs) {u : Node} {m : Mem}
    (hu : u ∈ taken (pucAlignedHeap c) cs)
    (hm : ∀ a, ¬ (u.1 + 8 ≤ a ∧ a < u.1 + u.2) → m a = s.mem a) : Tiled c (s.withMem m) cs := by
  obtain ⟨-, -, hlo, -, hfin⟩ := bounds hc
  have hhead := hc.head_apart
  obtain ⟨-, hu16, hu1, hu2⟩ := taken_bounds hu h.tiles h.sized
  have hlast : m.load32 s.pxEnd = s.mem.load32 s.pxEnd ∧
      m.load32 (s.pxEnd + 4) = s.mem.load32 (s.pxEnd + 4) := by
    rw [h.pxEnd]
    apply header_congr
    intro a ha
    rw [header_has] at ha
    exact hm a (by omega)
  refine ⟨h.pxEnd, h.tiles, ?_, ⟨hlast.1.trans h.last.1, hlast.2.trans h.last.2⟩, ?_, h.sized, h.merged,
    h.bit, h.bytes⟩
  · refine h.linked.congr fun g hg a ha => hm a ?_
    rw [header_has] at ha
    rcases List.mem_cons.mp hg with rfl | hg
    · dsimp only at ha
      omega
    · have hapart := gap_apart hg hu
      have h16 := (gap_bounds hg h.tiles h.sized).2.1.2
      omega
  · intro v hv
    have hsame : m.load32 v.1 = s.mem.load32 v.1 ∧ m.load32 (v.1 + 4) = s.mem.load32 (v.1 + 4) := by
      apply header_congr
      intro a ha
      rw [header_has] at ha
      apply hm
      have h16 := (taken_bounds hv h.tiles h.sized).2.1.2
      rcases eq_or_ne v u with rfl | hne
      · omega
      · have hapart := taken_apart hv hu hne
        omega
    exact ⟨hsame.1.trans (h.used v hv).1, hsame.2.trans (h.used v hv).2⟩

/-! ## what a call does -/

/-- what `pvPortMalloc` does to the blocks `cs`, seen from the state `s` before it -/
structure Malloced (c : Config) (s : State) (cs : List Chunk) (n r : Nat) (t : State) : Prop where
  started : t.pxEnd ≠ 0
  untouched : Untouched (pucAlignedHeap c) cs s.mem t.mem
  frees : t.xNumberOfSuccessfulFrees = s.xNumberOfSuccessfulFrees
  minimum : s.pxEnd = 0 ∧ t.xMinimumEverFreeBytesRemaining = t.xFreeBytesRemaining ∨
    s.pxEnd ≠ 0 ∧ t.xMinimumEverFreeBytesRemaining =
      min s.xMinimumEverFreeBytesRemaining t.xFreeBytesRemaining
  outcome : (r = 0 ∧ Tiled c t cs ∧
      t.xNumberOfSuccessfulAllocations = s.xNumberOfSuccessfulAllocations ∧
      (n = 0 ∨ 2 ^ 31 ≤ n ∨ ∀ g ∈ gaps (pucAlignedHeap c) cs, g.2 < blockSize n)) ∨
    (0 < n ∧ n < 2 ^ 31 ∧
      t.xNumberOfSuccessfulAllocations = add s.xNumberOfSuccessfulAllocations 1 ∧
      ∃ l1 k l2, cs = l1 ++ ⟨k, true⟩ :: l2 ∧ blockSize n ≤ k ∧
        r = pucAlignedHeap c + total l1 + 8 ∧
        Tiled c t (l1 ++ carve heapMINIMUM_BLOCK_SIZE (blockSize n) k ++ l2))

theorem malloc_tiled (hc : c.Fits) (h : Tiled c s cs)
    (hlow : s.xMinimumEverFreeBytesRemaining ≤ s.xFreeBytesRemaining) (hn : n < 2 ^ 32) :
    wp (pvPortMalloc c n) (fun r t => Malloced c s cs n r t) s := by
  have hne := tiled_pxEnd_ne hc h
  refine wp_mono (pvPortMalloc_spec hc h hn) ?_
  rintro r t (⟨rfl, rfl, hwhy⟩ | ⟨h0, htop, l1, k, l2, ha⟩)
  · exact ⟨hne, fun u _ a _ _ => rfl, rfl, Or.inr ⟨hne, (min_eq_left hlow).symm⟩,
      Or.inl ⟨rfl, h, rfl, hwhy⟩⟩
  · exact ⟨tiled_pxEnd_ne hc ha.tiled, ha.untouched, ha.frees, Or.inr ⟨hne, ha.minimum⟩,
      Or.inr ⟨h0, htop, ha.allocations, l1, k, l2, ha.chunks, ha.fits, ha.pointer, ha.tiled⟩⟩

/-- the first call cuts the array and then does what every call does -/
theorem malloc_first {t : State} (hs : s.pxEnd = 0) (ht : t.pxEnd ≠ 0)
    (hinit : prvHeapInit c s = .ok ((), t)) : pvPortMalloc c n s = pvPortMalloc c n t := by
  have h1 : heapInitialised c s = .ok ((), t) := by
    show (if s.pxEnd = 0 then prvHeapInit c else pure ()) s = _
    rw [if_pos hs, hinit]
  have h2 : heapInitialised c t = .ok ((), t) := by
    show (if t.pxEnd = 0 then prvHeapInit c else pure ()) t = _
    rw [if_neg ht]
    rfl
  rw [pvPortMalloc, bind_of_ok h1, bind_of_ok h2]

/-- **What `pvPortMalloc` does**, also when it is the first call. -/
theorem malloc_effect (hc : c.Fits) (h : Ready c s cs)
    (hlow : s.xMinimumEverFreeBytesRemaining ≤ s.xFreeBytesRemaining) (hn : n < 2 ^ 32) :
    wp (pvPortMalloc c n) (fun r t => Malloced c s cs n r t) s := by
  rcases h with h | ⟨⟨m, rfl⟩, rfl⟩
  · exact malloc_tiled hc h hlow hn
  · obtain ⟨⟨⟩, t, hinit, ht, hmin, hallocs, hfrees⟩ := wp_iff.mp
      (prvHeapInit_spec (s := .boot m) hc)
    have hrest := malloc_tiled hc ht (Nat.le_of_eq hmin) hn
    have heq : pvPortMalloc c n (.boot m) = pvPortMalloc c n t :=
      malloc_first rfl (tiled_pxEnd_ne hc ht) hinit
    unfold wp at hrest ⊢
    rw [heq]
    cases hrun : pvPortMalloc c n t with
    | error e =>
      rw [hrun] at hrest
      exact hrest
    | ok p =>
      rw [hrun] at hrest
      obtain ⟨h1, h2, h3, h4, h5⟩ := hrest
      refine ⟨h1, fun u hu => absurd hu List.not_mem_nil, h3.trans hfrees, Or.inl ⟨rfl, ?_⟩, ?_⟩
      · have hle : p.2.xFreeBytesRemaining ≤ capacity c := by
          rcases h5 with ⟨-, h5, -⟩ | ⟨-, -, -, l1, k, l2, -, -, -, h5⟩
          · exact h5.free_le
          · exact h5.free_le
        have hfull : t.xFreeBytesRemaining = capacity c := ht.bytes.trans (Nat.add_zero _)
        rcases h4 with ⟨-, h4⟩ | ⟨-, h4⟩
        · exact h4
        · rw [h4, hmin, hfull, min_eq_right hle]
      · rw [hallocs] at h5
        exact h5

/-- how the lowest number of free bytes goes on -/
def Lowered (s t : State) : Prop :=
  s.pxEnd = 0 ∧ t.pxEnd = 0 ∨
    t.pxEnd ≠ 0 ∧ (s.pxEnd = 0 ∧ t.xMinimumEverFreeBytesRemaining = t.xFreeBytesRemaining ∨
      s.pxEnd ≠ 0 ∧ t.xMinimumEverFreeBytesRemaining =
        min s.xMinimumEverFreeBytesRemaining t.xFreeBytesRemaining)

theorem Lowered.refl (hlow : s.xMinimumEverFreeBytesRemaining ≤ s.xFreeBytesRemaining) :
    Lowered s s := by
  by_cases h : s.pxEnd = 0
  · exact Or.inl ⟨h, h⟩
  · exact Or.inr ⟨h, Or.inr ⟨h, (min_eq_left hlow).symm⟩⟩

/-- an allocation that succeeded: the first block that is large enough was carved -/
structure Carved (c : Config) (s : State) (cs : List Chunk) (n r : Nat) (t : State)
    (l1 : List Chunk) (k : Nat) (l2 : List Chunk) : Prop where
  chunks : cs = l1 ++ ⟨k, true⟩ :: l2
  pos : 0 < n
  small : n < 2 ^ 31
  fits : blockSize n ≤ k
  pointer : r = pucAlignedHeap c + total l1 + 8
  tiled : Tiled c t (l1 ++ carve heapMINIMUM_BLOCK_SIZE (blockSize n) k ++ l2)
  allocations : t.xNumberOfSuccessfulAllocations = add s.xNumberOfSuccessfulAllocations 1

/-- the new block is in use -/
theorem Carved.mem_taken {r : Nat} {t : State} (h : Carved c s cs n r t l1 k l2) :
    (pucAlignedHeap c + total l1, given k (blockSize n)) ∈
      taken (pucAlignedHeap c) (l1 ++ carve heapMINIMUM_BLOCK_SIZE (blockSize n) k ++ l2) := by
  rw [taken_taken_block _ _ _ _ _ h.fits]
  simp

theorem Carved.room {r : Nat} {t : State} (h : Carved c s cs n r t l1 k l2) :
    n + 8 ≤ given k (blockSize n) := by
  have h1 := (blockSize_sized h.pos h.small).2
  have h2 := h.fits
  rw [given]
  split <;> omega

/-- **What `tee_user_mem_alloc` does.** -/
theorem alloc_effect {hint : Nat} (hc : c.Fits) (h : Ready c s cs)
    (hlow : s.xMinimumEverFreeBytesRemaining ≤ s.xFreeBytesRemaining) (hn : n < 2 ^ 32) :
    wp (teeUserMemAlloc c n hint) (fun r t => Lowered s t ∧
      Untouched (pucAlignedHeap c) cs s.mem t.mem ∧
      t.xNumberOfSuccessfulFrees = s.xNumberOfSuccessfulFrees ∧
      ((r = 0 ∧ Ready c t cs ∧
        t.xNumberOfSuccessfulAllocations = s.xNumberOfSuccessfulAllocations) ∨
      (hint = teeMallocFillZero → ∀ a, (Range.mk r n).Has a → t.mem a = 0) ∧
        ∃ l1 k l2, Carved c s cs n r t l1 k l2)) s := by
  rw [teeUserMemAlloc]
  by_cases hhint : hint = teeMallocFillZero ∨ hint = teeUserMemHintNoFillZero
  · rw [if_pos hhint, wp_bind]
    refine wp_mono (malloc_effect hc h hlow hn) ?_
    rintro r t ⟨hstarted, huntouched, hfrees, hmin, ⟨rfl, ht, hallocs, -⟩ |
      ⟨h0, htop, hallocs, l1, k, l2, rfl, hfit, hr, ht⟩⟩
    · rw [filled, if_pos rfl, wp_pure]
      exact ⟨Or.inr ⟨hstarted, hmin⟩, huntouched, hfrees, Or.inl ⟨rfl, Or.inl ht, hallocs⟩⟩
    · have hcarved : Carved c s (l1 ++ ⟨k, true⟩ :: l2) n r t l1 k l2 :=
        ⟨rfl, h0, htop, hfit, hr, ht, hallocs⟩
      have hmem := hcarved.mem_taken
      have hroom := hcarved.room
      obtain ⟨-, -, hb1, hb2⟩ := taken_bounds hmem ht.tiles ht.sized
      obtain ⟨-, -, hlo, -, hfin⟩ := bounds hc
      dsimp only at hb1 hb2
      rw [filled, if_neg (by omega)]
      by_cases hzero : hint = teeMallocFillZero
      · have hwithin : (Range.mk r n).Within c.ucHeap (c.ucHeap + c.configTOTAL_HEAP_SIZE) := by
          constructor
          · dsimp only
            omega
          · simp only [Range.stop]
            omega
        rw [if_pos hzero, wp_bind, zeroFill, if_pos hwithin, wp_modify, wp_pure]
        have hpayload : ∀ a, ¬ (pucAlignedHeap c + total l1 + 8 ≤ a ∧
            a < pucAlignedHeap c + total l1 + given k (blockSize n)) →
            t.mem.overlay ⟨r, n⟩ (fun _ => 0) a = t.mem a := by
          intro a ha
          apply Mem.overlay_out
          rw [Range.has_mk]
          omega
        refine ⟨Or.inr ⟨hstarted, hmin⟩, ?_, hfrees, Or.inr ⟨fun _ a ha => Mem.overlay_in t.mem (fun _ => 0) ha,
          l1, k, l2, rfl, h0, htop, hfit, hr, ht.payload hc hmem hpayload, hallocs⟩⟩
        -- what is filled was free
        intro u hu a h1 h2
        have hgap : (pucAlignedHeap c + total l1, k) ∈
            gaps (pucAlignedHeap c) (l1 ++ ⟨k, true⟩ :: l2) := by simp [gaps_append, gaps_free]
        have hapart := gap_apart hgap hu
        have hgiven : given k (blockSize n) ≤ k := by
          rw [given]
          split
          · exact hfit
          · exact Nat.le_refl k
        dsimp only at hapart
        exact (hpayload a (by omega)).trans (huntouched u hu a h1 h2)
      · rw [if_neg hzero, wp_pure]
        exact ⟨Or.inr ⟨hstarted, hmin⟩, huntouched, hfrees, Or.inr ⟨fun h => absurd h hzero, l1, k, l2, hcarved⟩⟩
  · rw [if_neg hhint, wp_pure]
    exact ⟨Lowered.refl hlow, fun u _ a _ _ => rfl, rfl, Or.inl ⟨rfl, h, rfl⟩⟩

/-- **What `tee_user_mem_free` does** with a pointer that a client holds. -/
theorem free_effect {p : Nat} (hc : c.Fits) (h : Ready c s cs)
    (hlow : s.xMinimumEverFreeBytesRemaining ≤ s.xFreeBytesRemaining)
    (hp : p ≠ 0 → ∃ l1 k l2, cs = l1 ++ ⟨k, false⟩ :: l2 ∧ p = pucAlignedHeap c + total l1 + 8) :
    wp (teeUserMemFree c p) (fun _ t => Lowered s t ∧
      t.xNumberOfSuccessfulAllocations = s.xNumberOfSuccessfulAllocations ∧
      ((p = 0 ∧ t = s) ∨
      p ≠ 0 ∧ t.xNumberOfSuccessfulFrees = add s.xNumberOfSuccessfulFrees 1 ∧
        ∃ l1 k l2, cs = l1 ++ ⟨k, false⟩ :: l2 ∧ p = pucAlignedHeap c + total l1 + 8 ∧
          Tiled c t (merged (l1 ++ ⟨k, true⟩ :: l2)) ∧
          Untouched (pucAlignedHeap c) (l1 ++ ⟨k, true⟩ :: l2) s.mem t.mem)) s := by
  rw [teeUserMemFree]
  by_cases h0 : p = 0
  · rw [vPortFree, if_neg (not_not.mpr h0), wp_pure]
    exact ⟨Lowered.refl hlow, rfl, Or.inl ⟨h0, rfl⟩⟩
  · obtain ⟨l1, k, l2, rfl, rfl⟩ := hp h0
    rcases h with h | ⟨-, h⟩
    · refine wp_mono (vPortFree_spec hc h) ?_
      rintro u t ⟨h1, h2, h3, h4, h5, h6⟩
      refine ⟨Or.inr ⟨tiled_pxEnd_ne hc h1, Or.inr ⟨tiled_pxEnd_ne hc h, ?_⟩⟩, h5,
        Or.inr ⟨h0, h6, l1, k, l2, rfl, rfl, h1, h2⟩⟩
      rw [h3, h4, min_eq_left (Nat.le_trans hlow (Nat.le_add_right _ _))]
    · -- nothing is in use before the first call
      have hmem : (⟨k, false⟩ : Chunk) ∈ [⟨capacity c, true⟩] := by
        rw [← h]
        simp
      simp at hmem

end

/-! ## the book -/

/-- what the clients hold and expect, what was called and answered, and how many bytes were free -/
structure Book where
  live : List (Nat × Nat)
  view : Mem
  calls : List Call
  outs : List Nat
  lows : List Nat

def Book.start (m : Mem) : Book := ⟨[], m, [], [], []⟩

/-- an answer that is not null is held until it is given back -/
def liveAfter (x : Call) (r : Nat) (live : List (Nat × Nat)) : List (Nat × Nat) :=
  match x with
  | .alloc len _ => if r = 0 then live else (r, len) :: live
  | .free p => live.filter fun q => q.1 ≠ p
  | .write _ _ => live

/-- zeros are expected where they were asked for, and what was written -/
def viewAfter (x : Call) (r : Nat) (m : Mem) (view : Mem) : Mem :=
  match x with
  | .alloc len hint =>
    if r = 0 then view
    else view.overlay ⟨r, len⟩ (if hint = teeMallocFillZero then fun _ => 0 else m)
  | .free _ => view
  | .write a v => Function.update view a v

def outsAfter (x : Call) (r : Nat) (outs : List Nat) : List Nat :=
  match x with
  | .alloc _ _ => outs ++ [r]
  | .free _ => outs
  | .write _ _ => outs

def note (x : Call) (r : Nat) (s t : State) (b : Book) : Book where
  live := liveAfter x r b.live
  view := viewAfter x r t.mem b.view
  calls := b.calls ++ [x]
  outs := outsAfter x r b.outs
  lows := if t.pxEnd = 0 then b.lows else t.xFreeBytesRemaining :: b.lows

abbrev World := State × Book

def World.boot (m : Mem) : World := (.boot m, .start m)

def step (c : Config) (x : Call) : Exec Fault World Nat := ghost (note x) (call c x)

/-- sizes are `size_t`, a pointer that is freed is held or null, and clients write where they hold -/
def Behaves (x : Call) (w : World) : Prop :=
  match x with
  | .alloc len _ => len < 2 ^ 32
  | .free p => p = 0 ∨ ∃ n, (p, n) ∈ w.2.live
  | .write a _ => ∃ r ∈ w.2.live, (Range.mk r.1 r.2).Has a

/-! ## holding -/

/-- what is held are the payloads of the blocks in use -/
structure Holds (T : List Node) (live : List (Nat × Nat)) : Prop where
  nodup : (live.map Prod.fst).Nodup
  block : ∀ r ∈ live, ∃ u ∈ T, r.1 = u.1 + 8 ∧ 0 < r.2 ∧ r.2 + 8 ≤ u.2
  owner : ∀ u ∈ T, ∃ n, (u.1 + 8, n) ∈ live

section
variable {A B : List Node} {u : Node} {live : List (Nat × Nat)} {n : Nat}

theorem Holds.take (h : Holds (A ++ B) live) (hu : ∀ v ∈ A ++ B, v.1 ≠ u.1) (hn : 0 < n)
    (hfit : n + 8 ≤ u.2) : Holds (A ++ u :: B) ((u.1 + 8, n) :: live) := by
  refine ⟨?_, ?_, ?_⟩
  · rw [List.map_cons, List.nodup_cons]
    refine ⟨fun hmem => ?_, h.nodup⟩
    obtain ⟨r, hr, hru⟩ := List.mem_map.mp hmem
    obtain ⟨v, hv, hrv, -⟩ := h.block r hr
    exact hu v hv (by dsimp only at hru; omega)
  · rw [List.forall_mem_cons]
    refine ⟨⟨u, by simp, rfl, hn, hfit⟩, fun r hr => ?_⟩
    obtain ⟨v, hv, hrest⟩ := h.block r hr
    refine ⟨v, ?_, hrest⟩
    rw [List.mem_append, List.mem_cons]
    exact (List.mem_append.mp hv).imp_right Or.inr
  · intro v hv
    rw [List.mem_append, List.mem_cons] at hv
    rcases hv with hv | rfl | hv
    · obtain ⟨m, hm⟩ := h.owner v (List.mem_append_left _ hv)
      exact ⟨m, List.mem_cons_of_mem _ hm⟩
    · exact ⟨n, List.mem_cons_self⟩
    · obtain ⟨m, hm⟩ := h.owner v (List.mem_append_right _ hv)
      exact ⟨m, List.mem_cons_of_mem _ hm⟩

theorem Holds.drop (h : Holds (A ++ u :: B) live) (hu : ∀ v ∈ A ++ B, v.1 ≠ u.1) :
    Holds (A ++ B) (live.filter fun q => q.1 ≠ u.1 + 8) := by
  refine ⟨?_, ?_, ?_⟩
  · exact h.nodup.sublist (List.filter_sublist.map _)
  · intro r hr
    obtain ⟨hr, hne⟩ := List.mem_filter.mp hr
    obtain ⟨v, hv, hrest⟩ := h.block r hr
    refine ⟨v, ?_, hrest⟩
    rw [List.mem_append, List.mem_cons] at hv
    rw [List.mem_append]
    rcases hv with hv | rfl | hv
    · exact Or.inl hv
    · exact absurd hrest.1 (by simpa using hne)
    · exact Or.inr hv
  · intro v hv
    obtain ⟨m, hm⟩ := h.owner v (by
      rw [List.mem_append, List.mem_cons]
      exact (List.mem_append.mp hv).imp_right Or.inr)
    refine ⟨m, List.mem_filter.mpr ⟨hm, ?_⟩⟩
    have hne := hu v hv
    simp
    exact hne

end

/-! ## the invariant of the runs -/

/-- calls that give something back -/
def Call.gives : Call → Bool
  | .alloc _ _ => false
  | .free p => p != 0
  | .write _ _ => false

/-- the lowest number of free bytes is the least of those that were seen -/
def Lowest (s : State) (lows : List Nat) : Prop :=
  (s.pxEnd = 0 → lows = []) ∧ (s.pxEnd ≠ 0 → s.xMinimumEverFreeBytesRemaining ∈ lows ∧
    ∀ x ∈ lows, s.xMinimumEverFreeBytesRemaining ≤ x)

structure Good (c : Config) (w : World) (cs : List Chunk) : Prop where
  ready : Ready c w.1 cs
  holds : Holds (taken (pucAlignedHeap c) cs) w.2.live
  view : ∀ r ∈ w.2.live, ∀ a, (Range.mk r.1 r.2).Has a → w.1.mem a = w.2.view a
  low : w.1.xMinimumEverFreeBytesRemaining ≤ w.1.xFreeBytesRemaining
  lows : Lowest w.1 w.2.lows
  allocations : w.1.xNumberOfSuccessfulAllocations = (w.2.outs.filter (· ≠ 0)).length % 2 ^ 32
  frees : w.1.xNumberOfSuccessfulFrees = (w.2.calls.filter Call.gives).length % 2 ^ 32

theorem Good.boot (c : Config) (m : Mem) : Good c (.boot m) [⟨capacity c, true⟩] where
  ready := Or.inr ⟨⟨m, rfl⟩, rfl⟩
  holds := ⟨.nil, fun r hr => absurd hr List.not_mem_nil, fun u hu => absurd hu List.not_mem_nil⟩
  view := fun r hr => absurd hr List.not_mem_nil
  low := Nat.le_refl 0
  lows := ⟨fun _ => rfl, fun h => absurd rfl h⟩
  allocations := rfl
  frees := rfl

section
variable {c : Config} {s t : State} {cs : List Chunk} {live : List (Nat × Nat)}

/-- the lowest number after one more call -/
theorem Lowest.next {lows : List Nat} (h : Lowest s lows) (ht : Lowered s t) :
    Lowest t (if t.pxEnd = 0 then lows else t.xFreeBytesRemaining :: lows) ∧
      (t.pxEnd ≠ 0 → t.xMinimumEverFreeBytesRemaining ≤ t.xFreeBytesRemaining) := by
  rcases ht with ⟨hs, ht⟩ | ⟨ht, ⟨hs, hmin⟩ | ⟨hs, hmin⟩⟩
  · rw [if_pos ht]
    exact ⟨⟨fun _ => h.1 hs, fun hne => absurd ht hne⟩, fun hne => absurd ht hne⟩
  · rw [if_neg ht, h.1 hs, hmin]
    refine ⟨⟨fun heq => absurd heq ht, fun _ => ?_⟩, fun _ => Nat.le_refl _⟩
    rw [hmin]
    simp
  · obtain ⟨hmem, hle⟩ := h.2 hs
    rw [if_neg ht, hmin]
    refine ⟨⟨fun heq => absurd heq ht, fun _ => ?_⟩, fun _ => min_le_right _ _⟩
    rw [hmin, List.forall_mem_cons]
    refine ⟨?_, min_le_right _ _, fun x hx => Nat.le_trans (min_le_left _ _) (hle x hx)⟩
    rcases min_choice s.xMinimumEverFreeBytesRemaining t.xFreeBytesRemaining with hc | hc
    · rw [hc]
      exact List.mem_cons_of_mem _ hmem
    · rw [hc]
      exact List.mem_cons_self

/-- before the first call the numbers are zero -/
theorem Ready.low (hc : c.Fits) (h : Ready c s cs)
    (hs : s.pxEnd ≠ 0 → s.xMinimumEverFreeBytesRemaining ≤ s.xFreeBytesRemaining) :
    s.xMinimumEverFreeBytesRemaining ≤ s.xFreeBytesRemaining := by
  rcases h with h | ⟨⟨m, rfl⟩, -⟩
  · exact hs (tiled_pxEnd_ne hc h)
  · exact Nat.le_refl 0

theorem Ready.tiles (hc : c.Fits) (h : Ready c s cs) :
    pucAlignedHeap c + total cs = endAddress c ∧ ∀ d ∈ cs, Sized d.size := by
  rcases h with h | ⟨-, rfl⟩
  · exact ⟨h.tiles, h.sized⟩
  · obtain ⟨h8, he8, -, hle, -⟩ := bounds hc
    have hcap : capacity c = endAddress c - pucAlignedHeap c := rfl
    constructor
    · rw [total_cons, total_nil, hcap]
      dsimp only
      omega
    · intro d hd
      rw [List.mem_singleton.mp hd, Sized, hcap]
      dsimp only
      omega

/-- where a block that is held lies -/
theorem Holds.block_at (h : Holds (taken (pucAlignedHeap c) cs) live) {p n : Nat}
    (hp : (p, n) ∈ live) : ∃ l1 k l2, cs = l1 ++ ⟨k, false⟩ :: l2 ∧
      p = pucAlignedHeap c + total l1 + 8 := by
  obtain ⟨u, hu, hpu, -⟩ := h.block _ hp
  obtain ⟨l1, l2, hcs, ha⟩ := taken_split (a := u.1) (k := u.2) hu
  exact ⟨l1, u.2, l2, hcs, by rw [← ha]; exact hpu⟩

/-- the blocks around one do not start where it does -/
theorem starts_ne {lo k : Nat} {l1 l2 : List Chunk} (hk : 0 < k)
    (hs : ∀ d ∈ l1, 0 < d.size) :
    ∀ v ∈ taken lo l1 ++ taken (lo + total l1 + k) l2, v.1 ≠ lo + total l1 := by
  intro v hv
  rcases List.mem_append.mp hv with hv | hv
  · have h1 := (mem_taken_bounds hv).2
    have h2 := hs _ (mem_of_taken hv)
    dsimp only at h2
    omega
  · have h1 := (mem_taken_bounds hv).1
    omega

/-- what is held is where the clients look -/
theorem Holds.kept {m m' view : Mem} (h : Holds (taken (pucAlignedHeap c) cs) live)
    (hm : Untouched (pucAlignedHeap c) cs m m')
    (hview : ∀ r ∈ live, ∀ a, (Range.mk r.1 r.2).Has a → m a = view a) :
    ∀ r ∈ live, ∀ a, (Range.mk r.1 r.2).Has a → m' a = view a := by
  intro r hr a ha
  obtain ⟨u, hu, h1, h2, h3⟩ := h.block r hr
  rw [Range.has_mk] at ha
  exact (hm u hu a (by omega) (by omega)).trans (hview r hr a ha)

theorem add_mod (x : Nat) : add (x % 2 ^ 32) 1 = (x + 1) % 2 ^ 32 := by
  rw [add]
  omega

end

section
variable {c : Config} {w : World} {cs : List Chunk} (hc : c.Fits)
include hc

theorem alloc_good {n hint : Nat} (h : Good c w cs) (hn : n < 2 ^ 32) :
    wp (teeUserMemAlloc c n hint) (fun r t =>
      ∃ cs', Good c (t, note (.alloc n hint) r w.1 t w.2) cs') w.1 := by
  obtain ⟨ht, hs⟩ := h.ready.tiles hc
  refine wp_mono (alloc_effect hc h.ready h.low hn) ?_
  rintro r t ⟨hlow, huntouched, hfrees, ⟨rfl, hready, hallocs⟩ | ⟨hzero, l1, k, l2, hcarved⟩⟩
  · obtain ⟨h1, h2⟩ := h.lows.next hlow
    refine ⟨cs, hready, ?_, ?_, hready.low hc h2, h1, ?_, ?_⟩
    · exact h.holds
    · exact h.holds.kept huntouched h.view
    · show t.xNumberOfSuccessfulAllocations = ((w.2.outs ++ [0]).filter (· ≠ 0)).length % 2 ^ 32
      rw [hallocs, h.allocations, List.filter_append]
      simp
    · show t.xNumberOfSuccessfulFrees =
        ((w.2.calls ++ [Call.alloc n hint]).filter Call.gives).length % 2 ^ 32
      rw [hfrees, h.frees, List.filter_append]
      simp [Call.gives]
  · obtain ⟨h1, h2⟩ := h.lows.next hlow
    have hready : Ready c t _ := Or.inl hcarved.tiled
    have hfits := hcarved.fits
    have hroom := hcarved.room
    have hptr := hcarved.pointer
    have hcs := hcarved.chunks
    subst hcs
    have hk : 0 < k := Nat.lt_of_lt_of_le (by decide) (hs ⟨k, true⟩ (by simp)).2
    have hpos : ∀ d ∈ l1, 0 < d.size := fun d hd =>
      Nat.lt_of_lt_of_le (by decide) (hs d (List.mem_append_left _ hd)).2
    have hne : ∀ v ∈ taken (pucAlignedHeap c) l1 ++ taken (pucAlignedHeap c + total l1 + k) l2,
        v.1 ≠ pucAlignedHeap c + total l1 := starts_ne hk hpos
    have hr0 : r ≠ 0 := by omega
    have hlive : liveAfter (.alloc n hint) r w.2.live = (r, n) :: w.2.live := if_neg hr0
    have hview : viewAfter (.alloc n hint) r t.mem w.2.view =
        w.2.view.overlay ⟨r, n⟩ (if hint = teeMallocFillZero then fun _ => 0 else t.mem) := if_neg hr0
    have hholds := h.holds
    rw [taken_append, taken_free] at hholds
    refine ⟨_, hready, ?_, ?_, hready.low hc h2, h1, ?_, ?_⟩
    · show Holds _ (liveAfter (.alloc n hint) r w.2.live)
      rw [hlive, taken_taken_block _ _ _ _ _ hfits, hptr]
      exact hholds.take hne hcarved.pos hroom
    · show ∀ q ∈ liveAfter (.alloc n hint) r w.2.live, ∀ a, (Range.mk q.1 q.2).Has a →
        t.mem a = viewAfter (.alloc n hint) r t.mem w.2.view a
      rw [hlive, hview, List.forall_mem_cons]
      constructor
      · intro a ha
        rw [Mem.overlay_in _ _ ha]
        split
        next hfill => exact hzero hfill a ha
        next => rfl
      · intro q hq a ha
        -- the new block was free
        obtain ⟨u, hu, hq1, hq2, hq3⟩ := h.holds.block q hq
        have hgap : (pucAlignedHeap c + total l1, k) ∈
            gaps (pucAlignedHeap c) (l1 ++ ⟨k, true⟩ :: l2) := by simp [gaps_append, gaps_free]
        have hapart := gap_apart hgap hu
        have hgiven : given k (blockSize n) ≤ k := by
          rw [given]
          split
          · exact hfits
          · exact Nat.le_refl k
        dsimp only at hapart
        rw [Mem.overlay_out]
        · exact h.holds.kept huntouched h.view q hq a ha
        · rw [Range.has_mk] at ha ⊢
          omega
    · show t.xNumberOfSuccessfulAllocations = ((w.2.outs ++ [r]).filter (· ≠ 0)).length % 2 ^ 32
      rw [hcarved.allocations, h.allocations, add_mod, List.filter_append]
      simp [hr0]
    · show t.xNumberOfSuccessfulFrees =
        ((w.2.calls ++ [Call.alloc n hint]).filter Call.gives).length % 2 ^ 32
      rw [hfrees, h.frees, List.filter_append]
      simp [Call.gives]

theorem free_good {p : Nat} (h : Good c w cs) (hp : p = 0 ∨ ∃ n, (p, n) ∈ w.2.live) :
    wp (teeUserMemFree c p) (fun _ t => ∃ cs', Good c (t, note (.free p) 0 w.1 t w.2) cs') w.1 := by
  obtain ⟨ht, hs⟩ := h.ready.tiles hc
  have hblock : p ≠ 0 → ∃ l1 k l2, cs = l1 ++ ⟨k, false⟩ :: l2 ∧
      p = pucAlignedHeap c + total l1 + 8 := by
    intro h0
    obtain ⟨n, hn⟩ := hp.resolve_left h0
    exact h.holds.block_at hn
  refine wp_mono (free_effect hc h.ready h.low hblock) ?_
  rintro u t ⟨hlow, hallocs, ⟨rfl, rfl⟩ | ⟨h0, hfrees, l1, k, l2, rfl, rfl, htiled, huntouched⟩⟩
  · obtain ⟨h1, h2⟩ := h.lows.next hlow
    have hall : w.2.live.filter (fun q => q.1 ≠ 0) = w.2.live := by
      rw [List.filter_eq_self]
      intro q hq
      obtain ⟨u, -, hq, -⟩ := h.holds.block q hq
      simp
      omega
    refine ⟨cs, h.ready, ?_, ?_, h.ready.low hc h2, h1, h.allocations, ?_⟩
    · show Holds _ (w.2.live.filter fun q => q.1 ≠ 0)
      rw [hall]
      exact h.holds
    · show ∀ r ∈ w.2.live.filter (fun q => q.1 ≠ 0), _
      rw [hall]
      exact h.view
    · show w.1.xNumberOfSuccessfulFrees =
        ((w.2.calls ++ [Call.free 0]).filter Call.gives).length % 2 ^ 32
      rw [h.frees, List.filter_append]
      simp [Call.gives]
  · obtain ⟨h1, h2⟩ := h.lows.next hlow
    have hready : Ready c t _ := Or.inl htiled
    have hk : 0 < k := Nat.lt_of_lt_of_le (by decide) (hs ⟨k, false⟩ (by simp)).2
    have hpos : ∀ d ∈ l1, 0 < d.size := fun d hd =>
      Nat.lt_of_lt_of_le (by decide) (hs d (List.mem_append_left _ hd)).2
    have hne : ∀ v ∈ taken (pucAlignedHeap c) l1 ++ taken (pucAlignedHeap c + total l1 + k) l2,
        v.1 ≠ pucAlignedHeap c + total l1 := starts_ne hk hpos
    have hholds := h.holds
    rw [taken_append, taken_used] at hholds
    have hleft : Holds (taken (pucAlignedHeap c) (l1 ++ ⟨k, true⟩ :: l2))
        (w.2.live.filter fun q => q.1 ≠ pucAlignedHeap c + total l1 + 8) := by
      rw [taken_append, taken_free]
      exact hholds.drop hne
    refine ⟨_, hready, ?_, ?_, hready.low hc h2, h1, hallocs.trans h.allocations, ?_⟩
    · rw [taken_merged]
      exact hleft
    · exact hleft.kept huntouched fun r hr => h.view r (List.mem_filter.mp hr).1
    · show t.xNumberOfSuccessfulFrees =
        ((w.2.calls ++ [Call.free (pucAlignedHeap c + total l1 + 8)]).filter Call.gives).length % 2 ^ 32
      rw [hfrees, h.frees, add_mod, List.filter_append]
      simp [Call.gives]

theorem write_good {a : Nat} {v : UInt8} (h : Good c w cs)
    (ha : ∃ r ∈ w.2.live, (Range.mk r.1 r.2).Has a) :
    Good c (w.1.withMem (Function.update w.1.mem a v),
      note (.write a v) 0 w.1 (w.1.withMem (Function.update w.1.mem a v)) w.2) cs := by
  obtain ⟨r, hr, ha⟩ := ha
  obtain ⟨u, hu, h1, h2, h3⟩ := h.holds.block r hr
  obtain ⟨hl1, hl2⟩ := h.lows.next (Lowered.refl h.low)
  rw [Range.has_mk] at ha
  have hready : Ready c (w.1.withMem (Function.update w.1.mem a v)) cs := by
    rcases h.ready with hready | ⟨-, rfl⟩
    · refine Or.inl (hready.payload hc hu fun b hb => Function.update_of_ne ?_ _ _)
      rintro rfl
      exact hb (by omega)
    · exact absurd hu List.not_mem_nil
  refine ⟨hready, h.holds, ?_, h.low, hl1, h.allocations, ?_⟩
  · intro q hq b hb
    show Function.update w.1.mem a v b = Function.update w.2.view a v b
    by_cases hba : b = a
    · rw [hba, Function.update_self, Function.update_self]
    · rw [Function.update_of_ne hba, Function.update_of_ne hba]
      exact h.view q hq b hb
  · show w.1.xNumberOfSuccessfulFrees = ((w.2.calls ++ [Call.write a v]).filter Call.gives).length % 2 ^ 32
    rw [h.frees, List.filter_append]
    simp [Call.gives]

theorem call_good {x : Call} (h : Good c w cs) (hx : Behaves x w) :
    wp (call c x) (fun r t => ∃ cs', Good c (t, note x r w.1 t w.2) cs') w.1 := by
  cases x with
  | alloc n hint => exact alloc_good hc h hx
  | free p =>
    rw [call, wp_bind]
    exact free_good hc h hx
  | write a v =>
    rw [call, wp_bind, wp_modify, wp_pure]
    exact ⟨cs, write_good hc h hx⟩

/-- **The run lemma.** -/
theorem run_good {l : List Call} {m : Mem} (hg : Guarded (step c) Behaves l (.boot m)) :
    wp (run (step c) l) (fun _ w => ∃ cs, Good c w cs) (.boot m) :=
  wp_run (fun x w hw hx => by
    obtain ⟨cs, hw⟩ := hw
    exact wp_ghost.mpr (call_good hc hw hx)) hg ⟨_, .boot c m⟩

end

/-- the book has the calls of the run -/
theorem run_calls (c : Config) (l : List Call) (w : World) :
    wlp (run (step c) l) (fun _ v => v.2.calls = w.2.calls ++ l) w := by
  induction l generalizing w with
  | nil => exact (List.append_nil _).symm
  | cons x l ih =>
    show wlp (step c x >>= fun _ => run (step c) l) _ w
    rw [wlp_bind, step, wlp_ghost, wlp_iff]
    intro r t _
    refine wlp_mono (ih (t, note x r w.1 t w.2)) ?_
    intro u v hv
    rw [hv]
    show w.2.calls ++ [x] ++ l = _
    rw [List.append_assoc]
    rfl

end MTower.PortHeap
