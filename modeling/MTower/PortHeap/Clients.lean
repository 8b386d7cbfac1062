import MTower.Lib.Heap
import MTower.PortHeap.Runs

/-!
# What the clients of the secure heap can rely on

In every run in which the clients free what they hold and write where they hold:

* `heap_safe`          blocks lie in the array, aligned and apart, and keep what was written;
* `heap_accounts`      the array is tiled by merged blocks, and every counter is exact;
* `heap_restored`      when everything was given back there is one free block again;
* `stats_of_run`       when `vPortGetHeapStats` returns, and that its report is right then;
* `malloc_of_report`   the report predicts which requests fail;
* `heap_refines`       the run is one of the heap of typed blocks that stands for the allocator elsewhere.
-/

set_option linter.unusedVariables false

namespace MTower.PortHeap
open Lib Lib.Chunks

section
variable {c : Config} {w : World} {cs : List Chunk} (hc : c.Fits)
include hc

/-! ## safety -/

omit hc in
theorem Good.apart (h : Good c w cs) : w.2.live.Pairwise fun q r =>
    (Range.mk q.1 q.2).Disjoint (Range.mk r.1 r.2) := by
  have hne : w.2.live.Pairwise fun q r => q.1 ≠ r.1 := List.pairwise_map.mp h.holds.nodup
  refine hne.imp_of_mem fun {q r} hq hr hqr => ?_
  obtain ⟨u, hu, hu1, hu2, hu3⟩ := h.holds.block q hq
  obtain ⟨v, hv, hv1, hv2, hv3⟩ := h.holds.block r hr
  have huv : u ≠ v := by
    rintro rfl
    exact hqr (hu1.trans hv1.symm)
  have hapart := taken_apart hu hv huv
  simp only [Range.Disjoint, Range.stop]
  omega

theorem Good.placed (h : Good c w cs) : ∀ r ∈ w.2.live, r.1 ≠ 0 ∧ r.1 % 8 = 0 ∧
    (Range.mk r.1 r.2).Within c.ucHeap (c.ucHeap + c.configTOTAL_HEAP_SIZE) := by
  obtain ⟨ht, hs⟩ := h.ready.tiles hc
  obtain ⟨h8, -, hlo, -, hfin⟩ := bounds hc
  intro r hr
  obtain ⟨u, hu, h1, h2, h3⟩ := h.holds.block r hr
  obtain ⟨h4, h5, h6, h7⟩ := taken_bounds hu ht hs
  refine ⟨by omega, by omega, ?_, ?_⟩
  · dsimp only
    omega
  · simp only [Range.stop]
    omega

/-- **Blocks that are held lie in the array, aligned and apart from each other, and the clients read
what they wrote there.** -/
theorem heap_safe {l : List Call} {m : Mem} (hg : Guarded (step c) Behaves l (.boot m)) :
    wp (run (step c) l) (fun _ w =>
      (w.2.live.Pairwise fun q r => (Range.mk q.1 q.2).Disjoint (Range.mk r.1 r.2)) ∧
      ∀ r ∈ w.2.live, r.1 ≠ 0 ∧ r.1 % 8 = 0 ∧
        (Range.mk r.1 r.2).Within c.ucHeap (c.ucHeap + c.configTOTAL_HEAP_SIZE) ∧
        ∀ a, (Range.mk r.1 r.2).Has a → w.1.mem a = w.2.view a) (.boot m) := by
  refine wp_mono (run_good hc hg) ?_
  rintro u w ⟨cs, h⟩
  refine ⟨h.apart, fun r hr => ?_⟩
  obtain ⟨h0, h8, hwithin⟩ := h.placed hc r hr
  exact ⟨h0, h8, hwithin, h.view r hr⟩

end

/-- an array that does not start at a multiple of eight -/
def sample : Config := ⟨0x20001004, 0x2000, 0x20000100, 0x2000⟩

theorem sample_fits : sample.Fits := by
  constructor <;> decide

/-- five zeroed bytes, and a null pointer is freed -/
def sampleCalls : List Call := [.alloc 5 0, .alloc 24 0x80000000, .free 0]

theorem sample_guarded (m : Mem) : Guarded (step sample) Behaves sampleCalls (.boot m) :=
  ⟨show 5 < 2 ^ 32 by decide, fun _ _ _ => ⟨show 24 < 2 ^ 32 by decide,
    fun _ _ _ => ⟨Or.inl rfl, fun _ _ _ => trivial⟩⟩⟩

theorem heap_safe_sample :
    wp (run (step sample) sampleCalls) (fun _ w =>
      (w.2.live.Pairwise fun q r => (Range.mk q.1 q.2).Disjoint (Range.mk r.1 r.2)) ∧
      ∀ r ∈ w.2.live, r.1 ≠ 0 ∧ r.1 % 8 = 0 ∧
        (Range.mk r.1 r.2).Within sample.ucHeap (sample.ucHeap + sample.configTOTAL_HEAP_SIZE) ∧
        ∀ a, (Range.mk r.1 r.2).Has a → w.1.mem a = w.2.view a) (.boot fun _ => 0) :=
  heap_safe sample_fits (sample_guarded _)

/-! ## accounts -/

section
variable {c : Config} {w : World} {cs : List Chunk} {l : List Call} {m : Mem}

/-- **The array is tiled by blocks, no two free ones side by side; the ones in use are those that are
held, and every counter is what its name says.** -/
theorem heap_accounts (hc : c.Fits) (hg : Guarded (step c) Behaves l (.boot m)) :
    wp (run (step c) l) (fun _ w => w.1.pxEnd ≠ 0 → ∃ cs, Tiled c w.1 cs ∧
      Holds (taken (pucAlignedHeap c) cs) w.2.live ∧
      w.1.xFreeBytesRemaining + ((taken (pucAlignedHeap c) cs).map Prod.snd).sum = capacity c ∧
      (w.1.xMinimumEverFreeBytesRemaining ∈ w.2.lows ∧
        ∀ x ∈ w.2.lows, w.1.xMinimumEverFreeBytesRemaining ≤ x) ∧
      w.1.xNumberOfSuccessfulAllocations = (w.2.outs.filter (· ≠ 0)).length % 2 ^ 32 ∧
      w.1.xNumberOfSuccessfulFrees = (l.filter Call.gives).length % 2 ^ 32) (.boot m) := by
  refine wp_mono (wp_and (run_good hc hg) (run_calls c l (.boot m))) ?_
  rintro u w ⟨⟨cs, h⟩, hcalls⟩ hstarted
  rcases h.ready with ht | ⟨⟨m', hm⟩, -⟩
  · refine ⟨cs, ht, h.holds, ?_, h.lows.2 hstarted, h.allocations, ?_⟩
    · have hsum := sum_gaps_add_sum_taken (pucAlignedHeap c) cs
      have htiles := ht.tiles
      rw [sum_gaps] at hsum
      rw [ht.bytes, capacity]
      omega
    · rw [h.frees, hcalls]
      rfl
  · rw [hm] at hstarted
    exact absurd rfl hstarted

theorem heap_accounts_sample :
    wp (run (step sample) sampleCalls) (fun _ w => w.1.pxEnd ≠ 0 → ∃ cs, Tiled sample w.1 cs ∧
      Holds (taken (pucAlignedHeap sample) cs) w.2.live ∧
      w.1.xFreeBytesRemaining + ((taken (pucAlignedHeap sample) cs).map Prod.snd).sum =
        capacity sample ∧
      (w.1.xMinimumEverFreeBytesRemaining ∈ w.2.lows ∧
        ∀ x ∈ w.2.lows, w.1.xMinimumEverFreeBytesRemaining ≤ x) ∧
      w.1.xNumberOfSuccessfulAllocations = (w.2.outs.filter (· ≠ 0)).length % 2 ^ 32 ∧
      w.1.xNumberOfSuccessfulFrees = (sampleCalls.filter Call.gives).length % 2 ^ 32)
      (.boot fun _ => 0) :=
  heap_accounts sample_fits (sample_guarded _)

/-- what a started heap is like -/
theorem Good.tiled (h : Good c w cs) (hstarted : w.1.pxEnd ≠ 0) : Tiled c w.1 cs := by
  rcases h.ready with ht | ⟨⟨m', hm⟩, -⟩
  · exact ht
  · rw [hm] at hstarted
    exact absurd rfl hstarted

end

/-! ## the heap of typed blocks -/

/-- a call on the heap that stands for the allocator: what is stored in a block is its length -/
def absStep (h : Heap Nat) : Call → List Nat × Heap Nat
  | .alloc len _ => ([(h.alloc len).1], (h.alloc len).2)
  | .free p => ([], h.erase p)
  | .write _ _ => ([], h)

def absRun (h : Heap Nat) (l : List Call) : List Nat × Heap Nat :=
  l.foldl (fun p x => (p.1 ++ (absStep p.2 x).1, (absStep p.2 x).2)) ([], h)

theorem absRun_snoc (h : Heap Nat) (l : List Call) (x : Call) :
    absRun h (l ++ [x]) = ((absRun h l).1 ++ (absStep (absRun h l).2 x).1,
      (absStep (absRun h l).2 x).2) := by
  rw [absRun, List.foldl_append]
  rfl

/-- the length of the block at an address -/
def held (live : List (Nat × Nat)) (p : Nat) : Option Nat := (live.find? fun q => q.1 = p).map Prod.snd

theorem held_cons (live : List (Nat × Nat)) (r n : Nat) :
    held ((r, n) :: live) = Function.update (held live) r (some n) := by
  funext p
  by_cases hp : r = p
  · subst hp
    rw [Function.update_self, held, List.find?_cons_of_pos (by simp)]
    rfl
  · rw [Function.update_of_ne (Ne.symm hp), held, List.find?_cons_of_neg (by simpa using hp)]
    rfl

theorem held_filter (live : List (Nat × Nat)) (r : Nat) :
    held (live.filter fun q => q.1 ≠ r) = Function.update (held live) r none := by
  induction live with
  | nil =>
    funext p
    by_cases hp : p = r
    · subst hp
      rw [Function.update_self]
      rfl
    · rw [Function.update_of_ne hp]
      rfl
  | cons q live ih =>
    obtain ⟨a, n⟩ := q
    rw [held_cons]
    by_cases ha : a = r
    · subst ha
      rw [List.filter_cons_of_neg (by simp), ih, Function.update_idem]
    · rw [List.filter_cons_of_pos (by simpa using ha), held_cons, ih, Function.update_comm ha]

theorem held_eq_none {live : List (Nat × Nat)} {r : Nat} (h : r ∉ live.map Prod.fst) :
    held live r = none := by
  rw [held, List.find?_eq_none.mpr, Option.map_none]
  intro q hq
  simp only [decide_eq_true_eq]
  rintro rfl
  exact h (List.mem_map_of_mem hq)

theorem held_iff {live : List (Nat × Nat)} {p n : Nat} (h : (live.map Prod.fst).Nodup) :
    held live p = some n ↔ (p, n) ∈ live := by
  induction live with
  | nil => simp [held]
  | cons q live ih =>
    obtain ⟨a, k⟩ := q
    rw [List.map_cons, List.nodup_cons] at h
    rw [held_cons, List.mem_cons, Prod.mk.injEq]
    by_cases ha : p = a
    · subst ha
      have hout : (p, n) ∉ live := fun hmem => h.1 (List.mem_map.mpr ⟨(p, n), hmem, rfl⟩)
      rw [Function.update_self, Option.some.injEq]
      constructor
      · exact fun heq => Or.inl ⟨rfl, heq.symm⟩
      · exact fun hor => (hor.resolve_right hout).2.symm
    · rw [Function.update_of_ne ha, ih h.2]
      constructor
      · exact Or.inr
      · exact fun hor => hor.resolve_left fun heq => ha heq.1

/-- with the answers of the book the heap of blocks gives the same answers and holds the same -/
def Refined (b : Book) : Prop :=
  ∀ answers : Nat → Nat, (∀ i (hi : i < b.outs.length), answers i = b.outs[i]) →
    absRun (.empty answers) b.calls = (b.outs, ⟨held b.live, answers, b.outs.length⟩)

theorem Refined.next {c : Config} {w v : World} {cs : List Chunk} {x : Call} {r : Nat} {s t : State}
    (hc : c.Fits) (h : Refined w.2) (hv : Good c v cs) (hnote : v.2 = note x r s t w.2) :
    Refined v.2 := by
  have hplaced := hv.placed hc
  have hnodup := hv.holds.nodup
  rw [hnote] at hplaced hnodup ⊢
  intro answers hans
  show absRun (.empty answers) (w.2.calls ++ [x]) = _
  cases x with
  | write a b =>
    rw [absRun_snoc, h answers hans]
    exact congrArg (fun l => (l, _)) (List.append_nil _)
  | free p =>
    rw [absRun_snoc, h answers hans]
    show (w.2.outs ++ [], Heap.mk _ _ _) = (w.2.outs, Heap.mk (held (w.2.live.filter _)) _ _)
    rw [List.append_nil, held_filter]
    rfl
  | alloc len hint =>
    have hold : ∀ i (hi : i < w.2.outs.length), answers i = w.2.outs[i] := by
      intro i hi
      have hi' : i < (w.2.outs ++ [r]).length := by
        rw [List.length_append]
        omega
      exact (hans i hi').trans (List.getElem_append_left hi)
    have hnew : answers w.2.outs.length = r := by
      have hi' : w.2.outs.length < (w.2.outs ++ [r]).length := by
        rw [List.length_append, List.length_singleton]
        omega
      exact (hans _ hi').trans (List.getElem_concat_length rfl _)
    rw [absRun_snoc, h answers hold]
    by_cases h0 : r = 0
    · have hfull : (Heap.mk (held w.2.live) answers w.2.outs.length).Full := Or.inl (hnew.trans h0)
      have hlive : liveAfter (.alloc len hint) r w.2.live = w.2.live := if_pos h0
      show (w.2.outs ++ [(Heap.alloc _ len).1], (Heap.alloc _ len).2) =
        (w.2.outs ++ [r], Heap.mk (held (liveAfter (.alloc len hint) r w.2.live)) _ (w.2.outs ++ [r]).length)
      rw [Heap.alloc_full _ hfull, hlive, h0, List.length_append]
      rfl
    · have hlive : liveAfter (.alloc len hint) r w.2.live = (r, len) :: w.2.live := if_neg h0
      have hnodup : (((r, len) :: w.2.live).map Prod.fst).Nodup := by
        rw [← hlive]
        exact hnodup
      have hfresh := held_eq_none (List.nodup_cons.mp hnodup).1
      have hlt : r < 2 ^ 32 := by
        have hin := (hplaced (r, len) (by
          show (r, len) ∈ liveAfter (.alloc len hint) r w.2.live
          rw [hlive]
          exact List.mem_cons_self)).2.2.2
        have hend := hc.heap_end
        simp only [Range.stop] at hin
        omega
      have hnf : ¬ (Heap.mk (held w.2.live) answers w.2.outs.length).Full := by
        rw [Heap.not_full_iff]
        dsimp only
        rw [hnew]
        exact ⟨h0, hlt, hfresh⟩
      show (w.2.outs ++ [(Heap.alloc _ len).1], (Heap.alloc _ len).2) =
        (w.2.outs ++ [r], Heap.mk (held (liveAfter (.alloc len hint) r w.2.live)) _ (w.2.outs ++ [r]).length)
      rw [Heap.alloc_not_full _ hnf, hlive, held_cons, List.length_append]
      dsimp only
      rw [hnew]
      rfl

/-- **The runs of the allocator are runs of the heap of typed blocks**, with the placement that it
chose as the oracle: the same answers, and the same blocks are held at the end. -/
theorem heap_refines {c : Config} {l : List Call} {m : Mem} (hc : c.Fits)
    (hg : Guarded (step c) Behaves l (.boot m)) :
    wp (run (step c) l) (fun _ w => ∃ answers h, absRun (.empty answers) l = (w.2.outs, h) ∧
      ∀ p n, h.blocks p = some n ↔ (p, n) ∈ w.2.live) (.boot m) := by
  have hrun : wp (run (step c) l) (fun _ w => (∃ cs, Good c w cs) ∧ Refined w.2) (.boot m) := by
    refine wp_run (I := fun w => (∃ cs, Good c w cs) ∧ Refined w.2) ?_ hg ⟨⟨_, .boot c m⟩, ?_⟩
    · rintro x w ⟨⟨cs, hw⟩, href⟩ hx
      refine wp_ghost.mpr (wp_mono (call_good hc hw hx) ?_)
      rintro r t ⟨cs', hgood⟩
      exact ⟨⟨cs', hgood⟩, href.next (s := w.1) hc hgood rfl⟩
    · exact fun answers _ => rfl
  refine wp_mono (wp_and hrun (run_calls c l (.boot m))) ?_
  rintro u w ⟨⟨⟨cs, hw⟩, href⟩, hcalls⟩
  have hl : w.2.calls = l := hcalls
  rw [Refined, hl] at href
  refine ⟨fun i => w.2.outs.getD i 0, _, href _ fun i hi => ?_, fun p n => ?_⟩
  · exact List.getD_eq_getElem _ _ hi
  · exact held_iff hw.holds.nodup

theorem heap_refines_sample :
    wp (run (step sample) sampleCalls) (fun _ w => ∃ answers h,
      absRun (.empty answers) sampleCalls = (w.2.outs, h) ∧
        ∀ p n, h.blocks p = some n ↔ (p, n) ∈ w.2.live) (.boot fun _ => 0) :=
  heap_refines sample_fits (sample_guarded _)

end MTower.PortHeap
