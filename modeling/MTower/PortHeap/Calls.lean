import MTower.PortHeap.Tiling

/-!
# What the calls do

One lemma a function: what `pvPortMalloc` and `vPortFree` do to an array that is cut into blocks, in
terms of the blocks.

* `takeBlock_spec`    the first block that is large enough is carved;
* `giveBack_spec`     the block becomes free, and what is free side by side is merged;
* `pvPortMalloc_spec`, `vPortFree_spec`, `stats_exact`, `stats_fault`  the calls.
-/

set_option linter.unusedVariables false

namespace MTower.PortHeap
open Lib Lib.Chunks

/-! ## the list of a tiling -/

section
variable {c : Config} {s : State} {cs l1 l2 : List Chunk} {lo e k w : Nat} {q f : List Node}
  {x : Node}

theorem gaps_taken_block (lo : Nat) (l1 l2 : List Chunk) (k w : Nat) (h : w ≤ k) :
    gaps lo (l1 ++ carve heapMINIMUM_BLOCK_SIZE w k ++ l2) =
      gaps lo l1 ++ rest (lo + total l1) k w (gaps (lo + total l1 + k) l2) := by
  rw [List.append_assoc, gaps_append, carve, rest]
  split
  · rw [List.cons_append, List.cons_append, List.nil_append, gaps_used, gaps_free, Nat.add_assoc _ w,
      Nat.add_sub_cancel' h]
  · rw [List.cons_append, List.nil_append, gaps_used]

theorem taken_taken_block (lo : Nat) (l1 l2 : List Chunk) (k w : Nat) (h : w ≤ k) :
    taken lo (l1 ++ carve heapMINIMUM_BLOCK_SIZE w k ++ l2) =
      taken lo l1 ++ (lo + total l1, given k w) :: taken (lo + total l1 + k) l2 := by
  rw [List.append_assoc, taken_append, carve, given]
  split
  · rw [List.cons_append, List.cons_append, List.nil_append, taken_used, taken_free, Nat.add_assoc _ w,
      Nat.add_sub_cancel' h]
  · rw [List.cons_append, List.nil_append, taken_used]

theorem sized_carve (hs : ∀ d ∈ l1 ++ ⟨k, true⟩ :: l2, Sized d.size) (hw : Sized w) (hwk : w ≤ k) :
    ∀ d ∈ l1 ++ carve heapMINIMUM_BLOCK_SIZE w k ++ l2, Sized d.size := by
  have hk : Sized k := hs ⟨k, true⟩ (by simp)
  have hmin : heapMINIMUM_BLOCK_SIZE = 16 := rfl
  have hcarve : ∀ d ∈ carve heapMINIMUM_BLOCK_SIZE w k, Sized d.size := by
    rw [carve]
    unfold Sized at *
    split
    · simp
      omega
    · simpa using hk
  intro d hd
  rw [List.mem_append, List.mem_append] at hd
  rcases hd with (hd | hd) | hd
  · exact hs d (List.mem_append_left _ hd)
  · exact hcarve d hd
  · exact hs d (List.mem_append_right _ (List.mem_cons_of_mem _ hd))

theorem freeBytes_append (cs ds : List Chunk) : freeBytes (cs ++ ds) = freeBytes cs + freeBytes ds := by
  rw [freeBytes, gaps_append, List.map_append, List.sum_append, sum_gaps, sum_gaps]

theorem freeBytes_carve (h : w ≤ k) :
    freeBytes (carve heapMINIMUM_BLOCK_SIZE w k) + given k w = k := by
  rw [carve, given]
  split
  · rw [freeBytes, gaps_used, gaps_free]
    simp [gaps]
    omega
  · rw [freeBytes, gaps_used]
    simp [gaps]

theorem freeBytes_le_total (cs : List Chunk) : freeBytes cs ≤ total cs := by
  rw [← sum_gaps_add_sum_taken 0 cs, sum_gaps]
  exact Nat.le_add_right _ _

theorem le_succ_gaps (h : lo ≤ e) (cs : List Chunk) : lo ≤ succ e (gaps lo cs) := by
  cases hg : gaps lo cs with
  | nil => exact h
  | cons g gs =>
    have hmem : g ∈ gaps lo cs := by simp [hg]
    exact (mem_gaps_bounds hmem).1

theorem succ_of_head {y : Node} {ys : List Node} (h : y :: ys = q ++ [x]) : succ x.1 q = y.1 := by
  cases q with
  | nil =>
    rw [(List.cons.inj h).1]
    rfl
  | cons z q =>
    rw [(List.cons.inj h).1]
    rfl

/-- the head is the last node when there is none, and a gap otherwise -/
theorem last_node {y : Node} (h : y :: gaps lo l1 = q ++ [x]) :
    x = y ∨ x ∈ gaps lo l1 := by
  have hmem : x ∈ y :: gaps lo l1 := by simp [h]
  exact List.mem_cons.mp hmem

theorem tail_of_head {y : Node} (h : y :: gaps lo l1 = q ++ [x]) : (q ++ [x]).tail = gaps lo l1 := by
  rw [← h]
  rfl

end

/-- the bytes of the list head and of the free blocks -/
def Inside (c : Config) (cs : List Chunk) (b : Nat) : Prop :=
  (header c.xStart).Has b ∨ ∃ g ∈ gaps (pucAlignedHeap c) cs, g.1 ≤ b ∧ b < g.1 + g.2

/-- a node of the list lies inside -/
theorem inside_of_node {c : Config} {cs : List Chunk} {x : Node} {b : Nat} (hs : ∀ d ∈ cs, Sized d.size)
    (hx : x = (c.xStart, 0) ∨ x ∈ gaps (pucAlignedHeap c) cs) (hb : (header x.1).Has b) :
    Inside c cs b := by
  rcases hx with rfl | hx
  · exact Or.inl hb
  · have h16 := (hs _ (mem_of_gap hx)).2
    rw [header_has] at hb
    dsimp only at h16
    exact Or.inr ⟨x, hx, by omega⟩

section
variable {c : Config} {s : State} {cs l1 l2 : List Chunk} {k w : Nat} {q f : List Node} {x : Node}
  (hc : c.Fits)
include hc

theorem end_lt : endAddress c < 2 ^ 32 := by
  have h1 := hc.heap_end
  have h2 := (bounds hc).2.2.2.2
  omega

/-- the list has fewer nodes than the array has bytes -/
theorem length_lt_rounds (ht : pucAlignedHeap c + total cs = endAddress c)
    (hs : ∀ d ∈ cs, Sized d.size) : (gaps (pucAlignedHeap c) cs).length < c.rounds := by
  have h1 := hc.rounds
  have h2 : 16 * (gaps (pucAlignedHeap c) cs).length ≤ total cs := length_gaps_le hs
  obtain ⟨-, -, h3, -, h4⟩ := bounds hc
  omega

theorem head_ne {n : Nat} (h1 : pucAlignedHeap c ≤ n) (h2 : n ≤ endAddress c) : c.xStart + 0 ≠ n := by
  have h := head_apart hc h1 h2
  omega

/-- nothing in front of a block ends inside it -/
theorem before_block {n : Nat} (hit : (c.xStart, 0) :: gaps (pucAlignedHeap c) l1 = q ++ [x])
    (hlt : pucAlignedHeap c + total l1 < n) (hn : n ≤ endAddress c) : x.1 + x.2 ≠ n := by
  rcases last_node hit with rfl | hx
  · exact head_ne hc (by omega) hn
  · have h := (mem_gaps_bounds hx).2
    omega

/-- **The rest of a block can be put into the list.** -/
theorem splits_of_tiled (ht : pucAlignedHeap c + total (l1 ++ ⟨k, true⟩ :: l2) = endAddress c)
    (hs : ∀ d ∈ l1 ++ ⟨k, true⟩ :: l2, Sized d.size) (hm : Merged (l1 ++ ⟨k, true⟩ :: l2))
    (hit : (c.xStart, 0) :: gaps (pucAlignedHeap c) l1 = q ++ [x]) (hw : Sized w) (hwk : w ≤ k)
    (hlarge : heapMINIMUM_BLOCK_SIZE < k - w) :
    Splits c (endAddress c) (pucAlignedHeap c + total l1) k w q x
      (gaps (pucAlignedHeap c + total l1 + k) l2) := by
  obtain ⟨-, hk, hend⟩ := block_bounds rfl ht hs
  have hs' := sized_carve hs hw hwk
  have ht' : pucAlignedHeap c + total (l1 ++ carve heapMINIMUM_BLOCK_SIZE w k ++ l2) = endAddress c := by
    rw [total_append, total_append, total_carve hwk]
    rw [total_append, total_cons] at ht
    dsimp only at ht
    omega
  have hm' : Merged (l1 ++ carve heapMINIMUM_BLOCK_SIZE w k ++ l2) := merged_carve hm
  have hgaps := gaps_taken_block (pucAlignedHeap c) l1 l2 k w hwk
  have hsound := sound_gaps hc ht' hs'
  rw [hgaps, ← List.cons_append, hit, rest, if_pos hlarge, List.append_assoc] at hsound
  have hw16 := hw.2
  dsimp only at hend
  have hne := before_block (n := pucAlignedHeap c + total l1 + w) hc hit (by omega) (by omega)
  generalize pucAlignedHeap c = lo at *
  have hfirst : lo + total l1 + k ≤ succ (endAddress c) (gaps (lo + total l1 + k) l2) :=
    le_succ_gaps (by omega) l2
  have hglue : ahead (lo + total l1 + w, k - w) (gaps (lo + total l1 + k) l2) =
      (lo + total l1 + w, k - w) :: gaps (lo + total l1 + k) l2 := by
    have hpos : ∀ d ∈ l2, 0 < d.size := fun d hd =>
      Nat.lt_of_lt_of_le (by decide) (hs d (by simp [hd])).2
    have hrest : Merged (⟨k - w, true⟩ :: l2) := by
      rw [carve, if_pos hlarge, List.append_assoc] at hm'
      exact (List.isChain_append.mp hm').2.1.tail
    have hg : gaps (lo + total l1 + w) (glue ⟨k - w, true⟩ l2) =
        ahead (lo + total l1 + w, k - w) (gaps (lo + total l1 + w + (k - w)) l2) := gaps_glue hpos
    rw [hrest.glue, gaps_free, Nat.add_assoc _ w, Nat.add_sub_cancel' hwk] at hg
    exact hg.symm
  refine ⟨hsound, ?_, by omega, ?_⟩
  · rw [tail_of_head hit]
    intro n hn
    have h1 := (mem_gaps_bounds hn).2
    have h2 := hw.2
    omega
  · rw [between, if_neg hne, hglue]

/-- **What lies outside is left alone**: the blocks in use and the end marker. -/
theorem outside {m m' : Mem} (ht : pucAlignedHeap c + total cs = endAddress c)
    (hs : ∀ d ∈ cs, Sized d.size) (h : ∀ b, ¬ Inside c cs b → m' b = m b) :
    Untouched (pucAlignedHeap c) cs m m' ∧ m'.load32 (endAddress c) = m.load32 (endAddress c) ∧
      m'.load32 (endAddress c + 4) = m.load32 (endAddress c + 4) := by
  obtain ⟨-, -, h3, -, h4⟩ := bounds hc
  have hhead := hc.head_apart
  constructor
  · intro u hu b h1 h2
    obtain ⟨-, -, h5, h6⟩ := taken_bounds hu ht hs
    apply h
    rintro (hb | ⟨g, hg, hb⟩)
    · rw [header_has] at hb
      omega
    · have hapart := gap_apart hg hu
      omega
  · apply header_congr
    intro b hb
    rw [header_has] at hb
    apply h
    rintro (hb' | ⟨g, hg, hb'⟩)
    · rw [header_has] at hb'
      omega
    · have hle := (gap_bounds hg ht hs).2.2.2
      omega

omit hc in
theorem noteMinimum_eq (s : State) : s.noteMinimum.xMinimumEverFreeBytesRemaining =
    min s.xMinimumEverFreeBytesRemaining s.xFreeBytesRemaining := by
  rw [State.noteMinimum, min_def]
  split
  · rw [if_neg (by omega)]
  · rw [if_pos (by omega)]

/-- **A block gets its owner.** -/
theorem takeBlock_spec (h : Tiled c s (l1 ++ ⟨k, true⟩ :: l2))
    (hit : (c.xStart, 0) :: gaps (pucAlignedHeap c) l1 = q ++ [x]) (hw : Sized w) (hwk : w ≤ k) :
    wp (takeBlock c x.1 (pucAlignedHeap c + total l1) w) (fun r t =>
      r = pucAlignedHeap c + total l1 + 8 ∧
      Tiled c t (l1 ++ carve heapMINIMUM_BLOCK_SIZE w k ++ l2) ∧
      Untouched (pucAlignedHeap c) (l1 ++ ⟨k, true⟩ :: l2) s.mem t.mem ∧
      t.xMinimumEverFreeBytesRemaining =
        min s.xMinimumEverFreeBytesRemaining t.xFreeBytesRemaining ∧
      t.xNumberOfSuccessfulAllocations = add s.xNumberOfSuccessfulAllocations 1 ∧
      t.xNumberOfSuccessfulFrees = s.xNumberOfSuccessfulFrees) s := by
  have hend := end_lt hc
  have hsmall := hc.small
  obtain ⟨-, -, hlo, -, hfin⟩ := bounds hc
  obtain ⟨-, hk, hak⟩ := block_bounds rfl h.tiles h.sized
  have hsplit := splits_of_tiled hc h.tiles h.sized h.merged hit hw hwk
  have hsound := sound_gaps hc h.tiles h.sized
  have hrounds := length_lt_rounds hc h.tiles h.sized
  have hlinked := h.linked
  have hnew := gaps_taken_block (pucAlignedHeap c) l1 l2 k w hwk
  have htaken := taken_taken_block (pucAlignedHeap c) l1 l2 k w hwk
  have hgaps : (c.xStart, 0) :: gaps (pucAlignedHeap c) (l1 ++ ⟨k, true⟩ :: l2) =
      q ++ x :: (pucAlignedHeap c + total l1, k) :: gaps (pucAlignedHeap c + total l1 + k) l2 := by
    rw [gaps_append, gaps_free, ← List.cons_append, hit, List.append_assoc]
    rfl
  have hmem : x = (c.xStart, 0) ∨ x ∈ gaps (pucAlignedHeap c) (l1 ++ ⟨k, true⟩ :: l2) := by
    rw [← List.mem_cons, hgaps]
    simp
  have hq : q.length ≤ (gaps (pucAlignedHeap c) (l1 ++ ⟨k, true⟩ :: l2)).length := by
    have hlen := congrArg List.length hgaps
    simp only [List.length_cons, List.length_append] at hlen
    omega
  dsimp only at hak
  rw [hgaps, ← h.pxEnd] at hsound
  rw [hgaps] at hlinked
  rw [← h.pxEnd] at hsplit hend
  refine wp_mono (takeNode_spec hlinked hsound hend h.bit (by omega) hwk hw.2 (succ_of_head hit)
    (by omega) hsplit) ?_
  rintro r t ⟨rfl, m', rfl, hlinked', hnext', hsize', hframe⟩
  have houtside : ∀ b, ¬ Inside c (l1 ++ ⟨k, true⟩ :: l2) b → m' b = s.mem b := by
    intro b hb
    apply hframe
    · exact fun hx => hb (inside_of_node h.sized hmem hx)
    · exact fun hblock => hb (Or.inr ⟨(pucAlignedHeap c + total l1, k), by
        simp [gaps_append, gaps_free], hblock⟩)
  obtain ⟨huntouched, hlast⟩ := outside hc h.tiles h.sized houtside
  have hbytes : sub s.xFreeBytesRemaining (given k w) =
      freeBytes (l1 ++ carve heapMINIMUM_BLOCK_SIZE w k ++ l2) := by
    have h1 := freeBytes_carve hwk
    have h2 := freeBytes_le_total (l1 ++ ⟨k, true⟩ :: l2)
    have h3 := h.tiles
    have h4 : freeBytes (⟨k, true⟩ :: l2) = k + freeBytes l2 := by
      rw [freeBytes, gaps_free, List.map_cons, List.sum_cons, sum_gaps]
    rw [h.bytes]
    rw [freeBytes_append, h4] at h2 ⊢
    rw [freeBytes_append, freeBytes_append, sub_eq (by omega) (by omega)]
    omega
  refine ⟨rfl, ⟨h.pxEnd, ?_, ?_, ?_, ?_, sized_carve h.sized hw hwk, merged_carve h.merged, h.bit,
    hbytes⟩, huntouched, ?_, rfl, rfl⟩
  · rw [← h.tiles, total_append, total_append, total_append, total_carve hwk, total_cons]
    dsimp only
    omega
  · rw [hnew, ← List.cons_append, hit, List.append_assoc]
    exact hlinked'
  · rw [← h.pxEnd] at hlast
    exact ⟨hlast.1.trans h.last.1, hlast.2.trans h.last.2⟩
  · intro u hu
    rw [htaken, List.mem_append, List.mem_cons] at hu
    have hold : u ∈ taken (pucAlignedHeap c) (l1 ++ ⟨k, true⟩ :: l2) →
        m'.load32 u.1 = 0 ∧ m'.load32 (u.1 + 4) = u.2 + 2 ^ 31 := by
      intro hu
      have h8 := (h.sized _ (mem_of_taken hu)).2
      obtain ⟨h1, h2⟩ := huntouched.header hu (Nat.le_trans (by decide) h8)
      exact ⟨h1.trans (h.used u hu).1, h2.trans (h.used u hu).2⟩
    rw [taken_append, taken_free, List.mem_append] at hold
    rcases hu with hu | rfl | hu
    · exact hold (Or.inl hu)
    · exact ⟨hnext', hsize'⟩
    · exact hold (Or.inr hu)
  · exact noteMinimum_eq (s.charge (given k w))

end

/-! ## `pvPortMalloc` -/

theorem blockSize_zero : blockSize 0 = 0 := if_neg fun h => absurd h.1 (Nat.lt_irrefl 0)

/-- room for the header, rounded up -/
theorem blockSize_eq {n : Nat} (h0 : 0 < n) (hn : n < 2 ^ 31) : blockSize n = (n + 15) / 8 * 8 := by
  have hadd : add n xHeapStructSize = n + 8 := add_eq (by unfold xHeapStructSize; omega)
  rw [blockSize, hadd, if_pos ⟨h0, by omega⟩, mask_eq, portBYTE_ALIGNMENT]
  split
  · rw [add_eq (by omega), if_pos (by omega)]
    omega
  · omega

theorem blockSize_sized {n : Nat} (h0 : 0 < n) (hn : n < 2 ^ 31) :
    Sized (blockSize n) ∧ n + 8 ≤ blockSize n := by
  rw [blockSize_eq h0 hn, Sized]
  omega

theorem top_bit {n : Nat} (hn : n < 2 ^ 32) : n &&& 2 ^ 31 = 0 ↔ n < 2 ^ 31 := by
  rw [Nat.and_two_pow]
  constructor
  · intro h
    by_contra hge
    have htest : n.testBit 31 = true := by
      rw [Nat.testBit_eq_decide_div_mod_eq, decide_eq_true_eq]
      omega
    rw [htest] at h
    exact absurd h (by decide)
  · intro h
    rw [Nat.testBit_lt_two_pow h]
    rfl

section
variable {c : Config} {s : State} {cs : List Chunk} {n : Nat} (hc : c.Fits)

/-- what a call for `n` bytes does to the blocks `cs` when it succeeds -/
structure Allotted (c : Config) (s : State) (cs : List Chunk) (n r : Nat) (t : State)
    (l1 : List Chunk) (k : Nat) (l2 : List Chunk) : Prop where
  chunks : cs = l1 ++ ⟨k, true⟩ :: l2
  fits : blockSize n ≤ k
  first : ∀ g ∈ gaps (pucAlignedHeap c) l1, g.2 < blockSize n
  pointer : r = pucAlignedHeap c + total l1 + 8
  tiled : Tiled c t (l1 ++ carve heapMINIMUM_BLOCK_SIZE (blockSize n) k ++ l2)
  untouched : Untouched (pucAlignedHeap c) cs s.mem t.mem
  minimum : t.xMinimumEverFreeBytesRemaining =
    min s.xMinimumEverFreeBytesRemaining t.xFreeBytesRemaining
  allocations : t.xNumberOfSuccessfulAllocations = add s.xNumberOfSuccessfulAllocations 1
  frees : t.xNumberOfSuccessfulFrees = s.xNumberOfSuccessfulFrees

include hc

theorem tiled_pxEnd_ne (h : Tiled c s cs) : s.pxEnd ≠ 0 := by
  obtain ⟨-, -, h1, h2, -⟩ := bounds hc
  have hpos := hc.heap_pos
  rw [h.pxEnd]
  omega

theorem allocate_spec (h : Tiled c s cs) (h0 : 0 < n) (hn : n < 2 ^ 31) :
    wp (allocate c (blockSize n)) (fun r t =>
      (r = 0 ∧ t = s ∧ ∀ g ∈ gaps (pucAlignedHeap c) cs, g.2 < blockSize n) ∨
      ∃ l1 k l2, Allotted c s cs n r t l1 k l2) s := by
  obtain ⟨hsized, -⟩ := blockSize_sized h0 hn
  have hsound := sound_gaps hc h.tiles h.sized
  have hpos := hc.heap_pos
  obtain ⟨h8, he8, hlo, hend, -⟩ := bounds hc
  have howned := owns_heap hc he8 (by omega) (Nat.le_refl _)
  have hne := tiled_pxEnd_ne hc h
  rw [← h.pxEnd] at howned hsound
  rw [allocate, wp_bind, pxNextFreeBlock, wp_load, h.linked.1, wp_bind]
  refine ⟨(owns_head hc).1, ?_⟩
  refine wp_mono (firstFit_spec h.linked (fun g hg => hsound.owned g (List.mem_cons_of_mem _ hg)) howned
    h.last ?_ hne (Nat.lt_of_lt_of_le (by decide) hsized.2) (length_lt_rounds hc h.tiles h.sized)) ?_
  · intro g hg
    have hle := (gap_bounds hg h.tiles h.sized).2.2.1
    omega
  rintro found t ⟨rfl, ⟨hfound, hsmall⟩ | ⟨q, x, y, f, hnodes, rfl, hfit, hpassed⟩⟩
  · rw [wp_bind, wp_get, hfound, if_neg (fun h => h rfl), wp_pure]
    exact Or.inl ⟨rfl, rfl, hsmall⟩
  · have hsplit : (c.xStart, 0) :: gaps (pucAlignedHeap c) cs = (q ++ [x]) ++ y :: f := by
      rw [hnodes, List.append_assoc]
      rfl
    have hhead : ∃ g1, q ++ [x] = (c.xStart, 0) :: g1 := by
      cases q with
      | nil => exact ⟨[], congrArg (fun z => [z]) (List.cons.inj hnodes).1.symm⟩
      | cons z q => exact ⟨q ++ [x], by rw [List.cons_append, (List.cons.inj hnodes).1]⟩
    obtain ⟨g1, hg1⟩ := hhead
    rw [hg1, List.cons_append, List.cons.injEq] at hsplit
    obtain ⟨l1, l2, rfl, ha, hl1, hl2⟩ := gaps_split (a := y.1) (k := y.2) hsplit.2
    have hy : y.1 ≠ t.pxEnd := hsound.ne_end y (by simp [hsplit.2])
    rw [hg1, List.tail_cons, ← hl1] at hpassed
    have hit : (c.xStart, 0) :: gaps (pucAlignedHeap c) l1 = q ++ [x] := by rw [hl1, hg1]
    rw [wp_bind, wp_get, if_pos hy]
    show wp (takeBlock c x.1 y.1 (blockSize n)) _ t
    rw [ha]
    refine wp_mono (takeBlock_spec hc h hit hsized hfit) ?_
    rintro r u ⟨h1, h2, h3, h4, h5, h6⟩
    exact Or.inr ⟨l1, y.2, l2, rfl, hfit, hpassed, h1, h2, h3, h4, h5, h6⟩

/-- **What `pvPortMalloc` does.** -/
theorem pvPortMalloc_spec (h : Tiled c s cs) (hn : n < 2 ^ 32) :
    wp (pvPortMalloc c n) (fun r t =>
      (r = 0 ∧ t = s ∧
        (n = 0 ∨ 2 ^ 31 ≤ n ∨ ∀ g ∈ gaps (pucAlignedHeap c) cs, g.2 < blockSize n)) ∨
      (0 < n ∧ n < 2 ^ 31 ∧ ∃ l1 k l2, Allotted c s cs n r t l1 k l2)) s := by
  rw [pvPortMalloc, wp_bind, heapInitialised, wp_bind, wp_get, if_neg (tiled_pxEnd_ne hc h), wp_pure,
    wp_bind, wp_get, h.bit]
  by_cases htop : n < 2 ^ 31
  · rw [if_pos ((top_bit hn).mpr htop)]
    rcases Nat.eq_zero_or_pos n with rfl | h0
    · rw [blockSize_zero, if_neg (fun h => absurd h.1 (Nat.lt_irrefl 0)), wp_pure]
      exact Or.inl ⟨rfl, rfl, Or.inl rfl⟩
    · by_cases hfree : 0 < blockSize n ∧ blockSize n ≤ s.xFreeBytesRemaining
      · rw [if_pos hfree]
        refine wp_mono (allocate_spec hc h h0 htop) ?_
        rintro r t (⟨h1, h2, h3⟩ | h1)
        · exact Or.inl ⟨h1, h2, Or.inr (Or.inr h3)⟩
        · exact Or.inr ⟨h0, htop, h1⟩
      · rw [if_neg hfree, wp_pure]
        refine Or.inl ⟨rfl, rfl, Or.inr (Or.inr fun g hg => ?_)⟩
        have hle : g.2 ≤ freeBytes cs := by
          rw [← sum_gaps (pucAlignedHeap c)]
          exact List.single_le_sum (fun _ _ => Nat.zero_le _) _ (List.mem_map_of_mem hg)
        have hpos := (blockSize_sized h0 htop).2
        rw [h.bytes] at hfree
        omega
  · rw [if_neg (fun h => htop ((top_bit hn).mp h)), wp_pure]
    exact Or.inl ⟨rfl, rfl, Or.inr (Or.inl (by omega))⟩

end

/-! ## `vPortFree` -/

theorem freeBytes_merged (cs : List Chunk) : freeBytes (merged cs) = freeBytes cs := by
  have h1 := sum_gaps_add_sum_taken 0 cs
  have h2 := sum_gaps_add_sum_taken 0 (merged cs)
  rw [taken_merged, total_merged, sum_gaps] at h2
  rw [sum_gaps] at h1
  omega

section
variable {c : Config} {s : State} {l1 l2 : List Chunk} {k : Nat} (hc : c.Fits)

/-- the tiling when the block is free, before it is merged -/
theorem free_tiles (h : Tiled c s (l1 ++ ⟨k, false⟩ :: l2)) :
    pucAlignedHeap c + total (l1 ++ ⟨k, true⟩ :: l2) = endAddress c ∧
      ∀ d ∈ l1 ++ ⟨k, true⟩ :: l2, Sized d.size := by
  constructor
  · rw [← h.tiles, total_append, total_append, total_cons, total_cons]
  · intro d hd
    rw [List.mem_append, List.mem_cons] at hd
    rcases hd with hd | rfl | hd
    · exact h.sized d (by simp [hd])
    · exact h.sized ⟨k, false⟩ (by simp)
    · exact h.sized d (by simp [hd])

include hc

/-- **A block becomes free.** -/
theorem giveBack_spec (h : Tiled c s (l1 ++ ⟨k, false⟩ :: l2)) :
    wp (giveBack c (pucAlignedHeap c + total l1)) (fun _ t =>
      Tiled c t (merged (l1 ++ ⟨k, true⟩ :: l2)) ∧
      Untouched (pucAlignedHeap c) (l1 ++ ⟨k, true⟩ :: l2) s.mem t.mem ∧
      t.xFreeBytesRemaining = s.xFreeBytesRemaining + k ∧
      t.xMinimumEverFreeBytesRemaining = s.xMinimumEverFreeBytesRemaining ∧
      t.xNumberOfSuccessfulAllocations = s.xNumberOfSuccessfulAllocations ∧
      t.xNumberOfSuccessfulFrees = add s.xNumberOfSuccessfulFrees 1) s := by
  have hend := end_lt hc
  have hsmall := hc.small
  obtain ⟨hlo8, -, hlo, -, hfin⟩ := bounds hc
  obtain ⟨ht, hs⟩ := free_tiles h
  obtain ⟨ha8, hk, hak⟩ := block_bounds rfl ht hs
  dsimp only at hk hak
  have hk16 := hk.2
  have hsound := sound_gaps hc ht hs
  have hrounds := length_lt_rounds hc ht hs
  have hused := h.used (pucAlignedHeap c + total l1, k) (by simp [taken_append, taken_used])
  have howns := owns_heap hc (p := pucAlignedHeap c + total l1) (by omega) (by omega) (by omega)
  obtain ⟨q, x, hit⟩ : ∃ q x, (c.xStart, 0) :: gaps (pucAlignedHeap c) l1 = q ++ [x] := by
    rcases List.eq_nil_or_concat ((c.xStart, 0) :: gaps (pucAlignedHeap c) l1) with h | ⟨q, x, h⟩
    · exact absurd h (List.cons_ne_nil _ _)
    · exact ⟨q, x, by rw [h, List.concat_eq_append]⟩
  -- the list, without the block and with it
  have hlinked := h.linked
  rw [gaps_append, gaps_used, ← List.cons_append, hit, List.append_assoc] at hlinked
  have hgaps : (c.xStart, 0) :: gaps (pucAlignedHeap c) (l1 ++ ⟨k, true⟩ :: l2) =
      q ++ x :: (pucAlignedHeap c + total l1, k) :: gaps (pucAlignedHeap c + total l1 + k) l2 := by
    rw [gaps_append, gaps_free, ← List.cons_append, hit, List.append_assoc]
    rfl
  have hmem : x = (c.xStart, 0) ∨ x ∈ gaps (pucAlignedHeap c) (l1 ++ ⟨k, true⟩ :: l2) := by
    rw [← List.mem_cons, hgaps]
    simp
  have hq : q.length ≤ (gaps (pucAlignedHeap c) (l1 ++ ⟨k, true⟩ :: l2)).length := by
    have hlen := congrArg List.length hgaps
    simp only [List.length_cons, List.length_append] at hlen
    omega
  rw [hgaps, ← h.pxEnd] at hsound
  have hmark : clear (k + 2 ^ 31) s.xBlockAllocatedBit = k := by
    rw [h.bit]
    exact mark_cleared (by omega)
  rw [giveBack, wp_bind, xBlockSize, wp_load, hused.2, wp_bind, wp_get, hmark, wp_bind, setXBlockSize,
    wp_store, wp_bind, wp_modify, wp_bind]
  refine ⟨howns.2, howns.2, ?_⟩
  have hframe1 : ∀ b, ¬ (header (pucAlignedHeap c + total l1)).Has b →
      s.mem.store32 (pucAlignedHeap c + total l1 + 4) k b = s.mem b := fun b hb =>
    store_size_frame _ hb
  have hsize1 : (s.mem.store32 (pucAlignedHeap c + total l1 + 4) k).load32
      (pucAlignedHeap c + total l1 + 4) = k := Mem.load32_store32 _ _ (by omega)
  generalize s.mem.store32 (pucAlignedHeap c + total l1 + 4) k = m1 at hframe1 hsize1 ⊢
  have hapart : ∀ n ∈ q ++ x :: gaps (pucAlignedHeap c + total l1 + k) l2,
      Apart (pucAlignedHeap c + total l1, k) n := by
    obtain ⟨-, hxf, hqx⟩ := List.pairwise_append.mp hsound.apart
    rw [List.pairwise_cons, List.pairwise_cons] at hxf
    intro n hn
    rw [List.mem_append, List.mem_cons] at hn
    rcases hn with hn | rfl | hn
    · exact (hqx n hn _ (by simp)).symm
    · exact (hxf.1 _ (by simp)).symm
    · exact hxf.2.1 n hn
  have hins : Insertion c ((s.withMem m1).refund k) q x (pucAlignedHeap c + total l1, k)
      (gaps (pucAlignedHeap c + total l1 + k) l2) := by
    refine ⟨?_, hsize1, hsound, ?_⟩
    · exact hlinked.frame hapart hframe1
    · show s.pxEnd < 2 ^ 32
      rw [h.pxEnd]
      exact hend
  have hfirst : pucAlignedHeap c + total l1 + k ≤
      succ s.pxEnd (gaps (pucAlignedHeap c + total l1 + k) l2) := by
    rw [h.pxEnd]
    exact le_succ_gaps hak l2
  refine wp_mono (insert_spec hins (succ_of_head hit) ?_ (Nat.le_trans (Nat.le_add_right _ _) hfirst)
    (by omega)) ?_
  · rw [tail_of_head hit]
    intro n hn
    have h1 := (mem_gaps_bounds hn).2
    have h2 := (h.sized _ (List.mem_append_left _ (mem_of_gap hn))).2
    dsimp only at h2 ⊢
    omega
  rintro u t ⟨m2, rfl, hlinked2, hframe2⟩
  rw [wp_modify]
  have hmerged := List.isChain_append.mp h.merged
  have hmerged2 : Merged l2 := hmerged.2.1.tail
  have hrelease := gaps_release (k := k) (x := (c.xStart, 0)) hmerged.1 hmerged2 (fun d hd => Nat.lt_of_lt_of_le (by decide) (h.sized d (by
      rw [List.mem_append] at hd ⊢
      exact hd.imp_right (List.mem_cons_of_mem _))).2)
    (head_ne hc (by omega) (by omega)) hit
  have houtside : ∀ b, ¬ Inside c (l1 ++ ⟨k, true⟩ :: l2) b → m2 b = s.mem b := by
    intro b hb
    have hba : ¬ (header (pucAlignedHeap c + total l1)).Has b := by
      intro hb'
      rw [header_has] at hb'
      exact hb (Or.inr ⟨(pucAlignedHeap c + total l1, k), by simp [gaps_append, gaps_free],
        by dsimp only; omega⟩)
    exact (hframe2 b (fun hx => hb (inside_of_node hs hmem hx)) hba).trans (hframe1 b hba)
  obtain ⟨huntouched, hlast⟩ := outside hc ht hs houtside
  have hfree : freeBytes (l1 ++ ⟨k, true⟩ :: l2) = s.xFreeBytesRemaining + k := by
    have h1 : freeBytes (⟨k, true⟩ :: l2) = k + freeBytes l2 := by
      rw [freeBytes, gaps_free, List.map_cons, List.sum_cons, sum_gaps]
    have h2 : freeBytes (⟨k, false⟩ :: l2) = freeBytes l2 := by
      rw [freeBytes, gaps_used, sum_gaps]
    rw [h.bytes, freeBytes_append, freeBytes_append, h1, h2]
    omega
  have hadd : add s.xFreeBytesRemaining k = s.xFreeBytesRemaining + k := by
    have hle := freeBytes_le_total (l1 ++ ⟨k, true⟩ :: l2)
    exact add_eq (by omega)
  refine ⟨⟨h.pxEnd, ?_, ?_, ?_, ?_, forall_merged sized_add hs, merged_merged _, h.bit, ?_⟩,
    huntouched, hadd, rfl, rfl, rfl⟩
  · rw [total_merged]
    exact ht
  · rw [hrelease]
    exact hlinked2
  · rw [← h.pxEnd] at hlast
    exact ⟨hlast.1.trans h.last.1, hlast.2.trans h.last.2⟩
  · intro u hu
    rw [taken_merged] at hu
    have h8 := (hs _ (mem_of_taken hu)).2
    obtain ⟨h1, h2⟩ := huntouched.header hu (Nat.le_trans (by decide) h8)
    have hold := h.used u (by
      rw [taken_append, taken_free] at hu
      rw [taken_append, taken_used, List.mem_append, List.mem_cons]
      exact (List.mem_append.mp hu).imp_right Or.inr)
    exact ⟨h1.trans hold.1, h2.trans hold.2⟩
  · rw [freeBytes_merged, hfree]
    exact hadd

/-- **What `vPortFree` does** with a pointer that was handed out. -/
theorem vPortFree_spec (h : Tiled c s (l1 ++ ⟨k, false⟩ :: l2)) :
    wp (vPortFree c (pucAlignedHeap c + total l1 + 8)) (fun _ t =>
      Tiled c t (merged (l1 ++ ⟨k, true⟩ :: l2)) ∧
      Untouched (pucAlignedHeap c) (l1 ++ ⟨k, true⟩ :: l2) s.mem t.mem ∧
      t.xFreeBytesRemaining = s.xFreeBytesRemaining + k ∧
      t.xMinimumEverFreeBytesRemaining = s.xMinimumEverFreeBytesRemaining ∧
      t.xNumberOfSuccessfulAllocations = s.xNumberOfSuccessfulAllocations ∧
      t.xNumberOfSuccessfulFrees = add s.xNumberOfSuccessfulFrees 1) s := by
  have hsmall := hc.small
  have hheap := hc.heap_end
  obtain ⟨hlo8, -, hlo, -, hfin⟩ := bounds hc
  obtain ⟨ha8, hk, hak⟩ := block_bounds rfl h.tiles h.sized
  dsimp only at hk hak
  have hk16 := hk.2
  have hused := h.used (pucAlignedHeap c + total l1, k) (by simp [taken_append, taken_used])
  have howns := owns_heap hc (p := pucAlignedHeap c + total l1) (by omega) (by omega) (by omega)
  have hsub : sub (pucAlignedHeap c + total l1 + 8) xHeapStructSize = pucAlignedHeap c + total l1 := by
    rw [xHeapStructSize, sub_eq (by omega) (by omega), Nat.add_sub_cancel]
  rw [vPortFree, if_pos (by omega), hsub, wp_bind, xBlockSize, wp_load, hused.2, wp_bind, wp_get, h.bit,
    if_pos (mark_seen (by omega)), wp_bind, pxNextFreeBlock, wp_load, hused.1, if_pos rfl]
  exact ⟨howns.2, howns.1, giveBack_spec hc h⟩

end

/-! ## `vPortGetHeapStats` -/

def counted (y : Tally) (l : List Node) : Tally := l.foldl (fun y g => y.count g.2) y

section
variable {c : Config} {s : State} {e : Nat} {l : List Node}

theorem tally_spec {n : Nat} {g : Node} {y : Tally} (hl : Linked s.mem s.pxEnd (g :: l))
    (hown : ∀ n ∈ g :: l, c.Owns n.1 ∧ c.Owns (n.1 + 4)) (hne : ∀ n ∈ l, n.1 ≠ s.pxEnd)
    (hn : l.length < n) :
    wp (tally c n g.1 y) (fun r t => t = s ∧ r = counted y (g :: l)) s := by
  induction l generalizing n g y with
  | nil =>
    obtain ⟨n, rfl⟩ : ∃ k, n = k + 1 := ⟨n - 1, by omega⟩
    obtain ⟨hg, hg4⟩ := hown g List.mem_cons_self
    have hnext : s.mem.load32 g.1 = s.pxEnd := hl.1
    rw [tally, wp_bind, xBlockSize, wp_load, hl.2.1, wp_bind, pxNextFreeBlock, wp_load, hnext, wp_bind,
      wp_get, if_neg (fun h => h rfl), wp_pure]
    exact ⟨hg4, hg, rfl, rfl⟩
  | cons d l ih =>
    obtain ⟨n, rfl⟩ : ∃ k, n = k + 1 := ⟨n - 1, by omega⟩
    obtain ⟨hg, hg4⟩ := hown g List.mem_cons_self
    have hnext : s.mem.load32 g.1 = d.1 := hl.1
    rw [tally, wp_bind, xBlockSize, wp_load, hl.2.1, wp_bind, pxNextFreeBlock, wp_load, hnext, wp_bind,
      wp_get, if_pos (hne d List.mem_cons_self)]
    refine ⟨hg4, hg, ?_⟩
    apply ih hl.2.2 (fun k hk => hown k (List.mem_cons_of_mem _ hk))
    · exact fun k hk => hne k (List.mem_cons_of_mem _ hk)
    · rw [List.length_cons] at hn
      omega

/-- the three numbers are those of the sizes in `l` -/
structure Counts (y : Tally) (l : List Node) : Prop where
  number : y.xBlocks = l.length
  largest : ∃ g ∈ l, g.2 = y.xMaxSize
  le_largest : ∀ g ∈ l, g.2 ≤ y.xMaxSize
  smallest : ∃ g ∈ l, g.2 = y.xMinSize
  smallest_le : ∀ g ∈ l, y.xMinSize ≤ g.2

theorem Counts.snoc {y : Tally} {g : Node} (h : Counts y l) (hlen : l.length + 1 < 2 ^ 32) :
    Counts (y.count g.2) (l ++ [g]) := by
  obtain ⟨a, ha, hal⟩ := h.largest
  obtain ⟨b, hb, hbs⟩ := h.smallest
  have hmax := h.le_largest
  have hmin := h.smallest_le
  refine ⟨?_, ?_, ?_, ?_, ?_⟩
  · rw [Tally.count, List.length_append, h.number]
    exact add_eq hlen
  · rw [Tally.count]
    dsimp only
    split
    · exact ⟨g, by simp, rfl⟩
    · exact ⟨a, by simp [ha], hal⟩
  · rw [Tally.count]
    dsimp only
    intro k hk
    rw [List.mem_append, List.mem_singleton] at hk
    split
    all_goals
      rcases hk with hk | rfl
      · have := hmax k hk
        omega
      · omega
  · rw [Tally.count]
    dsimp only
    split
    · exact ⟨g, by simp, rfl⟩
    · exact ⟨b, by simp [hb], hbs⟩
  · rw [Tally.count]
    dsimp only
    intro k hk
    rw [List.mem_append, List.mem_singleton] at hk
    split
    all_goals
      rcases hk with hk | rfl
      · have := hmin k hk
        omega
      · omega

theorem counts_counted {g : Node} (hsize : g.2 < 2 ^ 32) (hpos : 0 < g.2)
    (hlen : (g :: l).length < 2 ^ 32) : Counts (counted ⟨0, 0, portMAX_DELAY⟩ (g :: l)) (g :: l) := by
  induction l using List.reverseRecOn with
  | nil =>
    have hcount : counted ⟨0, 0, portMAX_DELAY⟩ [g] = ⟨1, g.2, g.2⟩ := by
      show Tally.count _ g.2 = _
      rw [Tally.count, add_eq (by decide), if_pos hpos]
      unfold portMAX_DELAY
      dsimp only
      split
      · rfl
      · have hmax : g.2 = 0xffffffff := by omega
        rw [← hmax]
    rw [hcount]
    exact ⟨rfl, ⟨g, by simp, rfl⟩, by simp, ⟨g, by simp, rfl⟩, by simp⟩
  | append_singleton l d ih =>
    rw [← List.cons_append, List.length_append, List.length_singleton] at hlen
    rw [← List.cons_append, counted, List.foldl_append]
    exact (ih (by omega)).snoc hlen

/-- what `vPortGetHeapStats` is there to report -/
structure Reports (s : State) (l : List Node) (r : HeapStats) : Prop where
  counts : Counts ⟨r.xNumberOfFreeBlocks, r.xSizeOfLargestFreeBlockInBytes,
    r.xSizeOfSmallestFreeBlockInBytes⟩ l
  available : r.xAvailableHeapSpaceInBytes = (l.map Prod.snd).sum
  minimum : r.xMinimumEverFreeBytesRemaining = s.xMinimumEverFreeBytesRemaining
  allocations : r.xNumberOfSuccessfulAllocations = s.xNumberOfSuccessfulAllocations
  frees : r.xNumberOfSuccessfulFrees = s.xNumberOfSuccessfulFrees

end

section
variable {c : Config} {s : State} {cs : List Chunk} (hc : c.Fits)
include hc

theorem stats_exact (h : Tiled c s cs) (hne : gaps (pucAlignedHeap c) cs ≠ []) :
    wp (vPortGetHeapStats c) (fun r t => t = s ∧ Reports s (gaps (pucAlignedHeap c) cs) r) s := by
  have hsound := sound_gaps hc h.tiles h.sized
  have hbytes := h.bytes
  rw [← sum_gaps (pucAlignedHeap c)] at hbytes
  have hrounds := length_lt_rounds hc h.tiles h.sized
  have hlinked := h.linked
  have hbound : ∀ g ∈ gaps (pucAlignedHeap c) cs, pucAlignedHeap c ≤ g.1 ∧ 16 ≤ g.2 := fun g hg =>
    ⟨(gap_bounds hg h.tiles h.sized).2.2.1, (gap_bounds hg h.tiles h.sized).2.1.2⟩
  obtain ⟨-, -, hlo, -, hfin⟩ := bounds hc
  have hpos := hc.heap_pos
  have hheap := hc.heap_end
  have hlen : 16 * (gaps (pucAlignedHeap c) cs).length ≤ total cs := length_gaps_le h.sized
  have htiles := h.tiles
  rw [← h.pxEnd] at hsound
  rw [vPortGetHeapStats, wp_bind, pxNextFreeBlock, wp_load, hlinked.1]
  generalize gaps (pucAlignedHeap c) cs = gs at *
  cases gs with
  | nil => exact absurd rfl hne
  | cons g gs =>
    have hg := hbound g List.mem_cons_self
    have hg0 : g.1 ≠ 0 := by omega
    have htally := tally_spec (c := c) (n := c.rounds) (y := ⟨0, 0, portMAX_DELAY⟩) hlinked.2.2
      (fun k hk => hsound.owned k (List.mem_cons_of_mem _ hk))
      (fun k hk => hsound.ne_end k (by simp [hk])) (by rw [List.length_cons] at hrounds; omega)
    have hcounts := counts_counted (l := gs) (g := g)
      (Nat.lt_of_le_of_lt (Nat.le_add_left _ _) (hsound.small g (by simp)))
      (Nat.lt_of_lt_of_le (by decide) hg.2) (by omega)
    refine ⟨(owns_head hc).1, ?_⟩
    rw [wp_bind, tallied, show succ s.pxEnd (g :: gs) = g.1 from rfl, if_pos hg0]
    refine wp_mono htally ?_
    rintro y t ⟨rfl, rfl⟩
    rw [wp_bind, wp_get, wp_pure]
    exact ⟨rfl, hcounts, hbytes, rfl, rfl, rfl⟩

/-- without a free block the loop steps over the end marker and follows a null pointer -/
theorem stats_fault (h : Tiled c s cs) (hnil : gaps (pucAlignedHeap c) cs = [])
    (Q : HeapStats → State → Prop) : ¬ wp (vPortGetHeapStats c) Q s := by
  have hne := tiled_pxEnd_ne hc h
  have hhead : s.mem.load32 c.xStart = s.pxEnd := by
    rw [h.linked.1, hnil]
    rfl
  have hown : ¬ c.Owns 4 := by
    have h1 := hc.heap_pos
    have h2 := hc.head_pos
    rintro ⟨-, ⟨h3, -⟩ | ⟨h3, -⟩⟩
    · dsimp only at h3
      omega
    · dsimp only at h3
      omega
  obtain ⟨n, hn⟩ : ∃ n, c.rounds = n + 2 := by
    have h1 := hc.rounds
    have h2 := hc.large
    exact ⟨c.rounds - 2, by omega⟩
  rw [vPortGetHeapStats, wp_bind, pxNextFreeBlock, wp_load, hhead, wp_bind, tallied, if_pos hne, hn,
    tally, wp_bind, xBlockSize, wp_load, wp_bind, pxNextFreeBlock, wp_load, h.last.1, wp_bind, wp_get,
    if_pos (Ne.symm hne), tally, wp_bind, xBlockSize, wp_load]
  exact fun hwp => hown hwp.2.2.2.1

end

end MTower.PortHeap
