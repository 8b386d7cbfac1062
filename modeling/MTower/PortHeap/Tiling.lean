import MTower.PortHeap.Links

/-!
# The array cut into blocks

Behind `prvHeapInit` the array is cut into blocks: `Tiled c s cs` says that the memory holds the
blocks `cs` one behind the other, the free ones in the list and the others marked as allocated, that
no two free ones lie side by side, and that the number of free bytes is right.

* `Config.Fits`          what is asked of the addresses;
* `initialised_spec`     `prvHeapInit` makes one free block;
* `takeBlock_spec`       a block gets its owner;
* `giveBack_spec`        a block goes back, and is joined to the free blocks that it touches.
-/

set_option linter.unusedVariables false

namespace MTower.PortHeap
open Lib Lib.Chunks

/-! ## addresses -/

/-- the array and the list head lie where memory is, apart from each other and from the null pointer,
and the array is not tiny -/
structure Config.Fits (c : Config) : Prop where
  heap_pos : 8 ≤ c.ucHeap
  heap_end : c.ucHeap + c.configTOTAL_HEAP_SIZE < 2 ^ 32
  large : 40 ≤ c.configTOTAL_HEAP_SIZE
  small : c.configTOTAL_HEAP_SIZE < 2 ^ 31
  head_pos : 8 ≤ c.xStart
  head_aligned : c.xStart % 4 = 0
  head_end : c.xStart + 8 < 2 ^ 32
  head_apart : c.xStart + 8 ≤ c.ucHeap ∨ c.ucHeap + c.configTOTAL_HEAP_SIZE ≤ c.xStart
  rounds : c.configTOTAL_HEAP_SIZE ≤ c.rounds

theorem mask_eq (x : Nat) : x &&& portBYTE_ALIGNMENT_MASK = x % 8 :=
  Nat.and_two_pow_sub_one_eq_mod x 3

theorem clear_mask {x : Nat} (h : x < 2 ^ 32) : clear x portBYTE_ALIGNMENT_MASK = x / 8 * 8 := by
  rw [clear]
  exact land_high_mask (k := 3) (by decide) h

section
variable {c : Config} (hc : c.Fits)
include hc

theorem aligned_eq : pucAlignedHeap c = (c.ucHeap + 7) / 8 * 8 := by
  have h1 := hc.heap_end
  have h2 := hc.large
  rw [pucAlignedHeap, mask_eq]
  split
  · rw [add_eq (by unfold portBYTE_ALIGNMENT; omega), clear_mask (by unfold portBYTE_ALIGNMENT; omega)]
    rfl
  · omega

theorem endAddress_eq : endAddress c = (c.ucHeap + c.configTOTAL_HEAP_SIZE - 8) / 8 * 8 := by
  have h1 := hc.heap_end
  have h2 := hc.large
  have hsum : pucAlignedHeap c + xTotalHeapSize c = c.ucHeap + c.configTOTAL_HEAP_SIZE := by
    have h3 := aligned_eq hc
    rw [xTotalHeapSize, mask_eq]
    split
    · rw [sub_eq (x := pucAlignedHeap c) (by omega) (by omega), sub_eq (by omega) (by omega)]
      omega
    · omega
  rw [endAddress, add_eq (by omega), hsum, xHeapStructSize, sub_eq (by omega) (by omega),
    clear_mask (by omega)]

/-- what the proofs need of the addresses -/
theorem bounds : pucAlignedHeap c % 8 = 0 ∧ endAddress c % 8 = 0 ∧ c.ucHeap ≤ pucAlignedHeap c ∧
    pucAlignedHeap c + 16 ≤ endAddress c ∧
      endAddress c + 8 ≤ c.ucHeap + c.configTOTAL_HEAP_SIZE := by
  have h1 := hc.large
  have h2 := hc.heap_pos
  rw [aligned_eq hc, endAddress_eq hc]
  omega

theorem owns_heap {p : Nat} (h8 : p % 8 = 0) (h1 : pucAlignedHeap c ≤ p) (h2 : p ≤ endAddress c) :
    c.Owns p ∧ c.Owns (p + 4) := by
  obtain ⟨-, -, h3, -, h4⟩ := bounds hc
  constructor
  · refine ⟨by omega, Or.inl ⟨?_, ?_⟩⟩
    · dsimp only
      omega
    · simp only [Range.stop]
      omega
  · refine ⟨by omega, Or.inl ⟨?_, ?_⟩⟩
    · dsimp only
      omega
    · simp only [Range.stop]
      omega

theorem owns_head : c.Owns c.xStart ∧ c.Owns (c.xStart + 4) := by
  have h := hc.head_aligned
  constructor
  · refine ⟨h, Or.inr ⟨Nat.le_refl _, ?_⟩⟩
    simp only [Range.stop]
    omega
  · refine ⟨by omega, Or.inr ⟨Nat.le_add_right _ _, ?_⟩⟩
    simp only [Range.stop]
    omega

end

/-! ## sizes -/

/-- what the size of a block is like -/
def Sized (n : Nat) : Prop := n % 8 = 0 ∧ 16 ≤ n

theorem sized_add (m n : Nat) (hm : Sized m) (hn : Sized n) : Sized (m + n) := by
  unfold Sized at *
  omega

theorem total_mod {cs : List Chunk} (h : ∀ c ∈ cs, Sized c.size) : total cs % 8 = 0 := by
  induction cs with
  | nil => rfl
  | cons c cs ih =>
    have h1 := (h c List.mem_cons_self).1
    have h2 := ih fun d hd => h d (List.mem_cons_of_mem _ hd)
    rw [total_cons]
    omega

theorem length_gaps_le {lo : Nat} {cs : List Chunk} (h : ∀ c ∈ cs, Sized c.size) :
    16 * (gaps lo cs).length ≤ total cs := by
  induction cs generalizing lo with
  | nil => rfl
  | cons c cs ih =>
    have h1 := (h c List.mem_cons_self).2
    have h2 : 16 * (gaps (lo + c.size) cs).length ≤ total cs := ih fun d hd =>
      h d (List.mem_cons_of_mem _ hd)
    rw [gaps, total_cons]
    split
    · rw [List.length_cons]
      omega
    · omega

/-! ## the invariant -/

def freeBytes (cs : List Chunk) : Nat := ((gaps 0 cs).map Prod.snd).sum

theorem sum_gaps (lo : Nat) (cs : List Chunk) : ((gaps lo cs).map Prod.snd).sum = freeBytes cs := by
  have hall : ∀ a b, (gaps a cs).map Prod.snd = (gaps b cs).map Prod.snd := by
    induction cs with
    | nil => exact fun a b => rfl
    | cons c cs ih =>
      intro a b
      rw [gaps, gaps]
      split
      · rw [List.map_cons, List.map_cons, ih (a + c.size) (b + c.size)]
      · exact ih _ _
  rw [freeBytes, hall lo 0]

structure Tiled (c : Config) (s : State) (cs : List Chunk) : Prop where
  pxEnd : s.pxEnd = endAddress c
  tiles : pucAlignedHeap c + total cs = endAddress c
  linked : Linked s.mem s.pxEnd ((c.xStart, 0) :: gaps (pucAlignedHeap c) cs)
  last : s.mem.load32 s.pxEnd = 0 ∧ s.mem.load32 (s.pxEnd + 4) = 0
  used : ∀ u ∈ taken (pucAlignedHeap c) cs,
    s.mem.load32 u.1 = 0 ∧ s.mem.load32 (u.1 + 4) = u.2 + 2 ^ 31
  sized : ∀ d ∈ cs, Sized d.size
  merged : Merged cs
  bit : s.xBlockAllocatedBit = 2 ^ 31
  bytes : s.xFreeBytesRemaining = freeBytes cs

section
variable {c : Config} {s : State} {cs : List Chunk} (hc : c.Fits)

/-- where a block can lie -/
theorem block_bounds {l1 l2 : List Chunk} {d : Chunk} (hcs : cs = l1 ++ d :: l2)
    (ht : pucAlignedHeap c + total cs = endAddress c) (hs : ∀ d ∈ cs, Sized d.size) :
    (pucAlignedHeap c + total l1) % 8 = pucAlignedHeap c % 8 ∧ Sized d.size ∧
      pucAlignedHeap c + total l1 + d.size ≤ endAddress c := by
  subst hcs
  have h1 := total_mod fun d hd => hs d (List.mem_append_left _ hd)
  have h2 := hs d (by simp)
  rw [total_append, total_cons] at ht
  exact ⟨by omega, h2, by omega⟩

theorem gap_bounds {g : Node} (hg : g ∈ gaps (pucAlignedHeap c) cs)
    (ht : pucAlignedHeap c + total cs = endAddress c) (hs : ∀ d ∈ cs, Sized d.size) :
    g.1 % 8 = pucAlignedHeap c % 8 ∧ Sized g.2 ∧ pucAlignedHeap c ≤ g.1 ∧
      g.1 + g.2 ≤ endAddress c := by
  obtain ⟨g1, g2, hg⟩ := List.append_of_mem hg
  obtain ⟨l1, l2, hcs, ha, -⟩ := gaps_split (a := g.1) (k := g.2) hg
  obtain ⟨h1, h2, h3⟩ := block_bounds hcs ht hs
  rw [← ha] at h1 h3
  exact ⟨h1, h2, by omega, h3⟩

theorem taken_bounds {u : Node} (hu : u ∈ taken (pucAlignedHeap c) cs)
    (ht : pucAlignedHeap c + total cs = endAddress c) (hs : ∀ d ∈ cs, Sized d.size) :
    u.1 % 8 = pucAlignedHeap c % 8 ∧ Sized u.2 ∧ pucAlignedHeap c ≤ u.1 ∧
      u.1 + u.2 ≤ endAddress c := by
  obtain ⟨l1, l2, hcs, ha⟩ := taken_split (a := u.1) (k := u.2) hu
  obtain ⟨h1, h2, h3⟩ := block_bounds hcs ht hs
  rw [← ha] at h1 h3
  exact ⟨h1, h2, by omega, h3⟩

include hc

/-- a block does not meet the list head -/
theorem head_apart {p : Nat} (h1 : pucAlignedHeap c ≤ p) (h2 : p ≤ endAddress c) :
    c.xStart + 8 ≤ p ∨ p + 8 ≤ c.xStart := by
  obtain ⟨-, -, h3, -, h4⟩ := bounds hc
  rcases hc.head_apart with h | h
  · exact Or.inl (by omega)
  · exact Or.inr (by omega)

/-- **The free blocks can be in a list.** -/
theorem sound_gaps (ht : pucAlignedHeap c + total cs = endAddress c)
    (hs : ∀ d ∈ cs, Sized d.size) :
    Sound c (endAddress c) ((c.xStart, 0) :: gaps (pucAlignedHeap c) cs) := by
  obtain ⟨h8, he8, h3, -, h4⟩ := bounds hc
  have hend := hc.heap_end
  have hhead := hc.head_end
  have hsmall := hc.small
  refine ⟨?_, ?_, ?_, ?_⟩
  · rw [List.forall_mem_cons]
    refine ⟨owns_head hc, fun g hg => ?_⟩
    obtain ⟨h1, h2, h3, h4⟩ := gap_bounds hg ht hs
    exact owns_heap hc (by omega) h3 (by omega)
  · rw [List.pairwise_cons]
    constructor
    · intro g hg
      obtain ⟨h1, h2, h3, h4⟩ := gap_bounds hg ht hs
      exact head_apart hc h3 (by omega)
    · refine (gaps_pairwise (pucAlignedHeap c) cs).imp_of_mem fun hg _ h => Or.inl ?_
      have h2 := (gap_bounds hg ht hs).2.1.2
      omega
  · rw [List.forall_mem_cons]
    constructor
    · have := head_apart hc (p := endAddress c) (by omega) (Nat.le_refl _)
      dsimp only
      omega
    · intro g hg
      obtain ⟨h1, h2, h3, h4⟩ := gap_bounds hg ht hs
      have := h2.2
      omega
  · rw [List.forall_mem_cons]
    constructor
    · dsimp only
      omega
    · intro g hg
      have := (gap_bounds hg ht hs).2.2.2
      omega

end

/-! ## the first call -/

section
variable {c : Config} {s : State} {p n k : Nat}

/-- the header of `p` holds `n` and `k`, and nothing else has changed -/
def Written (m m' : Mem) (p n k : Nat) : Prop :=
  m'.load32 p = n ∧ m'.load32 (p + 4) = k ∧ ∀ a, ¬ (header p).Has a → m' a = m a

theorem write_size_next {α : Type} {f : Unit → M α} {Q : α → State → Prop}
    (hp : c.Owns p ∧ c.Owns (p + 4)) (hn : n < 2 ^ 32) (hk : k < 2 ^ 32)
    (h : ∀ m', Written s.mem m' p n k → wp (f ()) Q (s.withMem m')) :
    wp (setXBlockSize c p k >>= fun _ => setPxNextFreeBlock c p n >>= f) Q s := by
  rw [wp_bind, setXBlockSize, wp_store, wp_bind, setPxNextFreeBlock, wp_store]
  refine ⟨hp.2, hp.1, h _ ⟨Mem.load32_store32 _ _ hn, ?_, fun a ha => ?_⟩⟩
  · exact (load32_store32_behind _ _ _).trans (Mem.load32_store32 _ _ hk)
  · exact (store_next_frame _ ha).trans (store_size_frame _ ha)

theorem write_next_size {α : Type} {f : Unit → M α} {Q : α → State → Prop}
    (hp : c.Owns p ∧ c.Owns (p + 4)) (hn : n < 2 ^ 32) (hk : k < 2 ^ 32)
    (h : ∀ m', Written s.mem m' p n k → wp (f ()) Q (s.withMem m')) :
    wp (setPxNextFreeBlock c p n >>= fun _ => setXBlockSize c p k >>= f) Q s := by
  rw [wp_bind, setPxNextFreeBlock, wp_store, wp_bind, setXBlockSize, wp_store]
  refine ⟨hp.1, hp.2, h _ ⟨?_, Mem.load32_store32 _ _ hk, fun a ha => ?_⟩⟩
  · exact (load32_store32_before _ _ _).trans (Mem.load32_store32 _ _ hn)
  · exact (store_size_frame _ ha).trans (store_next_frame _ ha)

end

section
variable {c : Config} {s : State} (hc : c.Fits)
include hc

/-- **One free block.** -/
theorem prvHeapInit_spec : wp (prvHeapInit c) (fun _ t =>
    Tiled c t [⟨endAddress c - pucAlignedHeap c, true⟩] ∧
      t.xMinimumEverFreeBytesRemaining = t.xFreeBytesRemaining ∧
      t.xNumberOfSuccessfulAllocations = s.xNumberOfSuccessfulAllocations ∧
      t.xNumberOfSuccessfulFrees = s.xNumberOfSuccessfulFrees) s := by
  obtain ⟨h8, he8, h3, h4, h5⟩ := bounds hc
  have hend := hc.heap_end
  have hsmall := hc.small
  have hb := owns_heap hc h8 (Nat.le_refl _) (by omega)
  have hxb := head_apart hc (p := pucAlignedHeap c) (Nat.le_refl _) (by omega)
  have hxe := head_apart hc (p := endAddress c) (by omega) (Nat.le_refl _)
  rw [prvHeapInit, sub_eq (x := endAddress c) (y := pucAlignedHeap c) (by omega) (by omega)]
  -- the list head, then the end marker, then the block
  apply write_next_size (owns_head hc) (by omega) (by omega)
  rintro m1 ⟨hnext1, hsize1, hf1⟩
  rw [wp_bind, wp_modify]
  apply write_size_next (owns_heap hc he8 (by omega) (Nat.le_refl _)) (by omega) (by omega)
  rintro m2 ⟨hnext2, hsize2, hf2⟩
  apply write_size_next hb (by omega) (by omega)
  rintro m3 ⟨hnext3, hsize3, hf3⟩
  rw [wp_bind, xBlockSize, wp_load, wp_modify]
  have hhead2 := Apart.frame (b := (endAddress c, 0)) (n := (c.xStart, 0)) hxe.symm hf2
  have hhead3 := Apart.frame (b := (pucAlignedHeap c, 0)) (n := (c.xStart, 0)) hxb.symm hf3
  have hlast3 := Apart.frame (b := (pucAlignedHeap c, 0)) (n := (endAddress c, 0))
    (Or.inl (by dsimp only; omega)) hf3
  refine ⟨hb.2, ⟨rfl, ?_, ?_, ?_, ?_, ?_, ?_, rfl, ?_⟩, rfl, rfl, rfl⟩
  · rw [total_cons, total_nil]
    dsimp only
    omega
  · rw [gaps_single]
    exact linked_pair (hhead3.1.trans (hhead2.1.trans hnext1))
      (hhead3.2.trans (hhead2.2.trans hsize1)) hnext3 hsize3
  · exact ⟨hlast3.1.trans hnext2, hlast3.2.trans hsize2⟩
  · exact fun u hu => absurd hu List.not_mem_nil
  · intro d hd
    rw [List.mem_singleton.mp hd, Sized]
    dsimp only
    omega
  · exact List.isChain_singleton _
  · exact hsize3.trans (Nat.add_zero _).symm

end

/-! ## marks -/

theorem marked {k : Nat} (h : k < 2 ^ 31) : k ||| 2 ^ 31 = k + 2 ^ 31 := by
  have hor := Nat.two_pow_add_eq_or_of_lt h 1
  rw [Nat.mul_one] at hor
  rw [Nat.or_comm, ← hor, Nat.add_comm]

theorem mark_seen {k : Nat} (h : k < 2 ^ 31) : (k + 2 ^ 31) &&& 2 ^ 31 ≠ 0 := by
  have htest : (k + 2 ^ 31).testBit 31 = true := by
    rw [Nat.testBit_eq_decide_div_mod_eq, decide_eq_true_eq]
    omega
  rw [Nat.and_two_pow, htest]
  decide

theorem mark_cleared {k : Nat} (h : k < 2 ^ 31) : clear (k + 2 ^ 31) (2 ^ 31) = k := by
  have hmask : 2 ^ 32 - 1 - 2 ^ 31 = 2 ^ 31 - 1 := rfl
  rw [clear, hmask, Nat.and_two_pow_sub_one_eq_mod]
  omega

/-! ## a block gets its owner -/

/-- the bytes of the blocks in use are the same -/
def Untouched (lo : Nat) (cs : List Chunk) (m m' : Mem) : Prop :=
  ∀ u ∈ taken lo cs, ∀ a, u.1 ≤ a → a < u.1 + u.2 → m' a = m a

theorem Untouched.header {lo : Nat} {cs : List Chunk} {m m' : Mem} (h : Untouched lo cs m m')
    {u : Node} (hu : u ∈ taken lo cs) (h8 : 8 ≤ u.2) :
    m'.load32 u.1 = m.load32 u.1 ∧ m'.load32 (u.1 + 4) = m.load32 (u.1 + 4) :=
  header_congr fun a ha => h u hu a ha.1 (by
    rw [header_has] at ha
    omega)

/-- what is left when a block of `k` bytes gives `w` -/
def rest (a k w : Nat) (f : List Node) : List Node :=
  if heapMINIMUM_BLOCK_SIZE < k - w then (a + w, k - w) :: f else f

/-- how much the owner gets -/
def given (k w : Nat) : Nat := if heapMINIMUM_BLOCK_SIZE < k - w then w else k

/-- the block behind the new owner's, where there is one, can be put into the list behind `x` -/
structure Splits (c : Config) (e a k w : Nat) (q : List Node) (x : Node) (f : List Node) : Prop where
  sound : Sound c e (q ++ x :: (a + w, k - w) :: f)
  below : ∀ n ∈ (q ++ [x]).tail, n.1 < a + w
  stop : a + w ≤ succ e f
  between : between x (a + w, k - w) f = x :: (a + w, k - w) :: f

section
variable {c : Config} {s : State} {a k w : Nat} {q f : List Node} {x : Node}

theorem splitBlock_spec (hl : Linked s.mem s.pxEnd (q ++ x :: f))
    (hsize : s.mem.load32 (a + 4) = k) (ha : c.Owns (a + 4)) (hwk : w ≤ k) (hw : 16 ≤ w)
    (hk : a + k < 2 ^ 32) (he : s.pxEnd < 2 ^ 32) (hhead : succ x.1 q = c.xStart)
    (hn : q.length < c.rounds)
    (hsplit : heapMINIMUM_BLOCK_SIZE < k - w → Splits c s.pxEnd a k w q x f)
    (hapart : ∀ n ∈ q ++ x :: f, Apart (a, k) n) :
    wp (splitBlock c a w) (fun _ t => ∃ m', t = s.withMem m' ∧
      Linked m' s.pxEnd (q ++ x :: rest a k w f) ∧ m'.load32 (a + 4) = given k w ∧
      ∀ b, ¬ (header x.1).Has b → ¬ (a ≤ b ∧ b < a + k) → m' b = s.mem b) s := by
  rw [splitBlock, wp_bind, xBlockSize, wp_load, hsize, sub_eq (by omega) hwk, rest, given]
  refine ⟨ha, ?_⟩
  by_cases hlarge : heapMINIMUM_BLOCK_SIZE < k - w
  · obtain ⟨hsound, hbelow, hstop, hbetween⟩ := hsplit hlarge
    obtain ⟨hb, hb4⟩ := hsound.owned (a + w, k - w) (by simp)
    rw [if_pos hlarge, if_pos hlarge, if_pos hlarge, add_eq (by omega), wp_bind, setXBlockSize, wp_store,
      wp_bind, setXBlockSize, wp_store, State.withMem_withMem, State.withMem_mem]
    refine ⟨hb4, ha, ?_⟩
    generalize hm : (s.mem.store32 (a + w + 4) (k - w)).store32 (a + 4) w = m
    have hpair := List.pairwise_append.mp hsound.apart
    have hnew : ∀ n ∈ q ++ x :: f, Apart (a + w, k - w) n := by
      intro n hn
      rw [List.mem_append, List.mem_cons] at hn
      rcases hn with hn | rfl | hn
      · exact (hpair.2.2 n hn _ (by simp)).symm
      · exact ((List.pairwise_cons.mp hpair.2.1).1 _ (by simp)).symm
      · exact (List.pairwise_cons.mp (List.pairwise_cons.mp hpair.2.1).2).1 n hn
    have hlinked : Linked m s.pxEnd (q ++ x :: f) := by
      rw [← hm]
      exact (hl.frame hnew fun b hb => store_size_frame _ hb).frame hapart fun b hb =>
        store_size_frame _ hb
    have hins : Insertion c (s.withMem m) q x (a + w, k - w) f := by
      refine ⟨hlinked, ?_, hsound, he⟩
      rw [State.withMem_mem, ← hm, Mem.load32_store32_of_disjoint]
      · exact Mem.load32_store32 _ _ (by omega)
      · exact Or.inl (by simp only [Range.stop]; omega)
    refine wp_mono (insert_spec hins hhead hbelow hstop hn) ?_
    rintro u t ⟨m', rfl, hlinked', hm'⟩
    rw [hbetween] at hlinked'
    have hsame : m'.load32 a = m.load32 a ∧ m'.load32 (a + 4) = m.load32 (a + 4) := by
      apply header_congr
      intro b hb
      refine hm' b ?_ ?_
      · exact (hapart x (by simp)).symm.not_has hb
      · rw [header_has] at hb ⊢
        omega
    refine ⟨m', rfl, hlinked', ?_, fun b hb hout => ?_⟩
    · rw [hsame.2, ← hm]
      exact Mem.load32_store32 _ _ (by omega)
    · have hmin : heapMINIMUM_BLOCK_SIZE = 16 := rfl
      have hb2 : ¬ (header (a + w)).Has b := by
        rw [header_has]
        omega
      have hb1 : ¬ (header a).Has b := by
        rw [header_has]
        omega
      rw [hm' b hb hb2, State.withMem_mem, ← hm, store_size_frame _ hb1, store_size_frame _ hb2]
  · rw [if_neg hlarge, if_neg hlarge, if_neg hlarge]
    exact ⟨s.mem, rfl, hl, hsize, fun b _ _ => rfl⟩

theorem unlink {m : Mem} {e : Nat} {y : Node} (hl : Linked m e (q ++ x :: y :: f))
    (hpair : (q ++ x :: y :: f).Pairwise Apart) (hlt : succ e f < 2 ^ 32) :
    Linked (m.store32 x.1 (succ e f)) e (q ++ x :: f) := by
  obtain ⟨hq, hnext, hsize, -, -, hf⟩ := linked_append.mp hl
  obtain ⟨-, hx, hqx⟩ := List.pairwise_append.mp hpair
  rw [List.pairwise_cons] at hx
  have hframe : ∀ a, ¬ (header x.1).Has a → m.store32 x.1 (succ e f) a = m a := fun a ha =>
    store_next_frame m ha
  refine linked_append.mpr ⟨hq.frame (fun n hn => (hqx n hn x (by simp)).symm) hframe, ?_, ?_, ?_⟩
  · exact Mem.load32_store32 _ _ hlt
  · exact (load32_store32_behind _ _ _).trans hsize
  · exact hf.frame (fun n hn => hx.1 n (List.mem_cons_of_mem _ hn)) hframe

/-- **A node gets its owner.** -/
theorem takeNode_spec (hl : Linked s.mem s.pxEnd (q ++ x :: (a, k) :: f))
    (hs : Sound c s.pxEnd (q ++ x :: (a, k) :: f)) (he : s.pxEnd < 2 ^ 32)
    (hbit : s.xBlockAllocatedBit = 2 ^ 31) (hk : k < 2 ^ 31) (hwk : w ≤ k) (hw : 16 ≤ w)
    (hhead : succ x.1 q = c.xStart) (hn : q.length < c.rounds)
    (hsplit : heapMINIMUM_BLOCK_SIZE < k - w → Splits c s.pxEnd a k w q x f) :
    wp (takeBlock c x.1 a w) (fun r t => r = a + 8 ∧ ∃ m',
      t = ((s.charge (given k w)).noteMinimum.noteAllocation).withMem m' ∧
      Linked m' s.pxEnd (q ++ x :: rest a k w f) ∧ m'.load32 a = 0 ∧
      m'.load32 (a + 4) = given k w + 2 ^ 31 ∧
      ∀ b, ¬ (header x.1).Has b → ¬ (a ≤ b ∧ b < a + k) → m' b = s.mem b) s := by
  have hsub : Sound c s.pxEnd f := hs.sublist
    ((List.sublist_cons_self _ f).trans ((List.sublist_cons_self x _).trans
      (List.sublist_append_right q _)))
  have hsucc := hsub.succ_lt he
  have hak : a + k < 2 ^ 32 := hs.small (a, k) (by simp)
  obtain ⟨hx, hx4⟩ := hs.owned x (by simp)
  obtain ⟨ha, ha4⟩ := hs.owned (a, k) (by simp)
  obtain ⟨-, hxf, hqx⟩ := List.pairwise_append.mp hs.apart
  rw [List.pairwise_cons, List.pairwise_cons] at hxf
  have hxa : Apart x (a, k) := hxf.1 _ (by simp)
  have hapart : ∀ n ∈ q ++ x :: f, Apart (a, k) n := by
    intro n hn
    rw [List.mem_append, List.mem_cons] at hn
    rcases hn with hn | rfl | hn
    · exact (hqx n hn _ (by simp)).symm
    · exact hxa.symm
    · exact hxf.2.1 n hn
  have hxnext : s.mem.load32 x.1 = a := (linked_append.mp hl).2.1
  obtain ⟨hanext, hasize, -⟩ := (linked_append.mp hl).2.2.2
  have hgiven : given k w ≤ k := by
    rw [given]
    split
    · exact hwk
    · exact Nat.le_refl k
  rw [takeBlock, wp_bind, pxNextFreeBlock, wp_load, hxnext, wp_bind, pxNextFreeBlock, wp_load, hanext,
    wp_bind, setPxNextFreeBlock, wp_store, wp_bind]
  refine ⟨hx, ha, hx, ?_⟩
  -- the block leaves the list
  have hunlinked := unlink hl hs.apart hsucc
  have hframe1 : ∀ b, ¬ (header x.1).Has b → s.mem.store32 x.1 (succ s.pxEnd f) b = s.mem b :=
    fun b hb => store_next_frame _ hb
  generalize s.mem.store32 x.1 (succ s.pxEnd f) = m1 at hunlinked hframe1
  have hasize1 : m1.load32 (a + 4) = k := (hxa.frame hframe1).2.trans hasize
  refine wp_mono (splitBlock_spec (s := s.withMem m1) hunlinked hasize1 ha4 hwk hw hak he hhead hn
    hsplit hapart) ?_
  rintro u t ⟨m2, rfl, hlinked2, hsize2, hframe2⟩
  rw [wp_bind, xBlockSize, wp_load, State.withMem_mem, hsize2, wp_bind, wp_modify, wp_bind, wp_modify,
    wp_bind, wp_get]
  refine ⟨ha4, ?_⟩
  -- it is marked
  have hmark : given k w ||| s.xBlockAllocatedBit = given k w + 2 ^ 31 := by
    rw [hbit]
    exact marked (by omega)
  have hlast := write_size_next (c := c) (p := a) (n := 0) (k := given k w ||| s.xBlockAllocatedBit)
    (s := ((s.withMem m2).charge (given k w)).noteMinimum) (f := fun _ => do
      modify fun s => s.noteAllocation
      pure (add a xHeapStructSize))
    (Q := fun r t => r = a + 8 ∧ ∃ m',
      t = ((s.charge (given k w)).noteMinimum.noteAllocation).withMem m' ∧
      Linked m' s.pxEnd (q ++ x :: rest a k w f) ∧ m'.load32 a = 0 ∧
      m'.load32 (a + 4) = given k w + 2 ^ 31 ∧
      ∀ b, ¬ (header x.1).Has b → ¬ (a ≤ b ∧ b < a + k) → m' b = s.mem b)
    ⟨ha, ha4⟩ (by decide) (by omega)
  apply hlast
  rintro m3 ⟨hnext3, hsize3, hframe3⟩
  rw [wp_bind, wp_modify, wp_pure]
  refine ⟨add_eq (show a + 8 < 2 ^ 32 by omega), m3, rfl, ?_, hnext3, hsize3.trans hmark, ?_⟩
  · refine hlinked2.frame (b := (a, k)) ?_ hframe3
    intro n hn
    rw [List.mem_append, List.mem_cons, rest] at hn
    split at hn
    next hlarge =>
      rw [List.mem_cons] at hn
      rcases hn with hn | hn | rfl | hn
      · exact hapart n (by simp [hn])
      · exact hapart n (by simp [hn])
      · exact Or.inl (Nat.add_le_add_left (Nat.le_trans (by decide) hw) a)
      · exact hapart n (by simp [hn])
    next hlarge =>
      exact hapart n (by simpa using hn)
  · intro b hb hout
    have hb' : ¬ (header a).Has b := by
      rw [header_has]
      omega
    exact (hframe3 b hb').trans ((hframe2 b hb hout).trans (hframe1 b hb))

end

end MTower.PortHeap
