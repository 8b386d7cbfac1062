import MTower.PortHeap.Blocks

/-!
# The list of free blocks

A node is the address and the size of a free block; `Linked m e l` says that the memory `m` holds the
list `l` and that its last element points to `e`.  The list head is a node of size zero, so that the
two loops of `heap_4.c` run through one kind of list.

* `iterate_spec`, `firstFit_spec`, `tally_spec`  where the loops stop;
* `insert_spec`   what `prvInsertBlockIntoFreeList` does to the list, and which bytes it changes.
-/

set_option linter.unusedVariables false

namespace MTower.PortHeap
open Lib Lib.Chunks

/-! ## words -/

section
variable {c : Config} {s : State} {p w : Nat} {m : Mem}

@[simp] theorem wp_load {Q : Nat → State → Prop} :
    wp (load c p) Q s ↔ c.Owns p ∧ Q (s.mem.load32 p) s := by
  rw [load, wp_bind, wp_get, wp_ite]
  simp only [wp_pure, wp_throw]
  tauto

@[simp] theorem wp_store {Q : Unit → State → Prop} :
    wp (store c p w) Q s ↔ c.Owns p ∧ Q () (s.withMem (s.mem.store32 p w)) := by
  rw [store, wp_ite]
  simp only [wp_modify, wp_throw]
  tauto

theorem load32_store32_before (m : Mem) (p w : Nat) :
    (m.store32 (p + 4) w).load32 p = m.load32 p :=
  Mem.load32_store32_of_disjoint m (Or.inr (Nat.le_refl _))

theorem load32_store32_behind (m : Mem) (p w : Nat) :
    (m.store32 p w).load32 (p + 4) = m.load32 (p + 4) :=
  Mem.load32_store32_of_disjoint m (Or.inl (Nat.le_refl _))

theorem add_eq {x y : Nat} (h : x + y < 2 ^ 32) : add x y = x + y := by
  rw [add, Nat.mod_eq_of_lt h]

theorem sub_eq {x y : Nat} (hx : x < 2 ^ 32) (h : y ≤ x) : sub x y = x - y := by
  unfold sub
  omega

end

/-! ## nodes -/

/-- a block with its address and its size -/
abbrev Node := Nat × Nat

/-- the first eight bytes of a block -/
def header (p : Nat) : Range := ⟨p, 8⟩

theorem header_has {p a : Nat} : (header p).Has a ↔ p ≤ a ∧ a < p + 8 := Iff.rfl

/-- the address of the first node, or of what follows the list -/
def succ (e : Nat) : List Node → Nat
  | [] => e
  | n :: _ => n.1

def Linked (m : Mem) (e : Nat) : List Node → Prop
  | [] => True
  | n :: l => m.load32 n.1 = succ e l ∧ m.load32 (n.1 + 4) = n.2 ∧ Linked m e l

/-- two headers do not overlap -/
def Apart (n k : Node) : Prop := n.1 + 8 ≤ k.1 ∨ k.1 + 8 ≤ n.1

theorem Apart.symm {n k : Node} (h : Apart n k) : Apart k n := Or.symm h

theorem Apart.not_has {n k : Node} (h : Apart n k) {a : Nat} (ha : (header k.1).Has a) :
    ¬ (header n.1).Has a := by
  rw [header_has] at *
  rcases h with h | h <;> omega

/-- nodes that a list of free blocks can have -/
structure Sound (c : Config) (e : Nat) (l : List Node) : Prop where
  owned : ∀ n ∈ l, c.Owns n.1 ∧ c.Owns (n.1 + 4)
  apart : l.Pairwise Apart
  ne_end : ∀ n ∈ l, n.1 ≠ e
  small : ∀ n ∈ l, n.1 + n.2 < 2 ^ 32

section
variable {m m' : Mem} {e : Nat} {l p q : List Node} {n : Node}

@[simp] theorem succ_append (e : Nat) (p q : List Node) : succ e (p ++ q) = succ (succ e q) p := by
  cases p <;> rfl

theorem linked_append : Linked m e (p ++ q) ↔ Linked m (succ e q) p ∧ Linked m e q := by
  induction p with
  | nil => simp [Linked]
  | cons n p ih =>
    rw [List.cons_append, Linked, Linked, ih, succ_append]
    tauto

theorem linked_pair {x k a j : Nat} (h1 : m.load32 x = a) (h2 : m.load32 (x + 4) = k)
    (h3 : m.load32 a = e) (h4 : m.load32 (a + 4) = j) : Linked m e [(x, k), (a, j)] :=
  ⟨h1, h2, h3, h4, trivial⟩

/-- the two words of a header depend on its bytes -/
theorem header_congr {p : Nat} (h : ∀ a, (header p).Has a → m' a = m a) :
    m'.load32 p = m.load32 p ∧ m'.load32 (p + 4) = m.load32 (p + 4) := by
  constructor
  · apply Mem.load32_congr
    intro a ha
    rw [Range.has_mk] at ha
    exact h a (header_has.mpr (by omega))
  · apply Mem.load32_congr
    intro a ha
    rw [Range.has_mk] at ha
    exact h a (header_has.mpr (by omega))

theorem Linked.congr (h : Linked m e l)
    (hm : ∀ n ∈ l, ∀ a, (header n.1).Has a → m' a = m a) : Linked m' e l := by
  induction l with
  | nil => trivial
  | cons n l ih =>
    obtain ⟨hnext, hsize, hl⟩ := h
    obtain ⟨h1, h2⟩ := header_congr (hm n List.mem_cons_self)
    exact ⟨h1.trans hnext, h2.trans hsize, ih hl fun k hk => hm k (List.mem_cons_of_mem _ hk)⟩

/-- what is linked at one node -/
theorem Linked.mem (h : Linked m e (p ++ n :: q)) :
    m.load32 n.1 = succ e q ∧ m.load32 (n.1 + 4) = n.2 :=
  ⟨(linked_append.mp h).2.1, (linked_append.mp h).2.2.1⟩

theorem Sound.sublist {c : Config} (h : Sound c e l) (hp : p.Sublist l) : Sound c e p where
  owned := fun n hn => h.owned n (hp.subset hn)
  apart := h.apart.sublist hp
  ne_end := fun n hn => h.ne_end n (hp.subset hn)
  small := fun n hn => h.small n (hp.subset hn)

/-- a header does not change with the header of another node -/
theorem Apart.frame {b : Node} (h : Apart b n) (hm : ∀ a, ¬ (header b.1).Has a → m' a = m a) :
    m'.load32 n.1 = m.load32 n.1 ∧ m'.load32 (n.1 + 4) = m.load32 (n.1 + 4) :=
  header_congr fun _ ha => hm _ (h.not_has ha)

theorem Linked.frame {b : Node} (h : Linked m e l) (hb : ∀ n ∈ l, Apart b n)
    (hm : ∀ a, ¬ (header b.1).Has a → m' a = m a) : Linked m' e l :=
  h.congr fun n hn _ ha => hm _ ((hb n hn).not_has ha)

theorem store_next_frame (m : Mem) {p w a : Nat} (h : ¬ (header p).Has a) :
    m.store32 p w a = m a := by
  apply Mem.store32_out
  intro hp
  rw [Range.has_mk] at hp
  exact h (header_has.mpr (by omega))

theorem store_size_frame (m : Mem) {p w a : Nat} (h : ¬ (header p).Has a) :
    m.store32 (p + 4) w a = m a := by
  apply Mem.store32_out
  intro hp
  rw [Range.has_mk] at hp
  exact h (header_has.mpr (by omega))

theorem ahead_head (e : Nat) (b : Node) (l : List Node) : succ e (ahead b l) = b.1 := by
  cases l with
  | nil => rfl
  | cons d l =>
    rw [ahead]
    split <;> rfl

theorem mem_ahead {b : Node} (h : n ∈ ahead b l) : n.1 = b.1 ∨ n ∈ l := by
  cases l with
  | nil =>
    rw [List.mem_singleton.mp h]
    exact Or.inl rfl
  | cons d l =>
    rw [ahead] at h
    split at h
    · rcases List.mem_cons.mp h with rfl | h
      · exact Or.inl rfl
      · exact Or.inr (List.mem_cons_of_mem _ h)
    · rcases List.mem_cons.mp h with rfl | h
      · exact Or.inl rfl
      · exact Or.inr h

end

/-! ## loops -/

section
variable {c : Config} {e b w : Nat} {s : State} {it : Node} {p1 f2 l : List Node}

/-- **Where the block is inserted.** -/
theorem iterate_spec {n : Nat} (hl : Linked s.mem e (p1 ++ it :: f2))
    (hown : ∀ n ∈ p1 ++ [it], c.Owns n.1) (hbelow : ∀ n ∈ (p1 ++ [it]).tail, n.1 < b)
    (hstop : b ≤ succ e f2) (hn : p1.length < n) :
    wp (iterate c b n (succ it.1 p1)) (fun r t => r = it.1 ∧ t = s) s := by
  induction p1 generalizing n with
  | nil =>
    obtain ⟨n, rfl⟩ : ∃ k, n = k + 1 := ⟨n - 1, by omega⟩
    have hnext : s.mem.load32 it.1 = succ e f2 := hl.1
    show wp (iterate c b (n + 1) it.1) _ s
    rw [iterate, wp_bind, pxNextFreeBlock, wp_load, hnext, if_neg (Nat.not_lt.mpr hstop)]
    exact ⟨hown it (by simp), rfl, rfl⟩
  | cons x p1 ih =>
    obtain ⟨n, rfl⟩ : ∃ k, n = k + 1 := ⟨n - 1, by omega⟩
    have hnext : s.mem.load32 x.1 = succ it.1 p1 := hl.1.trans (succ_append e p1 (it :: f2))
    have hlt : succ it.1 p1 < b := by
      cases p1 with
      | nil => exact hbelow it (by simp)
      | cons y p1 => exact hbelow y (by simp)
    show wp (iterate c b (n + 1) x.1) _ s
    rw [iterate, wp_bind, pxNextFreeBlock, wp_load, hnext, if_pos hlt]
    refine ⟨hown x (by simp), ?_⟩
    apply ih hl.2.2 (fun k hk => hown k (List.mem_cons_of_mem _ hk))
    · intro k hk
      exact hbelow k (List.mem_of_mem_tail hk)
    · rw [List.length_cons] at hn
      omega

/-- **The first block that is large enough**, or the end marker. -/
theorem firstFit_spec {n : Nat} {prev : Node} (hl : Linked s.mem e (prev :: l))
    (hown : ∀ n ∈ l, c.Owns n.1 ∧ c.Owns (n.1 + 4)) (hend : c.Owns e ∧ c.Owns (e + 4))
    (hlast : s.mem.load32 e = 0 ∧ s.mem.load32 (e + 4) = 0) (h0 : ∀ n ∈ l, n.1 ≠ 0) (he : e ≠ 0)
    (hw : 0 < w) (hn : l.length < n) :
    wp (firstFit c w n prev.1 (succ e l)) (fun r t => t = s ∧
      ((r.2 = e ∧ ∀ n ∈ l, n.2 < w) ∨ ∃ q x y f, prev :: l = q ++ x :: y :: f ∧ r = (x.1, y.1) ∧
        w ≤ y.2 ∧ ∀ n ∈ (q ++ [x]).tail, n.2 < w)) s := by
  induction l generalizing n prev with
  | nil =>
    obtain ⟨n, rfl⟩ : ∃ k, n = k + 1 := ⟨n - 1, by omega⟩
    show wp (firstFit c w (n + 1) prev.1 e) _ s
    rw [firstFit, wp_bind, xBlockSize, wp_load, hlast.2, if_pos hw, wp_bind, pxNextFreeBlock,
      wp_load, hlast.1, if_neg (fun h => h rfl)]
    exact ⟨hend.2, hend.1, rfl, Or.inl ⟨rfl, by simp⟩⟩
  | cons y l ih =>
    obtain ⟨n, rfl⟩ : ∃ k, n = k + 1 := ⟨n - 1, by omega⟩
    obtain ⟨hy, hy4⟩ := hown y List.mem_cons_self
    obtain ⟨hnext, hsize, -⟩ := hl.2.2
    show wp (firstFit c w (n + 1) prev.1 y.1) _ s
    rw [firstFit, wp_bind, xBlockSize, wp_load, hsize]
    refine ⟨hy4, ?_⟩
    by_cases hfit : y.2 < w
    · have hne : succ e l ≠ 0 := by
        cases l with
        | nil => exact he
        | cons z l => exact h0 z (by simp)
      rw [if_pos hfit, wp_bind, pxNextFreeBlock, wp_load, hnext, if_pos hne]
      refine ⟨hy, wp_mono (ih hl.2.2 (fun k hk => hown k (List.mem_cons_of_mem _ hk))
        (fun k hk => h0 k (List.mem_cons_of_mem _ hk)) (by rw [List.length_cons] at hn; omega)) ?_⟩
      rintro r t ⟨rfl, ⟨hr, hsmall⟩ | ⟨q, x, z, f, hq, hr, hwz, hsmall⟩⟩
      · refine ⟨rfl, Or.inl ⟨hr, ?_⟩⟩
        rw [List.forall_mem_cons]
        exact ⟨hfit, hsmall⟩
      · refine ⟨rfl, Or.inr ⟨prev :: q, x, z, f, ?_, hr, hwz, ?_⟩⟩
        · rw [hq]
          rfl
        · -- `y` is the first of what was passed
          have hhead : q ++ [x] = y :: (q ++ [x]).tail := by
            cases q with
            | nil =>
              rw [List.nil_append, List.cons.injEq] at hq
              rw [hq.1]
              rfl
            | cons u q =>
              rw [List.cons_append, List.cons.injEq] at hq
              rw [hq.1]
              rfl
          rw [List.cons_append, List.tail_cons, hhead, List.forall_mem_cons]
          exact ⟨hfit, hsmall⟩
    · rw [if_neg hfit]
      exact ⟨rfl, Or.inr ⟨[], prev, y, l, rfl, rfl, Nat.not_lt.mp hfit, by simp⟩⟩

end

/-! ## insertion -/

section
variable {c : Config} {s : State} {it b : Node} {p1 f2 : List Node}

/-- linking the block to the nodes `l` -/
theorem setNext_spec {l : List Node} {e w : Nat} (hb : c.Owns b.1)
    (hsize : s.mem.load32 (b.1 + 4) = b.2) (hw : w < 2 ^ 32) (hwl : w = succ e l)
    (hl : Linked s.mem e l) (hapart : ∀ n ∈ l, Apart b n) :
    wp (setPxNextFreeBlock c b.1 w) (fun _ t => ∃ m', t = s.withMem m' ∧
      Linked m' e (b :: l) ∧ ∀ a, ¬ (header b.1).Has a → m' a = s.mem a) s := by
  have hframe : ∀ a, ¬ (header b.1).Has a → s.mem.store32 b.1 w a = s.mem a := fun a ha =>
    store_next_frame s.mem ha
  rw [setPxNextFreeBlock, wp_store]
  refine ⟨hb, _, rfl, ⟨?_, ?_, hl.frame hapart hframe⟩, hframe⟩
  · exact (Mem.load32_store32 s.mem b.1 hw).trans hwl
  · exact (load32_store32_behind s.mem b.1 w).trans hsize

theorem Sound.succ_lt {e : Nat} {l : List Node} (h : Sound c e l) (he : e < 2 ^ 32) :
    succ e l < 2 ^ 32 := by
  cases l with
  | nil => exact he
  | cons n l => exact Nat.lt_of_le_of_lt (Nat.le_add_right _ _) (h.small n List.mem_cons_self)

/-- the block behind the inserted one is joined to it, unless it is the end marker -/
theorem joinBehind_spec (hsize : s.mem.load32 (b.1 + 4) = b.2)
    {i : Nat} (hnext : s.mem.load32 i = succ s.pxEnd f2) (hf : Linked s.mem s.pxEnd f2)
    (hi : c.Owns i) (hs : Sound c s.pxEnd (b :: f2)) (he : s.pxEnd < 2 ^ 32) :
    wp (joinBehind c i b.1) (fun _ t => ∃ m', t = s.withMem m' ∧
      Linked m' s.pxEnd (ahead b f2) ∧ ∀ a, ¬ (header b.1).Has a → m' a = s.mem a) s := by
  obtain ⟨hb, hb4⟩ := hs.owned b List.mem_cons_self
  have hsmall : b.1 + b.2 < 2 ^ 32 := hs.small b List.mem_cons_self
  obtain ⟨hapart, -⟩ := List.pairwise_cons.mp hs.apart
  have hlt := (hs.sublist (List.sublist_cons_self b f2)).succ_lt he
  rw [joinBehind, wp_bind, wp_get, wp_bind, xBlockSize, wp_load, hsize, wp_bind, pxNextFreeBlock,
    wp_load, hnext, add_eq hsmall]
  refine ⟨hb4, hi, ?_⟩
  cases f2 with
  | nil =>
    have hdone := setNext_spec hb hsize he rfl (l := []) trivial fun n hn => absurd hn List.not_mem_nil
    rw [show succ s.pxEnd [] = s.pxEnd from rfl]
    by_cases htouch : b.1 + b.2 = s.pxEnd
    · rw [if_pos htouch, if_neg (fun h => h rfl)]
      exact hdone
    · rw [if_neg htouch]
      exact hdone
  | cons d f2 =>
    rw [show succ s.pxEnd (d :: f2) = d.1 from rfl, ahead]
    by_cases htouch : b.1 + b.2 = d.1
    · have hd := hs.small d (by simp)
      obtain ⟨hdo, hdo4⟩ := hs.owned d (by simp)
      obtain ⟨hdnext, hdsize, hf2⟩ := hf
      have hdb : Apart b d := hapart d List.mem_cons_self
      have hbf2 : ∀ n ∈ f2, Apart b n := fun n hn => hapart n (List.mem_cons_of_mem _ hn)
      rw [if_pos htouch, if_pos htouch, if_pos (hs.ne_end d (by simp)), wp_bind, xBlockSize, wp_load,
        hdsize, add_eq (by omega), wp_bind, setXBlockSize, wp_store, wp_bind, pxNextFreeBlock, wp_load]
      have hframe : ∀ a, ¬ (header b.1).Has a →
          s.mem.store32 (b.1 + 4) (b.2 + d.2) a = s.mem a := fun a ha => store_size_frame _ ha
      have hdnext' : (s.mem.store32 (b.1 + 4) (b.2 + d.2)).load32 d.1 = succ s.pxEnd f2 :=
        (hdb.frame hframe).1.trans hdnext
      rw [State.withMem_mem]
      rw [hdnext']
      refine ⟨hdo4, hb4, hdo, ?_⟩
      have hdone := setNext_spec (b := (b.1, b.2 + d.2)) (e := s.pxEnd) (l := f2)
        (s := s.withMem (s.mem.store32 (b.1 + 4) (b.2 + d.2))) hb
        (Mem.load32_store32 _ _ (by omega))
        ((hs.sublist (by simp)).succ_lt (l := f2) he) rfl (hf2.frame hbf2 hframe) hbf2
      refine wp_mono hdone ?_
      rintro u t ⟨m', rfl, hlinked, hm'⟩
      exact ⟨m', rfl, hlinked, fun a ha => (hm' a ha).trans (hframe a ha)⟩
    · rw [if_neg htouch, if_neg htouch]
      exact setNext_spec hb hsize hlt rfl hf hapart

/-- a block that is to stand between `it` and the nodes `f2` -/
structure Insertion (c : Config) (s : State) (p1 : List Node) (it b : Node) (f2 : List Node) :
    Prop where
  linked : Linked s.mem s.pxEnd (p1 ++ it :: f2)
  size : s.mem.load32 (b.1 + 4) = b.2
  sound : Sound c s.pxEnd (p1 ++ it :: b :: f2)
  end_lt : s.pxEnd < 2 ^ 32

/-- what follows the search for `it` -/
def place (c : Config) (pxIterator pxBlockToInsert : Nat) : M Unit := do
  let block ← joinFront c pxIterator pxBlockToInsert
  joinBehind c pxIterator block
  if pxIterator ≠ block then setPxNextFreeBlock c pxIterator block else pure ()

namespace Insertion

theorem before_it (h : Insertion c s p1 it b f2) : ∀ n ∈ p1, Apart it n := fun n hn =>
  ((List.pairwise_append.mp h.sound.apart).2.2 n hn it (by simp)).symm

theorem before_block (h : Insertion c s p1 it b f2) : ∀ n ∈ p1, Apart b n := fun n hn =>
  ((List.pairwise_append.mp h.sound.apart).2.2 n hn b (by simp)).symm

theorem behind (h : Insertion c s p1 it b f2) :
    Apart it b ∧ (∀ n ∈ f2, Apart it n) ∧ ∀ n ∈ f2, Apart b n := by
  have hpair := (List.pairwise_append.mp h.sound.apart).2.1
  rw [List.pairwise_cons, List.pairwise_cons, List.forall_mem_cons] at hpair
  exact ⟨hpair.1.1, hpair.1.2, hpair.2.1⟩

/-- the node in front, grown over the block -/
theorem grown (h : Insertion c s p1 it b f2) (htouch : it.1 + it.2 = b.1) :
    Sound c s.pxEnd ((it.1, it.2 + b.2) :: f2) := by
  have hb := h.sound.small b (by simp)
  have hsub : Sound c s.pxEnd (it :: f2) := h.sound.sublist
    ((List.cons_sublist_cons.mpr (List.sublist_cons_self b f2)).trans
      (List.sublist_append_right p1 _))
  refine ⟨?_, ?_, ?_, ?_⟩
  · rw [List.forall_mem_cons]
    exact ⟨hsub.owned it (by simp), fun n hn => hsub.owned n (List.mem_cons_of_mem _ hn)⟩
  · rw [List.pairwise_cons]
    exact ⟨h.behind.2.1, (List.pairwise_cons.mp hsub.apart).2⟩
  · rw [List.forall_mem_cons]
    exact ⟨hsub.ne_end it (by simp), fun n hn => hsub.ne_end n (List.mem_cons_of_mem _ hn)⟩
  · rw [List.forall_mem_cons]
    exact ⟨by dsimp only; omega, fun n hn => hsub.small n (List.mem_cons_of_mem _ hn)⟩

/-- the block touches `it`, which grows -/
theorem place_joined (h : Insertion c s p1 it b f2) (htouch : it.1 + it.2 = b.1) :
    wp (place c it.1 b.1) (fun _ t => ∃ m', t = s.withMem m' ∧
      Linked m' s.pxEnd (p1 ++ ahead (it.1, it.2 + b.2) f2) ∧
      ∀ a, ¬ (header it.1).Has a → m' a = s.mem a) s := by
  obtain ⟨hit, hit4⟩ := h.sound.owned it (by simp)
  obtain ⟨hb, hb4⟩ := h.sound.owned b (by simp)
  have hitsmall := h.sound.small it (by simp)
  have hbsmall := h.sound.small b (by simp)
  obtain ⟨hp1, hnext, hitsize, hf2⟩ := linked_append.mp h.linked
  have hframe : ∀ a, ¬ (header it.1).Has a → s.mem.store32 (it.1 + 4) (it.2 + b.2) a = s.mem a :=
    fun a ha => store_size_frame _ ha
  rw [place, wp_bind, joinFront, wp_bind, xBlockSize, wp_load, hitsize, add_eq hitsmall,
    if_pos htouch, wp_bind, xBlockSize, wp_load, h.size, add_eq (by omega), wp_bind, setXBlockSize,
    wp_store, wp_pure, wp_bind]
  refine ⟨hit4, hb4, hit4, ?_⟩
  have hbehind := joinBehind_spec (c := c) (b := (it.1, it.2 + b.2))
    (s := s.withMem (s.mem.store32 (it.1 + 4) (it.2 + b.2))) (Mem.load32_store32 _ _ (by omega)) ((load32_store32_before _ _ _).trans hnext)
    (hf2.frame h.behind.2.1 hframe) hit (h.grown htouch) h.end_lt
  refine wp_mono hbehind ?_
  rintro u v ⟨m', rfl, hlinked, hm'⟩
  have hall : ∀ a, ¬ (header it.1).Has a → m' a = s.mem a := fun a ha =>
    (hm' a ha).trans (hframe a ha)
  rw [if_neg (fun h => h rfl)]
  refine ⟨m', rfl, linked_append.mpr ⟨?_, hlinked⟩, hall⟩
  rw [ahead_head]
  exact hp1.frame h.before_it hall

/-- the block gets a node of its own -/
theorem place_own (h : Insertion c s p1 it b f2) (htouch : it.1 + it.2 ≠ b.1) :
    wp (place c it.1 b.1) (fun _ t => ∃ m', t = s.withMem m' ∧
      Linked m' s.pxEnd (p1 ++ it :: ahead b f2) ∧
      ∀ a, ¬ (header it.1).Has a → ¬ (header b.1).Has a → m' a = s.mem a) s := by
  obtain ⟨hit, hit4⟩ := h.sound.owned it (by simp)
  have hbsmall := h.sound.small b (by simp)
  obtain ⟨hp1, hnext, hitsize, hf2⟩ := linked_append.mp h.linked
  obtain ⟨hitb, hitf, hbf⟩ := h.behind
  have hsound : Sound c s.pxEnd (b :: f2) := h.sound.sublist
    ((List.sublist_cons_self it _).trans (List.sublist_append_right p1 _))
  rw [place, wp_bind, joinFront, wp_bind, xBlockSize, wp_load, hitsize,
    add_eq (h.sound.small it (by simp)), if_neg htouch, wp_pure, wp_bind]
  refine ⟨hit4, wp_mono (joinBehind_spec h.size hnext hf2 hit hsound h.end_lt) ?_⟩
  rintro u v ⟨m', rfl, hlinked, hm'⟩
  have hne : it.1 ≠ b.1 := by
    intro he
    rcases hitb with h | h
    · omega
    · omega
  have hahead : ∀ n ∈ ahead b f2, Apart it n := by
    intro n hn
    rcases mem_ahead hn with hn | hn
    · rw [Apart, hn]
      exact hitb
    · exact hitf n hn
  rw [if_pos hne]
  have hlast := setNext_spec (s := s.withMem m') (b := it) hit
    ((hitb.symm.frame hm').2.trans hitsize) (by omega) (ahead_head s.pxEnd b f2).symm hlinked hahead
  refine wp_mono hlast ?_
  rintro u v ⟨m2, rfl, hlinked2, hm2⟩
  refine ⟨m2, rfl, linked_append.mpr ⟨?_, hlinked2⟩, ?_⟩
  · exact (hp1.frame h.before_block hm').frame h.before_it hm2
  · intro a ha hb
    exact (hm2 a ha).trans (hm' a hb)

end Insertion

/-- **What insertion does.**  `it` is the last node in front of the block. -/
theorem insert_spec (h : Insertion c s p1 it b f2) (hhead : succ it.1 p1 = c.xStart)
    (hbelow : ∀ n ∈ (p1 ++ [it]).tail, n.1 < b.1) (hstop : b.1 ≤ succ s.pxEnd f2)
    (hn : p1.length < c.rounds) :
    wp (prvInsertBlockIntoFreeList c b.1) (fun _ t => ∃ m', t = s.withMem m' ∧
      Linked m' s.pxEnd (p1 ++ between it b f2) ∧
      ∀ a, ¬ (header it.1).Has a → ¬ (header b.1).Has a → m' a = s.mem a) s := by
  have hown : ∀ n ∈ p1 ++ [it], c.Owns n.1 := by
    intro n hn
    refine (h.sound.owned n ?_).1
    rw [List.mem_append] at hn ⊢
    exact hn.imp_right fun h => by simp [List.mem_singleton.mp h]
  have hiterate := iterate_spec h.linked hown hbelow hstop hn
  rw [hhead] at hiterate
  show wp (iterate c b.1 c.rounds c.xStart >>= fun pxIterator => place c pxIterator b.1) _ s
  rw [wp_bind]
  refine wp_mono hiterate ?_
  rintro r t ⟨rfl, rfl⟩
  rw [between]
  by_cases htouch : it.1 + it.2 = b.1
  · rw [if_pos htouch]
    refine wp_mono (h.place_joined htouch) ?_
    rintro u v ⟨m', rfl, hlinked, hm'⟩
    exact ⟨m', rfl, hlinked, fun a ha _ => hm' a ha⟩
  · rw [if_neg htouch]
    exact h.place_own htouch

end

end MTower.PortHeap
