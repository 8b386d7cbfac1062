import Mathlib

/-!
# An interval cut into chunks

A list of sizes, each with a mark, cuts the interval that starts at `lo` into chunks that lie one
behind the other: the address of a chunk is `lo` and the sizes in front of it, so the chunks of a
list tile their interval by construction.

* `gaps`, `taken`      the free chunks and the ones in use, with their addresses;
* `Merged`, `merged`   no two free chunks lie side by side, and how to get there;
* `gaps_release`       what becoming free does to the gaps: the new one is joined to those it touches;
* `carve`              a gap gives its front to a new owner;
* `merged_of_all_free`  when everything is free there is one gap.
-/

set_option linter.unusedVariables false

namespace Lib

structure Chunk where
  size : Nat
  free : Bool
deriving DecidableEq, Repr

namespace Chunks

/-! ## addresses -/

def total (cs : List Chunk) : Nat := (cs.map Chunk.size).sum

/-- address and size of the free chunks -/
def gaps : Nat → List Chunk → List (Nat × Nat)
  | _, [] => []
  | lo, c :: cs => if c.free then (lo, c.size) :: gaps (lo + c.size) cs else gaps (lo + c.size) cs

/-- address and size of the chunks in use -/
def taken : Nat → List Chunk → List (Nat × Nat)
  | _, [] => []
  | lo, c :: cs => if c.free then taken (lo + c.size) cs else (lo, c.size) :: taken (lo + c.size) cs

variable {lo : Nat} {c d : Chunk} {cs ds : List Chunk} {g : Nat × Nat}

@[simp] theorem total_nil : total [] = 0 := rfl

@[simp] theorem total_cons (c : Chunk) (cs : List Chunk) : total (c :: cs) = c.size + total cs := by
  simp [total]

@[simp] theorem total_append (cs ds : List Chunk) : total (cs ++ ds) = total cs + total ds := by
  simp [total]

theorem gaps_append (lo : Nat) (cs ds : List Chunk) :
    gaps lo (cs ++ ds) = gaps lo cs ++ gaps (lo + total cs) ds := by
  induction cs generalizing lo with
  | nil => simp [gaps]
  | cons c cs ih =>
    rw [List.cons_append, gaps, gaps, ih, total_cons, Nat.add_assoc]
    split <;> rfl

theorem taken_append (lo : Nat) (cs ds : List Chunk) :
    taken lo (cs ++ ds) = taken lo cs ++ taken (lo + total cs) ds := by
  induction cs generalizing lo with
  | nil => simp [taken]
  | cons c cs ih =>
    rw [List.cons_append, taken, taken, ih, total_cons, Nat.add_assoc]
    split <;> rfl

theorem gaps_free (lo k : Nat) (cs : List Chunk) :
    gaps lo (⟨k, true⟩ :: cs) = (lo, k) :: gaps (lo + k) cs := rfl

theorem gaps_used (lo k : Nat) (cs : List Chunk) :
    gaps lo (⟨k, false⟩ :: cs) = gaps (lo + k) cs := rfl

theorem gaps_single (lo k : Nat) : gaps lo [⟨k, true⟩] = [(lo, k)] := rfl

theorem taken_free (lo k : Nat) (cs : List Chunk) :
    taken lo (⟨k, true⟩ :: cs) = taken (lo + k) cs := rfl

theorem taken_used (lo k : Nat) (cs : List Chunk) :
    taken lo (⟨k, false⟩ :: cs) = (lo, k) :: taken (lo + k) cs := rfl

/-- a gap is a chunk of the list -/
theorem gaps_split {g1 g2 : List (Nat × Nat)} {a k : Nat} (h : gaps lo cs = g1 ++ (a, k) :: g2) :
    ∃ l1 l2, cs = l1 ++ ⟨k, true⟩ :: l2 ∧ a = lo + total l1 ∧ gaps lo l1 = g1 ∧
      gaps (a + k) l2 = g2 := by
  induction cs generalizing lo g1 with
  | nil => simp [gaps] at h
  | cons c cs ih =>
    obtain ⟨n, b⟩ := c
    cases b with
    | false =>
      obtain ⟨l1, l2, rfl, ha, h1, h2⟩ := ih h
      refine ⟨⟨n, false⟩ :: l1, l2, rfl, ?_, h1, h2⟩
      rw [ha, total_cons, Nat.add_assoc]
    | true =>
      rw [gaps_free] at h
      cases g1 with
      | nil =>
        rw [List.nil_append, List.cons.injEq, Prod.mk.injEq] at h
        obtain ⟨⟨rfl, rfl⟩, rfl⟩ := h
        exact ⟨[], cs, rfl, rfl, rfl, rfl⟩
      | cons x g1 =>
        rw [List.cons_append, List.cons.injEq] at h
        obtain ⟨rfl, h⟩ := h
        obtain ⟨l1, l2, rfl, ha, h1, h2⟩ := ih h
        refine ⟨⟨n, true⟩ :: l1, l2, rfl, ?_, ?_, h2⟩
        · rw [ha, total_cons, Nat.add_assoc]
        · rw [gaps_free, h1]

/-- a chunk in use is a chunk of the list -/
theorem taken_split {a k : Nat} (h : (a, k) ∈ taken lo cs) :
    ∃ l1 l2, cs = l1 ++ ⟨k, false⟩ :: l2 ∧ a = lo + total l1 := by
  induction cs generalizing lo with
  | nil => simp [taken] at h
  | cons c cs ih =>
    obtain ⟨n, b⟩ := c
    cases b with
    | true =>
      obtain ⟨l1, l2, rfl, ha⟩ := ih h
      refine ⟨⟨n, true⟩ :: l1, l2, rfl, ?_⟩
      rw [ha, total_cons, Nat.add_assoc]
    | false =>
      rw [taken_used, List.mem_cons] at h
      rcases h with h | h
      · cases h
        exact ⟨[], cs, rfl, rfl⟩
      · obtain ⟨l1, l2, rfl, ha⟩ := ih h
        refine ⟨⟨n, false⟩ :: l1, l2, rfl, ?_⟩
        rw [ha, total_cons, Nat.add_assoc]

theorem mem_gaps_bounds (h : g ∈ gaps lo cs) : lo ≤ g.1 ∧ g.1 + g.2 ≤ lo + total cs := by
  obtain ⟨g1, g2, h⟩ := List.append_of_mem h
  obtain ⟨l1, l2, rfl, ha, -⟩ := gaps_split h
  simp
  omega

theorem mem_taken_bounds (h : g ∈ taken lo cs) : lo ≤ g.1 ∧ g.1 + g.2 ≤ lo + total cs := by
  obtain ⟨l1, l2, rfl, ha⟩ := taken_split (show (g.1, g.2) ∈ _ from h)
  simp
  omega

theorem gaps_pairwise (lo : Nat) (cs : List Chunk) :
    (gaps lo cs).Pairwise fun g h => g.1 + g.2 ≤ h.1 := by
  induction cs generalizing lo with
  | nil => exact .nil
  | cons c cs ih =>
    rw [gaps]
    split
    · rw [List.pairwise_cons]
      exact ⟨fun h hh => (mem_gaps_bounds hh).1, ih _⟩
    · exact ih _

theorem taken_pairwise (lo : Nat) (cs : List Chunk) :
    (taken lo cs).Pairwise fun g h => g.1 + g.2 ≤ h.1 := by
  induction cs generalizing lo with
  | nil => exact .nil
  | cons c cs ih =>
    rw [taken]
    split
    · exact ih _
    · rw [List.pairwise_cons]
      exact ⟨fun h hh => (mem_taken_bounds hh).1, ih _⟩

/-- two chunks in use do not overlap -/
theorem taken_apart {t u : Nat × Nat} (ht : t ∈ taken lo cs) (hu : u ∈ taken lo cs) (hne : t ≠ u) :
    t.1 + t.2 ≤ u.1 ∨ u.1 + u.2 ≤ t.1 := by
  have hpair : (taken lo cs).Pairwise fun t u => t.1 + t.2 ≤ u.1 ∨ u.1 + u.2 ≤ t.1 :=
    (taken_pairwise lo cs).imp Or.inl
  have hsymm : Std.Symm fun t u : Nat × Nat => t.1 + t.2 ≤ u.1 ∨ u.1 + u.2 ≤ t.1 :=
    ⟨fun _ _ h => h.symm⟩
  exact hpair.forall ht hu hne

/-- a gap and a chunk in use do not overlap -/
theorem gap_apart {t : Nat × Nat} (hg : g ∈ gaps lo cs) (ht : t ∈ taken lo cs) :
    g.1 + g.2 ≤ t.1 ∨ t.1 + t.2 ≤ g.1 := by
  obtain ⟨l1, l2, rfl, ha⟩ := taken_split (show (t.1, t.2) ∈ _ from ht)
  rw [gaps_append, gaps_used, List.mem_append] at hg
  rcases hg with hg | hg
  · left
    rw [ha]
    exact (mem_gaps_bounds hg).2
  · right
    rw [ha]
    exact (mem_gaps_bounds hg).1

theorem mem_of_gap (h : g ∈ gaps lo cs) : ⟨g.2, true⟩ ∈ cs := by
  obtain ⟨g1, g2, h⟩ := List.append_of_mem h
  obtain ⟨l1, l2, rfl, -⟩ := gaps_split h
  simp

theorem mem_of_taken (h : g ∈ taken lo cs) : ⟨g.2, false⟩ ∈ cs := by
  obtain ⟨l1, l2, rfl, -⟩ := taken_split (show (g.1, g.2) ∈ _ from h)
  simp

/-- the sizes of the gaps and of the chunks in use make up the interval -/
theorem sum_gaps_add_sum_taken (lo : Nat) (cs : List Chunk) :
    ((gaps lo cs).map Prod.snd).sum + ((taken lo cs).map Prod.snd).sum = total cs := by
  induction cs generalizing lo with
  | nil => rfl
  | cons c cs ih =>
    have := ih (lo + c.size)
    rw [gaps, taken, total_cons]
    split
    all_goals simp; omega

/-! ## no two gaps side by side -/

/-- `c` in front of `cs`, as one chunk with the first of them when both are free -/
def glue (c : Chunk) : List Chunk → List Chunk
  | [] => [c]
  | d :: ds => if c.free && d.free then ⟨c.size + d.size, true⟩ :: ds else c :: d :: ds

def merged (cs : List Chunk) : List Chunk := cs.foldr glue []

def Merged (cs : List Chunk) : Prop := cs.IsChain fun c d => ¬ (c.free = true ∧ d.free = true)

theorem Merged.tail (h : Merged (c :: cs)) : Merged cs := List.IsChain.tail h

theorem Merged.glue (h : Merged (c :: cs)) : glue c cs = c :: cs := by
  cases cs with
  | nil => rfl
  | cons d ds =>
    have hcd := (List.isChain_cons_cons.mp h).1
    rw [Chunks.glue, if_neg]
    rwa [Bool.and_eq_true]

theorem glue_merged (c : Chunk) (h : Merged cs) : Merged (glue c cs) := by
  cases cs with
  | nil => exact List.isChain_singleton c
  | cons d ds =>
    rw [glue]
    split
    next hfree =>
      rw [Bool.and_eq_true] at hfree
      cases ds with
      | nil => exact List.isChain_singleton _
      | cons e es =>
        obtain ⟨hde, hes⟩ := List.isChain_cons_cons.mp h
        exact List.isChain_cons_cons.mpr ⟨fun hce => hde ⟨hfree.2, hce.2⟩, hes⟩
    next hfree =>
      rw [Bool.and_eq_true] at hfree
      exact List.isChain_cons_cons.mpr ⟨hfree, h⟩

theorem merged_merged (cs : List Chunk) : Merged (merged cs) := by
  induction cs with
  | nil => exact .nil
  | cons c cs ih => exact glue_merged c ih

/-- what is merged in front stays as it is -/
theorem foldr_glue (h : Merged (ds ++ cs)) : ds.foldr glue cs = ds ++ cs := by
  induction ds with
  | nil => rfl
  | cons d ds ih =>
    rw [List.foldr_cons, ih (Merged.tail h), List.cons_append]
    exact Merged.glue h

theorem Merged.eq (h : Merged cs) : merged cs = cs := by
  have hfold : cs.foldr Chunks.glue [] = cs ++ [] := foldr_glue (by rwa [List.append_nil])
  rwa [List.append_nil] at hfold

theorem total_glue (c : Chunk) (cs : List Chunk) : total (glue c cs) = c.size + total cs := by
  cases cs with
  | nil => rfl
  | cons d ds =>
    rw [glue]
    split
    · simp [Nat.add_assoc]
    · simp

theorem taken_glue (lo : Nat) (c : Chunk) (cs : List Chunk) :
    taken lo (glue c cs) = taken lo (c :: cs) := by
  cases cs with
  | nil => rfl
  | cons d ds =>
    rw [glue]
    split
    next hfree =>
      rw [Bool.and_eq_true] at hfree
      simp [taken, hfree, Nat.add_assoc]
    next => rfl

theorem total_merged (cs : List Chunk) : total (merged cs) = total cs := by
  induction cs with
  | nil => rfl
  | cons c cs ih => rw [merged, List.foldr_cons, total_glue, ← merged, ih, total_cons]

/-- merging is not seen by the chunks in use -/
theorem taken_merged (lo : Nat) (cs : List Chunk) : taken lo (merged cs) = taken lo cs := by
  induction cs generalizing lo with
  | nil => rfl
  | cons c cs ih => rw [merged, List.foldr_cons, taken_glue, ← merged, taken, taken, ih]

/-- a property of sizes that a sum inherits -/
theorem forall_merged {P : Nat → Prop} (hadd : ∀ m n, P m → P n → P (m + n))
    (h : ∀ c ∈ cs, P c.size) : ∀ c ∈ merged cs, P c.size := by
  induction cs with
  | nil => exact h
  | cons c cs ih =>
    have hc := h c List.mem_cons_self
    have hcs := ih fun d hd => h d (List.mem_cons_of_mem _ hd)
    rw [merged, List.foldr_cons, ← merged]
    generalize merged cs = ds at hcs
    cases ds with
    | nil => simpa [glue] using hc
    | cons d ds =>
      have hd := hcs d List.mem_cons_self
      rw [glue]
      split
      · rw [List.forall_mem_cons]
        exact ⟨hadd _ _ hc hd, fun e he => hcs e (List.mem_cons_of_mem _ he)⟩
      · rw [List.forall_mem_cons]
        exact ⟨hc, hcs⟩

/-- **Everything is free.** -/
theorem merged_of_all_free (hne : cs ≠ []) (h : ∀ c ∈ cs, c.free = true) :
    merged cs = [⟨total cs, true⟩] := by
  induction cs with
  | nil => exact absurd rfl hne
  | cons c cs ih =>
    have hc := h c List.mem_cons_self
    cases cs with
    | nil =>
      obtain ⟨n, b⟩ := c
      cases hc
      rfl
    | cons d ds =>
      have ih := ih (List.cons_ne_nil d ds) fun e he => h e (List.mem_cons_of_mem _ he)
      rw [merged, List.foldr_cons, ← merged, ih, glue, hc, total_cons]
      rfl

theorem all_free_of_taken (h : taken lo cs = []) : ∀ c ∈ cs, c.free = true := by
  induction cs generalizing lo with
  | nil => simp
  | cons c cs ih =>
    rw [taken] at h
    split at h
    next hc =>
      rw [List.forall_mem_cons]
      exact ⟨hc, ih h⟩
    next => exact absurd h (List.cons_ne_nil _ _)

/-! ## a chunk becomes free -/

/-- the gap `b` in front of the gaps `gs`, joined to the first of them when it touches it -/
def ahead (b : Nat × Nat) : List (Nat × Nat) → List (Nat × Nat)
  | [] => [b]
  | d :: gs => if b.1 + b.2 = d.1 then (b.1, b.2 + d.2) :: gs else b :: d :: gs

/-- the same with a node `a` in front of it -/
def between (a b : Nat × Nat) (gs : List (Nat × Nat)) : List (Nat × Nat) :=
  if a.1 + a.2 = b.1 then ahead (a.1, a.2 + b.2) gs else a :: ahead b gs

theorem gaps_glue {k : Nat} (hpos : ∀ c ∈ cs, 0 < c.size) :
    gaps lo (glue ⟨k, true⟩ cs) = ahead (lo, k) (gaps (lo + k) cs) := by
  cases cs with
  | nil => rfl
  | cons d ds =>
    obtain ⟨n, b⟩ := d
    cases b with
    | true => simp [glue, gaps, ahead, Nat.add_assoc]
    | false =>
      have hn : 0 < n := hpos ⟨n, false⟩ List.mem_cons_self
      show (lo, k) :: gaps (lo + k + n) ds = ahead (lo, k) (gaps (lo + k + n) ds)
      cases hg : gaps (lo + k + n) ds with
      | nil => rfl
      | cons g gs =>
        have hmem : g ∈ gaps (lo + k + n) ds := by simp [hg]
        have hle := (mem_gaps_bounds hmem).1
        rw [ahead, if_neg (show ¬ lo + k = g.1 by omega)]

theorem ahead_grow {a m k n : Nat} {gs rest : List (Nat × Nat)}
    (h : ahead (a + m, k) gs = (a + m, n) :: rest) : ahead (a, m + k) gs = (a, m + n) :: rest := by
  cases gs with
  | nil =>
    rw [ahead, List.cons.injEq, Prod.mk.injEq] at h
    obtain ⟨⟨-, rfl⟩, rfl⟩ := h
    rfl
  | cons d gs =>
    rw [ahead] at h ⊢
    rw [← Nat.add_assoc a m k]
    split at h
    next htouch =>
      rw [if_pos htouch, ← (Prod.mk.inj (List.cons.inj h).1).2, ← (List.cons.inj h).2, Nat.add_assoc]
    next htouch =>
      rw [if_neg htouch, ← (Prod.mk.inj (List.cons.inj h).1).2, ← (List.cons.inj h).2]

/-- gluing a free chunk leaves a free chunk in front -/
theorem glue_free (k : Nat) (cs : List Chunk) :
    ∃ n rest, glue ⟨k, true⟩ cs = ⟨n, true⟩ :: rest := by
  cases cs with
  | nil => exact ⟨k, [], rfl⟩
  | cons d ds =>
    rw [glue]
    split
    · exact ⟨_, _, rfl⟩
    · exact ⟨_, _, rfl⟩

/-- **What release does to the gaps.**  `x` is a node in front of the list that touches no chunk. -/
theorem gaps_release {l1 l2 : List Chunk} {k : Nat} {x it : Nat × Nat} {p1 : List (Nat × Nat)}
    (h1 : Merged l1) (h2 : Merged l2) (hpos : ∀ c ∈ l1 ++ l2, 0 < c.size)
    (hx : x.1 + x.2 ≠ lo + total l1) (hit : x :: gaps lo l1 = p1 ++ [it]) :
    x :: gaps lo (merged (l1 ++ ⟨k, true⟩ :: l2)) =
      p1 ++ between it (lo + total l1, k) (gaps (lo + total l1 + k) l2) := by
  have hpos2 : ∀ c ∈ l2, 0 < c.size := fun c hc => hpos c (List.mem_append_right _ hc)
  have hstart : merged (l1 ++ ⟨k, true⟩ :: l2) = l1.foldr glue (glue ⟨k, true⟩ l2) := by
    rw [merged, List.foldr_append, List.foldr_cons]
    exact congrArg (fun l => l1.foldr glue (glue ⟨k, true⟩ l)) h2.eq
  have hglue : gaps (lo + total l1) (glue ⟨k, true⟩ l2)
      = ahead (lo + total l1, k) (gaps (lo + total l1 + k) l2) := gaps_glue hpos2
  have hmerged := glue_merged ⟨k, true⟩ h2
  obtain ⟨n, rest, hfirst⟩ := glue_free k l2
  rw [hfirst] at hstart hglue hmerged
  rw [gaps_free] at hglue
  rw [hstart]
  -- the last chunk in front decides whether the new gap grows to the left
  rcases List.eq_nil_or_concat l1 with rfl | ⟨l, e, rfl⟩
  · have hp : p1 = [] ∧ it = x := by
      cases p1 with
      | nil => exact ⟨rfl, (List.singleton_inj.mp hit).symm⟩
      | cons y p1 => simp [gaps] at hit
    rw [hp.1, hp.2, between, if_neg hx, ← hglue]
    rfl
  · obtain ⟨m, b⟩ := e
    rw [List.concat_eq_append] at *
    rw [List.foldr_append, List.foldr_cons, List.foldr_nil]
    cases b with
    | true =>
      have hl : gaps lo (l ++ [⟨m, true⟩]) = gaps lo l ++ [(lo + total l, m)] := gaps_append lo l _
      rw [hl, ← List.cons_append] at hit
      obtain ⟨hp, hi⟩ := List.append_inj' hit rfl
      rw [List.singleton_inj] at hi
      have hadd : lo + total (l ++ [⟨m, true⟩]) = lo + total l + m := by simp [Nat.add_assoc]
      have hchain : Merged (l ++ ⟨m + n, true⟩ :: rest) := by
        rw [Merged, List.isChain_append] at h1 ⊢
        refine ⟨h1.1, ?_, fun y hy z hz => ?_⟩
        · cases rest with
          | nil => exact List.isChain_singleton _
          | cons r rest => exact List.isChain_cons_cons.mpr (List.isChain_cons_cons.mp hmerged)
        · cases hz
          exact h1.2.2 y hy ⟨m, true⟩ rfl
      rw [hadd] at hglue ⊢
      rw [show glue ⟨m, true⟩ (⟨n, true⟩ :: rest) = ⟨m + n, true⟩ :: rest from rfl,
        foldr_glue hchain, gaps_append, gaps_free, ← hp, ← hi, between, if_pos rfl,
        ahead_grow hglue.symm, List.cons_append, Nat.add_assoc (lo + total l)]
    | false =>
      have hl : gaps lo (l ++ [⟨m, false⟩]) = gaps lo l := by
        rw [gaps_append]
        exact List.append_nil _
      have hm : 0 < m := hpos ⟨m, false⟩ (by simp)
      have hchain : Merged ((l ++ [⟨m, false⟩]) ++ ⟨n, true⟩ :: rest) := by
        refine List.isChain_append.mpr ⟨h1, hmerged, fun y hy z hz hyz => ?_⟩
        rw [List.getLast?_append_of_ne_nil _ (List.cons_ne_nil _ _)] at hy
        cases hy
        exact absurd hyz.1 Bool.false_ne_true
      -- the node in front ends before the chunk in use does
      have hne : it.1 + it.2 ≠ lo + total (l ++ [⟨m, false⟩]) := by
        rw [hl] at hit
        have hmem : it ∈ x :: gaps lo l := by simp [hit]
        rcases List.mem_cons.mp hmem with rfl | hmem
        · exact hx
        · have hle := (mem_gaps_bounds hmem).2
          simp
          omega
      have hfold := foldr_glue hchain
      rw [List.foldr_append, List.foldr_cons, List.foldr_nil] at hfold
      rw [hfold, gaps_append, gaps_free, between, if_neg hne, ← hglue, ← List.cons_append, hit,
        List.append_assoc]
      rfl

/-! ## a gap gets an owner -/

/-- the front of a gap of size `k` goes to an owner who needs `w`, and the rest stays a gap when it
is larger than `least` -/
def carve (least w k : Nat) : List Chunk :=
  if least < k - w then [⟨w, false⟩, ⟨k - w, true⟩] else [⟨k, false⟩]

theorem total_carve {least w k : Nat} (h : w ≤ k) : total (carve least w k) = k := by
  rw [carve]
  split
  · simp
    omega
  · simp

theorem merged_carve {least w k : Nat} {l1 l2 : List Chunk} (h : Merged (l1 ++ ⟨k, true⟩ :: l2)) :
    Merged (l1 ++ carve least w k ++ l2) := by
  rw [Merged, List.isChain_append] at h
  obtain ⟨h1, h2, -⟩ := h
  have hused : ∀ n, Merged (⟨n, false⟩ :: l2) := by
    intro n
    cases l2 with
    | nil => exact List.isChain_singleton _
    | cons d ds => exact List.isChain_cons_cons.mpr ⟨fun hd => absurd hd.1 Bool.false_ne_true, h2.tail⟩
  have hboth : ∀ n, Merged (⟨n, false⟩ :: ⟨k - w, true⟩ :: l2) := by
    intro n
    refine List.isChain_cons_cons.mpr ⟨fun hd => absurd hd.1 Bool.false_ne_true, ?_⟩
    cases l2 with
    | nil => exact List.isChain_singleton _
    | cons d ds => exact List.isChain_cons_cons.mpr (List.isChain_cons_cons.mp h2)
  rw [List.append_assoc, Merged, List.isChain_append]
  refine ⟨h1, ?_, fun y hy z hz hyz => ?_⟩
  · rw [carve]
    split
    · exact hboth w
    · exact hused k
  · have hz' : z.free = false := by
      rw [carve] at hz
      split at hz
      · cases hz
        rfl
      · cases hz
        rfl
    rw [hz'] at hyz
    exact absurd hyz.2 Bool.false_ne_true

end Chunks

end Lib
