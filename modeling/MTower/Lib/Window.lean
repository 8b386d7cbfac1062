import Mathlib

/-!
# Recurrences in a ring

Every element of a sequence is a function of the `n` elements before it.  A program keeps only these
`n`, in a ring whose oldest element is overwritten by the next one.

* `extend`          the sequence, written down in full;
* `rotate_set`      the oldest element is overwritten: the window moves on;
* `fill_then_ring`  a loop that generates the sequence in a ring while it consumes it, and a loop
                    over the sequence written down beforehand, end in the same state.
-/

set_option linter.unusedVariables false

namespace Lib.Window

section
variable {α σ : Type} (F : List α → α)

/-- `k` more elements, each by the ones after the first `k` -/
def extend : Nat → List α → List α
  | 0, l => l
  | k + 1, l => extend k l ++ [F ((extend k l).drop k)]

variable {F}

theorem length_extend (k : Nat) (l : List α) : (extend F k l).length = l.length + k := by
  induction k with
  | zero => rfl
  | succ k ih => rw [extend, List.length_append, ih, List.length_singleton, Nat.add_assoc]

/-- what is there stays there -/
theorem take_extend (k : Nat) (l : List α) : (extend F k l).take l.length = l := by
  induction k with
  | zero => exact List.take_length
  | succ k ih =>
    rw [extend, List.take_append_of_le_length, ih]
    rw [length_extend]
    omega

theorem getD_rotate {W : List α} {i k : Nat} (hi : i < W.length) (d : α) :
    (W.rotate k).getD i d = W.getD ((k + i) % W.length) d := by
  have hlt : (i + k) % W.length < W.length := Nat.mod_lt _ (by omega)
  rw [List.getD_eq_getElem _ _ (by rwa [List.length_rotate]), List.getElem_rotate, Nat.add_comm k,
    List.getD_eq_getElem _ _ hlt]

/-- **The oldest element of the ring is overwritten**, and the window moves on. -/
theorem rotate_set {W : List α} {k : Nat} {v : α} (hW : W ≠ []) :
    (W.set (k % W.length) v).rotate (k + 1) = (W.rotate k).drop 1 ++ [v] := by
  have hlt : k % W.length < W.length := Nat.mod_lt _ (List.length_pos_iff.mpr hW)
  -- the ring is what was written since the last turn, the oldest element and the others
  obtain ⟨l, x, r, rfl, hl⟩ : ∃ l x r, W = l ++ x :: r ∧ l.length = k % W.length :=
    ⟨W.take (k % W.length), W[k % W.length], W.drop (k % W.length + 1), by simp, by
      rw [List.length_take]
      omega⟩
  have hset : (l ++ x :: r).set (k % (l ++ x :: r).length) v = l ++ v :: r := by
    rw [← hl, List.set_append_right _ _ (Nat.le_refl _), Nat.sub_self]
    rfl
  have hrot : ∀ y, (l ++ y :: r).rotate k = y :: r ++ l := by
    intro y
    have hlen : (l ++ y :: r).length = (l ++ x :: r).length := by simp
    rw [← List.rotate_mod, hlen, ← hl, List.rotate_append_length_eq]
  rw [hset, ← List.rotate_rotate, hrot, hrot]
  simp

/-! ## loops -/

variable {g : σ → Nat → α → σ} {l : List α} {n : Nat} {s : σ}

/-- `v` is written at `j` and goes to `g` -/
def put (g : σ → Nat → α → σ) (n : Nat) (x : List α × σ) (j : Nat) (v : α) : List α × σ :=
  (x.1.set (j % n) v, g x.2 j v)

/-- the loop that fills the ring -/
theorem foldl_fill {d : α} {first : List α × σ → Nat → List α × σ} (hl : l.length = n)
    (hfirst : ∀ x j, j < n → first x j = put g n x j (l.getD j d)) {W : List α}
    (hW : W.length = n) {k : Nat} (hk : k ≤ n) :
    (List.range k).foldl first (W, s) =
      (l.take k ++ W.drop k, (l.take k).zipIdx.foldl (fun s v => g s v.2 v.1) s) := by
  induction k with
  | zero => simp
  | succ k ih =>
    have hlt : k < l.length := by omega
    have hlen : (l.take k).length = k := by
      rw [List.length_take]
      omega
    have htake : l.take (k + 1) = l.take k ++ [l[k]] := (List.take_append_getElem hlt).symm
    have hset : (l.take k ++ W.drop k).set k l[k] = l.take (k + 1) ++ W.drop (k + 1) := by
      rw [List.set_append_right _ _ (Nat.le_of_eq hlen), hlen, Nat.sub_self,
        List.drop_eq_getElem_cons (show k < W.length by omega), htake, List.append_assoc]
      rfl
    rw [List.range_succ, List.foldl_append, ih (by omega)]
    simp only [List.foldl_cons, List.foldl_nil]
    rw [hfirst _ _ (by omega), put, Nat.mod_eq_of_lt (by omega), List.getD_eq_getElem _ _ hlt, hset,
      htake, List.zipIdx_append, List.foldl_append, hlen, Nat.zero_add]
    rfl

/-- the window of the ring is the end of the sequence -/
theorem foldl_ring {next : List α × σ → Nat → List α × σ} (hl : l.length = n) (hn : 0 < n)
    (hnext : ∀ x j, x.1.length = n → n ≤ j → next x j = put g n x j (F (x.1.rotate j))) (k : Nat) :
    let x := (List.range' n k).foldl next (l, s)
    x.1.length = n ∧ x.1.rotate (n + k) = (extend F k l).drop k ∧
      x.2 = (((extend F k l).drop n).zipIdx n).foldl (fun s v => g s v.2 v.1) s := by
  induction k with
  | zero =>
    subst hl
    simp [extend]
  | succ k ih =>
    rw [List.range'_1_concat, List.foldl_append]
    simp only [List.foldl_cons, List.foldl_nil]
    generalize (List.range' n k).foldl next (l, s) = x at ih
    obtain ⟨hx, hw, hs⟩ := ih
    have hne : x.1 ≠ [] := List.length_pos_iff.mp (by omega)
    have hlen : (extend F k l).length = n + k := by rw [length_extend, hl]
    have hlen' : ((extend F k l).drop n).length = k := by
      rw [List.length_drop]
      omega
    have hset := rotate_set (k := n + k) (v := F ((extend F k l).drop k)) hne
    rw [hx, hw, List.drop_drop, Nat.add_comm k 1] at hset
    rw [hnext x _ hx (Nat.le_add_right n k), put, hw, extend]
    refine ⟨?_, ?_, ?_⟩
    · rw [List.length_set, hx]
    · rw [← Nat.add_assoc, hset, List.drop_append_of_le_length (by omega), Nat.add_comm k 1]
    · rw [hs, List.drop_append_of_le_length (by omega), List.zipIdx_append, List.foldl_append, hlen']
      rfl

/-- **The sequence in a ring, or written down beforehand.** -/
theorem fill_then_ring {d : α} {first next : List α × σ → Nat → List α × σ} (hl : l.length = n)
    (hn : 0 < n) (hfirst : ∀ x j, j < n → first x j = put g n x j (l.getD j d))
    (hnext : ∀ x j, x.1.length = n → n ≤ j → next x j = put g n x j (F (x.1.rotate j)))
    {W : List α} (hW : W.length = n) (k : Nat) :
    ((List.range' n k).foldl next ((List.range n).foldl first (W, s))).2 =
      (extend F k l).zipIdx.foldl (fun s v => g s v.2 v.1) s := by
  have hsplit : extend F k l = l ++ (extend F k l).drop n := by
    conv => lhs; rw [← List.take_append_drop n (extend F k l), ← hl, take_extend, hl]
  have hfill := foldl_fill (s := s) hl hfirst hW (Nat.le_refl n)
  rw [List.take_of_length_le (Nat.le_of_eq hl), List.drop_eq_nil_of_le (Nat.le_of_eq hW),
    List.append_nil] at hfill
  rw [hfill, (foldl_ring hl hn hnext k).2.2]
  conv => rhs; rw [hsplit, List.zipIdx_append, List.foldl_append, hl, Nat.zero_add]

end

end Lib.Window
