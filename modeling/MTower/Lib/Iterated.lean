import Mathlib

/-!
# Iterated functions of a message

A state is taken from one block of `b` elements of a message to the next.  What is left over at the
end waits for more.

* `eat`, `chain`, `rest`   the state behind the whole blocks, and what is left over;
* `chain_append`, `rest_append`   a message in two pieces, so only the state and what is left over
                           are needed to go on;
* `fill`                   the elements that are missing to a whole number of blocks;
* `splice`                 a piece written into a row.
-/

set_option linter.unusedVariables false

namespace Lib.Iterated

/-! ## blocks -/

section
variable {α σ : Type} (b : Nat) (f : σ → List α → σ)

/-- the state behind the first `n` blocks -/
def eat : Nat → σ → List α → σ
  | 0, s, _ => s
  | n + 1, s, m => eat n (f s (m.take b)) (m.drop b)

def chain (s : σ) (m : List α) : σ := eat b f (m.length / b) s m

def rest (m : List α) : List α := m.drop (b * (m.length / b))

variable {b f}

theorem eat_add (n k : Nat) (s : σ) (m : List α) :
    eat b f (n + k) s m = eat b f k (eat b f n s m) (m.drop (b * n)) := by
  induction n generalizing s m with
  | zero => rw [Nat.zero_add, Nat.mul_zero, List.drop_zero]; rfl
  | succ n ih =>
    rw [Nat.add_right_comm, eat, ih, eat, List.drop_drop, Nat.mul_succ, Nat.add_comm b]

/-- blocks that lie in the first piece -/
theorem eat_append {n : Nat} {m : List α} (h : b * n ≤ m.length) (s : σ) (d : List α) :
    eat b f n s (m ++ d) = eat b f n s m := by
  induction n generalizing s m with
  | zero => rfl
  | succ n ih =>
    rw [Nat.mul_succ] at h
    rw [eat, eat, List.take_append_of_le_length (by omega), List.drop_append_of_le_length (by omega)]
    apply ih
    rw [List.length_drop]
    omega

theorem length_rest (m : List α) : (rest b m).length = m.length % b := by
  rw [rest, List.length_drop, Nat.mod_eq_sub]

/-- the number of blocks of a message in two pieces -/
theorem blocks_append (hb : 0 < b) (m d : List α) :
    (m ++ d).length / b = m.length / b + (rest b m ++ d).length / b := by
  have hlen : m.length + d.length = (m.length % b + d.length) + b * (m.length / b) := by
    have h := Nat.div_add_mod m.length b
    omega
  rw [List.length_append, List.length_append, length_rest, hlen, Nat.add_mul_div_left _ _ hb,
    Nat.add_comm]

theorem drop_blocks (m d : List α) :
    (m ++ d).drop (b * (m.length / b)) = rest b m ++ d := by
  rw [List.drop_append_of_le_length (Nat.mul_div_le _ _)]
  rfl

/-- **A message in two pieces.** -/
theorem chain_append (hb : 0 < b) (s : σ) (m d : List α) :
    chain b f s (m ++ d) = chain b f (chain b f s m) (rest b m ++ d) := by
  rw [chain, blocks_append hb, eat_add, eat_append (Nat.mul_div_le _ _), drop_blocks]
  rfl

theorem rest_append (hb : 0 < b) (m d : List α) : rest b (m ++ d) = rest b (rest b m ++ d) := by
  rw [rest, blocks_append hb, Nat.mul_add, ← List.drop_drop, drop_blocks]
  rfl

theorem chain_of_lt {m : List α} (h : m.length < b) (s : σ) : chain b f s m = s := by
  rw [chain, Nat.div_eq_of_lt h]
  rfl

theorem rest_of_lt {m : List α} (h : m.length < b) : rest b m = m := by
  rw [rest, Nat.div_eq_of_lt h, Nat.mul_zero, List.drop_zero]

/-- one block in front -/
theorem chain_block (hb : 0 < b) {d : List α} (hd : d.length = b) (s : σ) (m : List α) :
    chain b f s (d ++ m) = chain b f (f s d) m := by
  have hblocks : (d ++ m).length / b = m.length / b + 1 := by
    rw [List.length_append, hd, Nat.add_div_left _ hb]
  rw [chain, hblocks, eat, List.take_left' hd, List.drop_left' hd]
  rfl

theorem chain_nil (s : σ) : chain b f s ([] : List α) = s := by
  rw [chain, List.length_nil, Nat.zero_div]
  rfl

theorem chain_one (hb : 0 < b) {d : List α} (hd : d.length = b) (s : σ) : chain b f s d = f s d := by
  rw [← List.append_nil d, chain_block hb hd, chain_nil, List.append_nil]

/-- what every block keeps -/
theorem chain_inv {P : σ → Prop} (hf : ∀ s d, P s → P (f s d)) {s : σ} (hs : P s) (m : List α) :
    P (chain b f s m) := by
  unfold chain
  generalize m.length / b = n
  induction n generalizing s m with
  | zero => exact hs
  | succ n ih => exact ih (hf _ _ hs) _

/-- how many elements are missing to a whole number of blocks -/
def fill (b n : Nat) : Nat := (b - n % b) % b

theorem add_fill (hb : 0 < b) (n : Nat) : b ∣ n + fill b n := by
  unfold fill
  have hlt := Nat.mod_lt n hb
  have h := Nat.div_add_mod n b
  by_cases h0 : n % b = 0
  · rw [h0, Nat.sub_zero, Nat.mod_self, Nat.add_zero]
    exact Nat.dvd_of_mod_eq_zero h0
  · rw [Nat.mod_eq_of_lt (show b - n % b < b by omega)]
    refine ⟨n / b + 1, ?_⟩
    rw [Nat.mul_succ]
    omega

theorem fill_unique {n k : Nat} (hk : k < b) (h : b ∣ n + k) : fill b n = k := by
  have hb : 0 < b := by omega
  have hlt : fill b n < b := Nat.mod_lt _ hb
  have heq : n + fill b n ≡ n + k [MOD b] :=
    (Nat.mod_eq_zero_of_dvd (add_fill hb n)).trans (Nat.mod_eq_zero_of_dvd h).symm
  exact (Nat.ModEq.add_left_cancel' n heq).eq_of_lt_of_lt hlt hk

end

/-! ## rows -/

section
variable {α : Type} {l d : List α} {n : Nat}

/-- the piece `d` written at `n` -/
def splice (l : List α) (n : Nat) (d : List α) : List α := l.take n ++ (d ++ l.drop (n + d.length))

theorem length_splice (h : n + d.length ≤ l.length) : (splice l n d).length = l.length := by
  simp only [splice, List.length_append, List.length_take, List.length_drop]
  omega

theorem take_splice (h : n ≤ l.length) : (splice l n d).take (n + d.length) = l.take n ++ d := by
  have hlen : (l.take n ++ d).length = n + d.length := by
    rw [List.length_append, List.length_take]
    omega
  rw [splice, ← List.append_assoc, List.take_left' hlen]

/-- a piece up to the end of the row -/
theorem splice_to_end (h : n + d.length = l.length) : splice l n d = l.take n ++ d := by
  rw [splice, h, List.drop_length, List.append_nil]

/-- a piece written behind `l` -/
theorem splice_append {i : Nat} (l r d : List α) (hi : i = l.length) :
    splice (l ++ r) i d = l ++ (d ++ r.drop d.length) := by
  rw [splice, List.take_left' hi.symm, ← List.drop_drop, List.drop_left' hi.symm]

theorem splice_zero (l d : List α) : splice l 0 d = d ++ l.drop d.length := by
  rw [splice, List.take_zero, List.nil_append, Nat.zero_add]

end

end Lib.Iterated
