import MTower.Lib.Counter

/-!
# Octets by fours

A string of octets is cut into words of four, and the octets of every word are turned round.

* `swapWords`        the string with its words turned round, `swapWords_append` word by word;
* `beBytes_pad`      the octets of a number are zeros and then its significant octets;
* `swapWords_shifted`  turning round a string that was moved to the left gives it back when every
  word is zeros and a palindrome.
-/

set_option linter.unusedVariables false

namespace Lib.Fields

/-- the words, without what is left over at the end -/
def words : List UInt8 → List (List UInt8)
  | a :: b :: c :: d :: l => [a, b, c, d] :: words l
  | _ => []

def swapWords (l : List UInt8) : List UInt8 := (words l).flatMap List.reverse

theorem words_cons (g l : List UInt8) (hg : g.length = 4) : words (g ++ l) = g :: words l := by
  match g, hg with
  | [a, b, c, d], _ => rfl

theorem swapWords_cons (g l : List UInt8) (hg : g.length = 4) :
    swapWords (g ++ l) = g.reverse ++ swapWords l := by
  rw [swapWords, words_cons g l hg, List.flatMap_cons]
  rfl

/-- a string of `n + 1` words starts with one -/
theorem split_word {l : List UInt8} {n : Nat} (hl : l.length = 4 * (n + 1)) :
    ∃ g l', l = g ++ l' ∧ g.length = 4 ∧ l'.length = 4 * n := by
  refine ⟨l.take 4, l.drop 4, (List.take_append_drop 4 l).symm, ?_, ?_⟩
  · rw [List.length_take]
    omega
  · rw [List.length_drop]
    omega

theorem swapWords_append {n : Nat} (l m : List UInt8) (hl : l.length = 4 * n) :
    swapWords (l ++ m) = swapWords l ++ swapWords m := by
  induction n generalizing l with
  | zero =>
    rw [List.length_eq_zero_iff.mp hl]
    rfl
  | succ n ih =>
    obtain ⟨g, l', rfl, hg, hl'⟩ := split_word hl
    rw [List.append_assoc, swapWords_cons _ _ hg, swapWords_cons _ _ hg, ih l' hl',
      List.append_assoc]

theorem length_swapWords {n : Nat} {l : List UInt8} (hl : l.length = 4 * n) :
    (swapWords l).length = 4 * n := by
  induction n generalizing l with
  | zero =>
    rw [List.length_eq_zero_iff.mp hl]
    rfl
  | succ n ih =>
    obtain ⟨g, l', rfl, hg, hl'⟩ := split_word hl
    rw [swapWords_cons _ _ hg, List.length_append, List.length_reverse, hg, ih hl']
    omega

/-- the words of a memory, one after the other -/
theorem swapWords_bytesAt (d : Nat → UInt8) (offs n : Nat) :
    swapWords (bytesAt d offs (4 * n)) =
      (List.range n).flatMap fun i => (bytesAt d (offs + 4 * i) 4).reverse := by
  induction n with
  | zero => rfl
  | succ n ih =>
    have hsplit : bytesAt d offs (4 * (n + 1)) = bytesAt d offs (4 * n) ++ bytesAt d (offs + 4 * n) 4 := by
      rw [Nat.mul_succ, bytesAt, List.range_add, List.map_append, List.map_map]
      simp only [bytesAt, Function.comp_def, Nat.add_assoc]
    have hlast : swapWords (bytesAt d (offs + 4 * n) 4) = (bytesAt d (offs + 4 * n) 4).reverse := by
      have h := swapWords_cons (bytesAt d (offs + 4 * n) 4) [] (length_bytesAt _ _ _)
      rwa [List.append_nil, show swapWords [] = [] from rfl, List.append_nil] at h
    rw [hsplit, swapWords_append _ _ (length_bytesAt _ _ _), ih, hlast, List.range_succ,
      List.flatMap_append, List.flatMap_singleton]

/-! ## significant octets -/

/-- how many octets of `l` are zero before the first that is not -/
def leadingZeros (l : List UInt8) : Nat := (l.takeWhile (· == 0)).length

theorem number_zeros (z : Nat) (l : List UInt8) : number (List.replicate z 0 ++ l) = number l := by
  induction z with
  | zero => rfl
  | succ z ih =>
    rw [List.replicate_succ, List.cons_append, number, List.foldl_cons]
    exact ih

/-- without a zero in front there are no more octets than the number needs -/
theorem length_le_of_number {l : List UInt8} {k : Nat} (hhead : l.head? ≠ some 0)
    (hlt : number l < 256 ^ k) : l.length ≤ k := by
  cases l with
  | nil => exact Nat.zero_le k
  | cons b l =>
    have hb : b ≠ 0 := fun h => hhead (by rw [h]; rfl)
    have hpos : 0 < b.toNat := Nat.pos_of_ne_zero fun h => hb (UInt8.toNat_inj.mp h)
    have hle : 256 ^ l.length ≤ number (b :: l) := by
      rw [number, List.foldl_cons, Nat.mul_zero, Nat.zero_add]
      have hstep : ∀ (m : List UInt8) (v : Nat),
          v * 256 ^ m.length ≤ m.foldl (fun v b => 256 * v + b.toNat) v := by
        intro m
        induction m with
        | nil => intro v; simp
        | cons c m ih =>
          intro v
          refine Nat.le_trans ?_ (ih (256 * v + c.toNat))
          rw [List.length_cons, Nat.pow_succ, Nat.mul_comm (256 ^ m.length), ← Nat.mul_assoc,
            Nat.mul_comm v]
          exact Nat.mul_le_mul_right _ (Nat.le_add_right _ _)
      refine Nat.le_trans ?_ (hstep l b.toNat)
      exact Nat.le_mul_of_pos_left _ hpos
    have hpow : 256 ^ l.length < 256 ^ k := Nat.lt_of_le_of_lt hle hlt
    exact (Nat.pow_lt_pow_iff_right (by decide)).mp hpow

theorem beBytes_pad {l : List UInt8} {k : Nat} (hhead : l.head? ≠ some 0)
    (hlt : number l < 256 ^ k) :
    beBytes k (number l) = List.replicate (k - l.length) 0 ++ l := by
  have hle := length_le_of_number hhead hlt
  apply number_inj
  · rw [length_beBytes, List.length_append, List.length_replicate]
    omega
  · rw [number_beBytes, number_zeros, Nat.mod_eq_of_lt hlt]

theorem leadingZeros_pad {l : List UInt8} (hhead : l.head? ≠ some 0) (z : Nat) :
    leadingZeros (List.replicate z 0 ++ l) = z := by
  induction z with
  | zero =>
    cases l with
    | nil => rfl
    | cons b l =>
      have hb : (b == 0) = false := by
        rw [beq_eq_false_iff_ne]
        exact fun h => hhead (by rw [h]; rfl)
      rw [List.replicate_zero, List.nil_append, leadingZeros, List.takeWhile_cons, hb]
      rfl
  | succ z ih =>
    have h0 : ((0 : UInt8) == 0) = true := rfl
    rw [List.replicate_succ, List.cons_append, leadingZeros, List.takeWhile_cons, if_pos h0,
      List.length_cons]
    exact congrArg Nat.succ ih

/-! ## a string that was moved to the left -/

/-- `z` zeros and a palindrome -/
def MirrorsAfter (z : Nat) (g : List UInt8) : Prop :=
  g.take z = List.replicate z 0 ∧ (g.drop z).reverse = g.drop z

instance (z : Nat) (g : List UInt8) : Decidable (MirrorsAfter z g) :=
  inferInstanceAs (Decidable (_ ∧ _))

/-- `b` without its first `z` octets, which are zero, and filled up with zeros behind -/
theorem swapWords_shifted {n z : Nat} {b : List UInt8} (hz : z ≤ 4) (hb : b.length = 4 * n)
    (hzero : (b ++ List.replicate z 0).take z = List.replicate z 0) :
    swapWords ((b ++ List.replicate z 0).drop z) = b ↔ ∀ g ∈ words b, MirrorsAfter z g := by
  induction n generalizing b with
  | zero =>
    rw [List.length_eq_zero_iff.mp hb, List.nil_append, List.drop_replicate, Nat.sub_self]
    simp [words, swapWords]
  | succ n ih =>
    obtain ⟨g, b', rfl, hg, hb'⟩ := split_word hb
    have ih := ih hb'
    generalize hc : b' ++ List.replicate z 0 = c at ih
    have hclen : z ≤ c.length := by
      rw [← hc, List.length_append, List.length_replicate]
      omega
    have hgz : g.take z = List.replicate z 0 := by
      rwa [List.append_assoc, List.take_append_of_le_length (by omega)] at hzero
    have hgsplit : List.replicate z 0 ++ g.drop z = g := by
      rw [← hgz, List.take_append_drop]
    -- the first word is what is left of `g`, filled up from behind
    have hshift : (g ++ b' ++ List.replicate z 0).drop z = (g.drop z ++ c.take z) ++ c.drop z := by
      rw [List.append_assoc, hc, List.drop_append_of_le_length (by omega), List.append_assoc,
        List.take_append_drop]
    have hword : (g.drop z ++ c.take z).length = 4 := by
      rw [List.length_append, List.length_drop, List.length_take]
      omega
    rw [hshift, swapWords_cons _ _ hword, words_cons g b' hg, List.reverse_append]
    simp only [List.mem_cons, forall_eq_or_imp]
    -- a word that follows and mirrors starts with the zeros that are asked for
    have hnext : (∀ h ∈ words b', MirrorsAfter z h) → c.take z = List.replicate z 0 := by
      intro hall
      rw [← hc]
      cases n with
      | zero =>
        rw [List.length_eq_zero_iff.mp hb', List.nil_append, List.take_replicate, Nat.min_self]
      | succ n =>
        obtain ⟨h, b'', rfl, hh, -⟩ := split_word hb'
        rw [words_cons h b'' hh] at hall
        rw [List.append_assoc, List.take_append_of_le_length (by omega)]
        exact (hall h List.mem_cons_self).1
    constructor
    · intro heq
      obtain ⟨hfirst, hrest⟩ := List.append_inj heq (by
        rw [List.length_append, List.length_reverse, List.length_reverse, List.length_take,
          List.length_drop]
        omega)
      rw [← hgsplit] at hfirst
      obtain ⟨hzeros, hmirror⟩ := List.append_inj hfirst (by
        rw [List.length_reverse, List.length_take, List.length_replicate]
        omega)
      rw [hgsplit] at hmirror
      have hctake : c.take z = List.replicate z 0 := by
        rw [← List.reverse_reverse (c.take z), hzeros, List.reverse_replicate]
      exact ⟨⟨hgz, hmirror⟩, (ih hctake).mp hrest⟩
    · intro h
      have hctake := hnext h.2
      rw [(ih hctake).mpr h.2, hctake, List.reverse_replicate, h.1.2, hgsplit]

/-- the first octet stays in the first word -/
theorem head_of_swapWords {b : UInt8} {m r : List UInt8} {k : Nat} (hm : 3 ≤ m.length)
    (h : swapWords (b :: m) = List.replicate (k + 4) 0 ++ r) : b = 0 := by
  match m, hm with
  | c1 :: c2 :: c3 :: m', _ =>
    simp only [swapWords, words, List.flatMap_cons, List.reverse_cons, List.reverse_nil,
      List.nil_append, List.cons_append, List.replicate_succ, List.cons.injEq] at h
    exact h.2.2.2.1

end Lib.Fields
