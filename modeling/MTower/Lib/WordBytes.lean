import MTower.Lib.Counter
import MTower.Lib.Iterated

/-!
# Words and their bytes

Words of `w` bits lie in memory with the low byte first.  Messages have the high byte first.

* `lowBytes`, `lowWords`    the memory of a row of words, and the row in a memory;
* `highBytes`, `highWords`  the same with the high byte first;
* `highWords_xorBytes`      exclusive or, byte by byte or word by word;
* `poke`                    bytes written into a row of words;
* `Turns`                   a function of words that turns the bytes of each of them round,
                            `map_lowWords` and `lowBytes_map` from one order to the other.
-/

set_option linter.unusedVariables false

namespace Lib.WordBytes

open Lib.Fields Lib.Iterated

/-! ## pieces of one length -/

section
variable {α : Type} {k n : Nat}

/-- `n` pieces of `k` elements -/
def cut (k : Nat) : Nat → List α → List (List α)
  | 0, _ => []
  | n + 1, l => l.take k :: cut k n (l.drop k)

theorem length_cut (k n : Nat) (l : List α) : (cut k n l).length = n := by
  induction n generalizing l with
  | zero => rfl
  | succ n ih => rw [cut, List.length_cons, ih]

theorem flatten_cut {l : List α} (h : l.length = k * n) : (cut k n l).flatten = l := by
  induction n generalizing l with
  | zero => exact (List.length_eq_zero_iff.mp h).symm
  | succ n ih =>
    rw [Nat.mul_succ] at h
    rw [cut, List.flatten_cons, ih, List.take_append_drop]
    rw [List.length_drop]
    omega

theorem length_of_mem_cut {l p : List α} (h : k * n ≤ l.length) (hp : p ∈ cut k n l) :
    p.length = k := by
  induction n generalizing l with
  | zero => cases hp
  | succ n ih =>
    rw [Nat.mul_succ] at h
    rw [cut, List.mem_cons] at hp
    cases hp with
    | inl hp =>
      rw [hp, List.length_take]
      omega
    | inr hp =>
      apply ih _ hp
      rw [List.length_drop]
      omega

theorem cut_append {l : List α} (h : l.length = k * n) (m : Nat) (r : List α) :
    cut k (n + m) (l ++ r) = cut k n l ++ cut k m r := by
  induction n generalizing l with
  | zero =>
    rw [List.length_eq_zero_iff.mp h, List.nil_append, Nat.zero_add]
    rfl
  | succ n ih =>
    rw [Nat.mul_succ] at h
    have hdrop : (l.drop k).length = k * n := by
      rw [List.length_drop]
      omega
    rw [Nat.add_right_comm, cut, cut, List.take_append_of_le_length (by omega),
      List.drop_append_of_le_length (by omega), ih hdrop, List.cons_append]

theorem cut_map_flatten {β : Type} {f : β → List α} (h : ∀ x, (f x).length = k) (l : List β) :
    cut k l.length (l.map f).flatten = l.map f := by
  induction l with
  | nil => rfl
  | cons x l ih =>
    rw [List.length_cons, cut, List.map_cons, List.flatten_cons, List.take_left' (h x),
      List.drop_left' (h x), ih]

end

/-! ## words -/

section
variable {w : Nat}

/-- the bytes of a row of words, the low one of each word first -/
def lowBytes (ws : List (BitVec w)) : List UInt8 :=
  ws.flatMap fun x => (beBytes (w / 8) x.toNat).reverse

/-- `n` words whose low bytes come first -/
def lowWords (w n : Nat) (l : List UInt8) : List (BitVec w) :=
  (cut (w / 8) n l).map fun g => BitVec.ofNat w (number g.reverse)

def highBytes (ws : List (BitVec w)) : List UInt8 := ws.flatMap fun x => beBytes (w / 8) x.toNat

def highWords (w n : Nat) (l : List UInt8) : List (BitVec w) :=
  (cut (w / 8) n l).map fun g => BitVec.ofNat w (number g)

theorem length_lowBytes (ws : List (BitVec w)) : (lowBytes ws).length = w / 8 * ws.length := by
  induction ws with
  | nil => rfl
  | cons x ws ih =>
    rw [lowBytes, List.flatMap_cons, List.length_append, List.length_reverse, length_beBytes]
    rw [lowBytes] at ih
    rw [ih, List.length_cons, Nat.mul_succ, Nat.add_comm]

theorem length_highBytes (ws : List (BitVec w)) : (highBytes ws).length = w / 8 * ws.length := by
  induction ws with
  | nil => rfl
  | cons x ws ih =>
    rw [highBytes, List.flatMap_cons, List.length_append, length_beBytes]
    rw [highBytes] at ih
    rw [ih, List.length_cons, Nat.mul_succ, Nat.add_comm]

theorem length_lowWords (w n : Nat) (l : List UInt8) : (lowWords w n l).length = n := by
  rw [lowWords, List.length_map, length_cut]

theorem length_highWords (w n : Nat) (l : List UInt8) : (highWords w n l).length = n := by
  rw [highWords, List.length_map, length_cut]

theorem beBytes_zero (k : Nat) : beBytes k 0 = List.replicate k 0 := by
  induction k with
  | zero => rfl
  | succ k ih =>
    rw [beBytes, Nat.zero_div, ih, List.replicate_succ']
    rfl

theorem lowBytes_zeros (w n : Nat) :
    lowBytes (List.replicate n (0 : BitVec w)) = List.replicate (w / 8 * n) 0 := by
  induction n with
  | zero => rfl
  | succ n ih =>
    rw [lowBytes] at ih
    rw [List.replicate_succ, lowBytes, List.flatMap_cons, ih, Nat.mul_succ, Nat.add_comm,
      List.replicate_add]
    congr 1
    show (beBytes (w / 8) 0).reverse = _
    rw [beBytes_zero, List.reverse_replicate]

theorem highWords_append {n : Nat} {l : List UInt8} (h : l.length = w / 8 * n) (m : Nat)
    (r : List UInt8) : highWords w (n + m) (l ++ r) = highWords w n l ++ highWords w m r := by
  rw [highWords, cut_append h, List.map_append]
  rfl

theorem lowWords_append {n : Nat} {l : List UInt8} (h : l.length = w / 8 * n) (m : Nat)
    (r : List UInt8) : lowWords w (n + m) (l ++ r) = lowWords w n l ++ lowWords w m r := by
  rw [lowWords, cut_append h, List.map_append]
  rfl

section
variable (h8 : 8 * (w / 8) = w)
include h8

/-- a word has `w / 8` bytes -/
theorem pow_bytes : 256 ^ (w / 8) = 2 ^ w := by
  rw [show 256 = 2 ^ 8 from rfl, ← Nat.pow_mul, h8]

theorem ofNat_number_beBytes (x : BitVec w) : BitVec.ofNat w (number (beBytes (w / 8) x.toNat)) = x := by
  rw [number_beBytes, pow_bytes h8, Nat.mod_eq_of_lt x.isLt, BitVec.ofNat_toNat, BitVec.setWidth_eq]

theorem beBytes_ofNat {l : List UInt8} (hl : l.length = w / 8) :
    beBytes (w / 8) (BitVec.ofNat w (number l)).toNat = l := by
  rw [BitVec.toNat_ofNat, ← pow_bytes h8, beBytes_mod, ← hl, beBytes_number]

theorem lowBytes_lowWords {n : Nat} {l : List UInt8} (hl : l.length = w / 8 * n) :
    lowBytes (lowWords w n l) = l := by
  rw [lowBytes, lowWords, List.flatMap_map]
  conv => rhs; rw [← flatten_cut hl]
  rw [← List.flatMap_id]
  apply List.flatMap_congr
  intro g hg
  have hlen := length_of_mem_cut (Nat.le_of_eq hl.symm) hg
  rw [beBytes_ofNat h8 (by rw [List.length_reverse, hlen]), List.reverse_reverse]
  rfl

theorem lowWords_lowBytes {n : Nat} {ws : List (BitVec w)} (hn : ws.length = n) :
    lowWords w n (lowBytes ws) = ws := by
  have hcut : cut (w / 8) ws.length (ws.map fun x => (beBytes (w / 8) x.toNat).reverse).flatten =
      ws.map fun x => (beBytes (w / 8) x.toNat).reverse :=
    cut_map_flatten (fun x => by rw [List.length_reverse, length_beBytes]) ws
  rw [← hn, lowWords, lowBytes, List.flatMap_def, hcut, List.map_map]
  conv => rhs; rw [← List.map_id ws]
  apply List.map_congr_left
  intro x _
  rw [Function.comp_apply, List.reverse_reverse, ofNat_number_beBytes h8]
  rfl

theorem highBytes_highWords {n : Nat} {l : List UInt8} (hl : l.length = w / 8 * n) :
    highBytes (highWords w n l) = l := by
  rw [highBytes, highWords, List.flatMap_map]
  conv => rhs; rw [← flatten_cut hl]
  rw [← List.flatMap_id]
  apply List.flatMap_congr
  intro g hg
  exact beBytes_ofNat h8 (length_of_mem_cut (Nat.le_of_eq hl.symm) hg)

theorem highWords_highBytes {n : Nat} {ws : List (BitVec w)} (hn : ws.length = n) :
    highWords w n (highBytes ws) = ws := by
  have hcut : cut (w / 8) ws.length (ws.map fun x => beBytes (w / 8) x.toNat).flatten =
      ws.map fun x => beBytes (w / 8) x.toNat := cut_map_flatten (fun x => length_beBytes _ _) ws
  rw [← hn, highWords, highBytes, List.flatMap_def, hcut, List.map_map]
  conv => rhs; rw [← List.map_id ws]
  apply List.map_congr_left
  intro x _
  exact ofNat_number_beBytes h8 x

end

/-! ## exclusive or -/

theorem xor_bytes {a b c d : Nat} (hb : b < 256) (hd : d < 256) :
    (256 * a + b) ^^^ (256 * c + d) = 256 * (a ^^^ c) + (b ^^^ d) := by
  have hbd : b ^^^ d < 2 ^ 8 := Nat.xor_lt_two_pow hb hd
  apply Nat.eq_of_testBit_eq
  intro i
  rw [Nat.testBit_xor, show 256 = 2 ^ 8 from rfl, Nat.testBit_two_pow_mul_add _ hb,
    Nat.testBit_two_pow_mul_add _ hd, Nat.testBit_two_pow_mul_add _ hbd]
  by_cases hi : i < 8
  · rw [if_pos hi, if_pos hi, if_pos hi, Nat.testBit_xor]
  · rw [if_neg hi, if_neg hi, if_neg hi, Nat.testBit_xor]

/-- byte by byte -/
def xorBytes (l m : List UInt8) : List UInt8 := List.zipWith (· ^^^ ·) l m

theorem length_xorBytes {l m : List UInt8} (h : l.length = m.length) :
    (xorBytes l m).length = l.length := by
  rw [xorBytes, List.length_zipWith, h, Nat.min_self]

theorem number_xorBytes {l m : List UInt8} (h : l.length = m.length) :
    number (xorBytes l m) = number l ^^^ number m := by
  induction l using List.reverseRecOn generalizing m with
  | nil =>
    rw [List.length_eq_zero_iff.mp h.symm]
    simp [xorBytes, number_nil]
  | append_singleton l a ih =>
    rw [List.length_append, List.length_singleton] at h
    obtain ⟨m', b, rfl⟩ : ∃ m' b, m = m' ++ [b] :=
      ⟨m.dropLast, m.getLast (List.ne_nil_of_length_pos (by omega)),
        (List.dropLast_append_getLast _).symm⟩
    have hlen : l.length = m'.length := by
      rw [List.length_append, List.length_singleton] at h
      omega
    have hsplit : xorBytes (l ++ [a]) (m' ++ [b]) = xorBytes l m' ++ [a ^^^ b] :=
      List.zipWith_append hlen
    rw [hsplit, number_concat, number_concat, number_concat, ih hlen,
      xor_bytes a.toNat_lt b.toNat_lt, UInt8.toNat_xor]

theorem highWords_xorBytes {n : Nat} {l m : List UInt8} (hl : l.length = w / 8 * n)
    (hm : m.length = w / 8 * n) :
    highWords w n (xorBytes l m) = List.zipWith (· ^^^ ·) (highWords w n l) (highWords w n m) := by
  induction n generalizing l m with
  | zero => rfl
  | succ n ih =>
    rw [Nat.mul_succ] at hl hm
    have hdrop : ∀ l : List UInt8, l.length = w / 8 * n + w / 8 →
        (l.drop (w / 8)).length = w / 8 * n := by
      intro l hl
      rw [List.length_drop]
      omega
    have htake : (l.take (w / 8)).length = (m.take (w / 8)).length := by
      rw [List.length_take, List.length_take, hl, hm]
    have ih := ih (hdrop l hl) (hdrop m hm)
    rw [highWords, highWords, highWords, xorBytes] at ih
    rw [highWords, highWords, highWords, cut, cut, cut, List.map_cons, List.map_cons, List.map_cons,
      List.zipWith_cons_cons, ← ih, xorBytes, List.take_zipWith, List.drop_zipWith, ← BitVec.ofNat_xor,
      ← number_xorBytes htake]
    rfl

/-- the same byte with every byte of a string -/
theorem highWords_map_xor {n : Nat} {l : List UInt8} (hl : l.length = w / 8 * n) (b : UInt8) :
    highWords w n (l.map (· ^^^ b)) =
      (highWords w n l).map (· ^^^ BitVec.ofNat w (number (List.replicate (w / 8) b))) := by
  have hbytes : ∀ l : List UInt8, l.map (· ^^^ b) = xorBytes l (List.replicate l.length b) := by
    intro l
    induction l with
    | nil => rfl
    | cons a l ih =>
      rw [List.map_cons, ih]
      rfl
  have hwords : ∀ (l : List (BitVec w)) (x : BitVec w),
      List.zipWith (· ^^^ ·) l (List.replicate l.length x) = l.map (· ^^^ x) := by
    intro l x
    induction l with
    | nil => rfl
    | cons a l ih =>
      rw [List.map_cons, ← ih]
      rfl
  have hrep : ∀ n, highWords w n (List.replicate (w / 8 * n) b) =
      List.replicate n (BitVec.ofNat w (number (List.replicate (w / 8) b))) := by
    intro n
    induction n with
    | zero => rfl
    | succ n ih =>
      rw [highWords] at ih
      rw [highWords, cut, List.take_replicate, List.drop_replicate, Nat.mul_succ,
        Nat.add_sub_cancel, List.map_cons, ih, Nat.min_eq_left (Nat.le_add_left _ _)]
      rfl
  rw [hbytes, highWords_xorBytes hl (by rw [List.length_replicate, hl]), hl, hrep, ← hwords,
    length_highWords]

/-! ## bytes written into words -/

/-- the bytes `d` written at byte `i` of a row of words -/
def poke (ws : List (BitVec w)) (i : Nat) (d : List UInt8) : List (BitVec w) :=
  lowWords w ws.length (splice (lowBytes ws) i d)

theorem length_poke (ws : List (BitVec w)) (i : Nat) (d : List UInt8) :
    (poke ws i d).length = ws.length := length_lowWords _ _ _

theorem lowBytes_poke (h8 : 8 * (w / 8) = w) {ws : List (BitVec w)} {i : Nat} {d : List UInt8}
    (h : i + d.length ≤ w / 8 * ws.length) :
    lowBytes (poke ws i d) = splice (lowBytes ws) i d := by
  rw [poke, lowBytes_lowWords h8]
  rw [length_splice (by rwa [length_lowBytes]), length_lowBytes]

theorem lowBytes_append (xs ys : List (BitVec w)) :
    lowBytes (xs ++ ys) = lowBytes xs ++ lowBytes ys := List.flatMap_append

/-- whole words at the start of the row -/
theorem poke_words (h8 : 8 * (w / 8) = w) {ws : List (BitVec w)} {n : Nat} {d : List UInt8}
    (hd : d.length = w / 8 * n) (hn : n ≤ ws.length) : poke ws 0 d = lowWords w n d ++ ws.drop n := by
  have htake : (lowBytes (ws.take n)).length = d.length := by
    rw [length_lowBytes, List.length_take, Nat.min_eq_left hn, hd]
  have hdrop : (lowBytes ws).drop d.length = lowBytes (ws.drop n) := by
    conv => lhs; rw [← List.take_append_drop n ws, lowBytes_append, List.drop_left' htake]
  have hlen : ws.length = n + (ws.drop n).length := by
    rw [List.length_drop]
    omega
  rw [poke, splice_zero, hdrop, hlen, lowWords_append hd, lowWords_lowBytes h8 rfl]

/-! ## the bytes of a word turned round -/

/-- `r` turns the bytes of a word round -/
def Turns (r : BitVec w → BitVec w) : Prop :=
  ∀ x, beBytes (w / 8) (r x).toNat = (beBytes (w / 8) x.toNat).reverse

theorem getElem_beBytes {k i : Nat} (v : Nat) (hi : i < (beBytes k v).length) :
    (beBytes k v)[i] = UInt8.ofNat (v / 256 ^ (k - 1 - i)) := by
  induction k generalizing v i with
  | zero => cases hi
  | succ k ih =>
    have hlen := length_beBytes k (v / 256)
    rw [length_beBytes] at hi
    simp only [beBytes]
    by_cases hk : i < k
    · have hexp : k + 1 - 1 - i = k - 1 - i + 1 := by omega
      rw [List.getElem_append_left (by omega), ih, Nat.div_div_eq_div_mul, hexp, Nat.pow_succ,
        Nat.mul_comm]
    · have hexp : k + 1 - 1 - i = 0 := by omega
      rw [List.getElem_append_right (by omega), List.getElem_singleton, hexp, Nat.pow_zero,
        Nat.div_one]

/-- bit by bit -/
theorem turns_of_bits {r : BitVec w → BitVec w}
    (h : ∀ x i j, i < w / 8 → j < 8 → (r x).getLsbD (8 * i + j) = x.getLsbD (8 * (w / 8 - 1 - i) + j)) :
    Turns r := by
  intro x
  apply List.ext_getElem
  · rw [List.length_reverse, length_beBytes, length_beBytes]
  · intro i hi hi'
    rw [length_beBytes] at hi
    simp only [List.getElem_reverse, getElem_beBytes, length_beBytes]
    apply UInt8.toNat_inj.mp
    rw [UInt8.toNat_ofNat', UInt8.toNat_ofNat']
    apply Nat.eq_of_testBit_eq
    intro j
    have hpow : ∀ n, 256 ^ n = 2 ^ (8 * n) := fun n => by rw [Nat.pow_mul]
    rw [Nat.testBit_mod_two_pow _ 8, Nat.testBit_mod_two_pow _ 8, hpow, hpow, Nat.testBit_div_two_pow,
      Nat.testBit_div_two_pow]
    by_cases hj : j < 8
    · have hbit := h x (w / 8 - 1 - i) j (by omega) hj
      rw [BitVec.getLsbD, BitVec.getLsbD] at hbit
      rw [Nat.add_comm, hbit, Nat.add_comm]
    · simp [hj]

section
variable {r : BitVec w → BitVec w} (h8 : 8 * (w / 8) = w) (hr : Turns r)
include hr

theorem lowBytes_map (ws : List (BitVec w)) : lowBytes (ws.map r) = highBytes ws := by
  rw [lowBytes, highBytes, List.flatMap_map]
  apply List.flatMap_congr
  intro x _
  rw [hr, List.reverse_reverse]

include h8

theorem turns_ofNat {l : List UInt8} (hl : l.length = w / 8) :
    r (BitVec.ofNat w (number l.reverse)) = BitVec.ofNat w (number l) := by
  have h := hr (BitVec.ofNat w (number l.reverse))
  rw [beBytes_ofNat h8 (by rw [List.length_reverse, hl]), List.reverse_reverse] at h
  rw [← ofNat_number_beBytes h8 (r _), h]

theorem map_lowWords {n : Nat} {l : List UInt8} (hl : w / 8 * n ≤ l.length) :
    (lowWords w n l).map r = highWords w n l := by
  rw [lowWords, highWords, List.map_map]
  apply List.map_congr_left
  intro g hg
  exact turns_ofNat h8 hr (length_of_mem_cut hl hg)

end

end

end Lib.WordBytes
