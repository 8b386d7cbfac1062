import Mathlib

/-!
# Fields in a byte buffer

A buffer is a function from offsets to bytes.  A cursor walks over a buffer, or only counts when
there is none, and writes a piece where it ends before the end of the buffer.

* `blit`, `bytesAt`   writing and reading a piece, `bytesAt_blit_append`, `blit_append`;
* `puts`              a list of pieces one after the other, `puts_spec`, `puts_outside`,
  `puts_blit`;
* `Carries`           the buffer holds records that are each led by their length, `carries_blit`.
-/

set_option linter.unusedVariables false

namespace Lib.Fields

variable {d d' : Nat → UInt8} {offs : Nat}

/-! ## pieces -/

def bytesAt (d : Nat → UInt8) (offs n : Nat) : List UInt8 := (List.range n).map fun i => d (offs + i)

def blit (d : Nat → UInt8) (offs : Nat) (l : List UInt8) : Nat → UInt8 :=
  fun i => if offs ≤ i ∧ i < offs + l.length then l.getD (i - offs) 0 else d i

theorem length_bytesAt (d : Nat → UInt8) (offs n : Nat) : (bytesAt d offs n).length = n := by
  rw [bytesAt, List.length_map, List.length_range]

theorem blit_out {l : List UInt8} {i : Nat} (h : i < offs ∨ offs + l.length ≤ i) :
    blit d offs l i = d i := by
  apply if_neg
  omega

theorem blit_append (d : Nat → UInt8) (offs : Nat) (a b : List UInt8) :
    blit d offs (a ++ b) = blit (blit d offs a) (offs + a.length) b := by
  funext i
  simp only [blit, List.length_append]
  by_cases hb : offs + a.length ≤ i ∧ i < offs + a.length + b.length
  · rw [if_pos hb, if_pos (by omega), List.getD_append_right _ _ _ _ (by omega), Nat.sub_sub]
  · rw [if_neg hb]
    by_cases ha : offs ≤ i ∧ i < offs + a.length
    · rw [if_pos ha, if_pos (by omega), List.getD_append _ _ _ _ (by omega)]
    · rw [if_neg ha, if_neg (by omega)]

theorem blit_nil (d : Nat → UInt8) (offs : Nat) : blit d offs [] = d := by
  funext i
  apply blit_out
  rw [List.length_nil]
  omega

theorem bytesAt_blit_append (d : Nat → UInt8) (offs : Nat) (a b : List UInt8) :
    bytesAt (blit d offs (a ++ b)) offs a.length = a := by
  apply List.ext_getElem
  · exact length_bytesAt _ _ _
  · intro i hi hi'
    have hin : offs ≤ offs + i ∧ offs + i < offs + (a ++ b).length := by
      rw [List.length_append]
      omega
    simp only [bytesAt, List.getElem_map, List.getElem_range]
    rw [blit, if_pos hin, Nat.add_sub_cancel_left, List.getD_append _ _ _ _ hi',
      List.getD_eq_getElem _ _ hi']

/-! ## numbers -/

/-- the number of a big endian field -/
def number (field : List UInt8) : Nat := field.foldl (fun v b => 256 * v + b.toNat) 0

/-- the big endian field of a 32-bit number -/
def be32 (v : Nat) : List UInt8 :=
  [UInt8.ofNat (v / 2 ^ 24), UInt8.ofNat (v / 2 ^ 16), UInt8.ofNat (v / 2 ^ 8), UInt8.ofNat v]

theorem length_be32 (v : Nat) : (be32 v).length = 4 := rfl

theorem number_be32 {v : Nat} (h : v < 2 ^ 32) : number (be32 v) = v := by
  simp only [number, be32, List.foldl_cons, List.foldl_nil, UInt8.toNat_ofNat']
  omega

theorem foldl_lt (l : List UInt8) (v k : Nat) (hv : v < 256 ^ k) :
    l.foldl (fun v b => 256 * v + b.toNat) v < 256 ^ (k + l.length) := by
  induction l generalizing v k with
  | nil => exact hv
  | cons b l ih =>
    have hb : b.toNat < 256 := b.toNat_lt
    have hstep : 256 * v + b.toNat < 256 ^ (k + 1) := by
      rw [Nat.pow_succ]
      omega
    have h := ih (256 * v + b.toNat) (k + 1) hstep
    rwa [Nat.add_assoc, Nat.add_comm 1] at h

theorem number_lt (d : Nat → UInt8) (offs : Nat) : number (bytesAt d offs 4) < 2 ^ 32 := by
  have h := foldl_lt (bytesAt d offs 4) 0 0 Nat.one_pos
  rw [length_bytesAt] at h
  exact h

/-! ## writing -/

/-- a buffer, or none when the pieces are only counted, and the offset of the next piece -/
structure Cursor where
  data : Option (Nat → UInt8)
  offs : Nat

/-- go on behind the piece `l`, which is written if it ends before `len` -/
def Cursor.advance (len : Nat) (l : List UInt8) (c : Cursor) : Cursor where
  data := if c.offs + l.length ≤ len then c.data.map fun d => blit d c.offs l else c.data
  offs := c.offs + l.length

/-- the pieces one after the other, up to an offset that reaches `limit` -/
def puts (limit len : Nat) : List (List UInt8) → Cursor → Bool × Cursor
  | [], c => (true, c)
  | l :: ls, c => if limit ≤ c.offs + l.length then (false, c) else puts limit len ls (c.advance len l)

section
variable {limit len : Nat} {c : Cursor}

theorem puts_append (ls ls' : List (List UInt8)) (c : Cursor) :
    puts limit len (ls ++ ls') c = match puts limit len ls c with
      | (true, c') => puts limit len ls' c'
      | r => r := by
  induction ls generalizing c with
  | nil => rfl
  | cons l ls ih =>
    rw [List.cons_append, puts, puts]
    by_cases h : limit ≤ c.offs + l.length
    · rw [if_pos h, if_pos h]
    · rw [if_neg h, if_neg h, ih]

/-- the pieces go through exactly when all of them end before the limit -/
theorem puts_spec (ls : List (List UInt8)) (hc : c.offs < limit) :
    if limit ≤ c.offs + ls.flatten.length then (puts limit len ls c).1 = false
    else (puts limit len ls c).1 = true ∧
      (puts limit len ls c).2.offs = c.offs + ls.flatten.length := by
  induction ls generalizing c with
  | nil =>
    rw [List.flatten_nil, List.length_nil, Nat.add_zero, if_neg (by omega)]
    exact ⟨rfl, rfl⟩
  | cons l ls ih =>
    rw [List.flatten_cons, List.length_append, ← Nat.add_assoc, puts]
    by_cases h : limit ≤ c.offs + l.length
    · rw [if_pos (by omega), if_pos h]
    · rw [if_neg h]
      exact ih (c := c.advance len l) (by show c.offs + l.length < limit; omega)

/-- nothing is written at or behind the end of the buffer, nor before the start -/
theorem puts_outside (ls : List (List UInt8)) (c : Cursor) {d : Nat → UInt8}
    (hd : c.data = some d) :
    ∃ d', (puts limit len ls c).2.data = some d' ∧
      ∀ i, i < c.offs ∨ len ≤ i → d' i = d i := by
  induction ls generalizing c d with
  | nil => exact ⟨d, hd, fun i hi => rfl⟩
  | cons l ls ih =>
    rw [puts]
    by_cases h : limit ≤ c.offs + l.length
    · rw [if_pos h]
      exact ⟨d, hd, fun i hi => rfl⟩
    · rw [if_neg h]
      have hstep : ∃ d1, (c.advance len l).data = some d1 ∧
          ∀ i, i < c.offs ∨ len ≤ i → d1 i = d i := by
        by_cases hl : c.offs + l.length ≤ len
        · refine ⟨blit d c.offs l, ?_, fun i hi => blit_out (by omega)⟩
          show (if c.offs + l.length ≤ len then _ else _) = _
          rw [if_pos hl, hd]
          rfl
        · refine ⟨d, ?_, fun i hi => rfl⟩
          show (if c.offs + l.length ≤ len then _ else _) = _
          rw [if_neg hl, hd]
      obtain ⟨d1, hd1, hsame⟩ := hstep
      obtain ⟨d2, hd2, hrest⟩ := ih (c.advance len l) hd1
      refine ⟨d2, hd2, fun i hi => ?_⟩
      have hi' : i < c.offs + l.length ∨ len ≤ i := by omega
      exact (hrest i hi').trans (hsame i hi)

/-- without a buffer the pieces are counted -/
theorem puts_none (ls : List (List UInt8)) (c : Cursor) (hd : c.data = none) :
    (puts limit len ls c).2.data = none := by
  induction ls generalizing c with
  | nil => exact hd
  | cons l ls ih =>
    rw [puts]
    by_cases h : limit ≤ c.offs + l.length
    · rw [if_pos h]
      exact hd
    · rw [if_neg h]
      apply ih
      show (if c.offs + l.length ≤ len then _ else _) = none
      rw [hd]
      exact ite_self none

/-- all pieces are written into a buffer that is large enough -/
theorem puts_blit (ls : List (List UInt8)) {c : Cursor} {d : Nat → UInt8} (hd : c.data = some d)
    (hlen : c.offs + ls.flatten.length ≤ len) (hlim : len < limit) :
    puts limit len ls c =
      (true, ⟨some (blit d c.offs ls.flatten), c.offs + ls.flatten.length⟩) := by
  induction ls generalizing c d with
  | nil =>
    rw [puts, List.flatten_nil, blit_nil, ← hd]
    rfl
  | cons l ls ih =>
    rw [List.flatten_cons, List.length_append] at hlen
    have hadv : (c.advance len l).data = some (blit d c.offs l) := by
      show (if c.offs + l.length ≤ len then _ else _) = _
      rw [if_pos (by omega), hd]
      rfl
    have hoffs : (c.advance len l).offs = c.offs + l.length := rfl
    rw [puts, if_neg (by omega), ih hadv (by rw [hoffs]; omega), hoffs, List.flatten_cons,
      blit_append, List.length_append, Nat.add_assoc]

end

/-! ## records -/

/-- a record: its length and its bytes -/
def record (l : List UInt8) : List (List UInt8) := [be32 l.length, l]

def records (ls : List (List UInt8)) : List (List UInt8) := ls.flatMap record

theorem records_cons (l : List UInt8) (ls : List (List UInt8)) :
    records (l :: ls) = record l ++ records ls := List.flatMap_cons

theorem length_record (l : List UInt8) : (record l).flatten.length = 4 + l.length := by
  rw [record, List.flatten_cons, List.flatten_cons, List.flatten_nil, List.append_nil,
    List.length_append, length_be32]

/-- the buffer holds the records `ls` from `offs` on -/
def Carries (d : Nat → UInt8) : List (List UInt8) → Nat → Prop
  | [], _ => True
  | l :: ls, offs => number (bytesAt d offs 4) = l.length ∧ bytesAt d (offs + 4) l.length = l ∧
      Carries d ls (offs + 4 + l.length)

theorem carries_blit (d : Nat → UInt8) (ls : List (List UInt8)) (offs : Nat)
    (h : ∀ l ∈ ls, l.length < 2 ^ 32) : Carries (blit d offs (records ls).flatten) ls offs := by
  induction ls generalizing d offs with
  | nil => trivial
  | cons l ls ih =>
    have hflat : (records (l :: ls)).flatten = be32 l.length ++ (l ++ (records ls).flatten) := rfl
    have hl := h l List.mem_cons_self
    rw [hflat]
    refine ⟨?_, ?_, ?_⟩
    · have hfield := bytesAt_blit_append d offs (be32 l.length) (l ++ (records ls).flatten)
      rw [length_be32] at hfield
      rw [hfield, number_be32 hl]
    · rw [blit_append]
      exact bytesAt_blit_append _ _ l _
    · rw [blit_append, blit_append]
      exact ih _ _ fun l' hl' => h l' (List.mem_cons_of_mem l hl')

end Lib.Fields
