import MTower.Lib.Memory

/-!
# Rows of bytes in memory

* `bytes`, `write`    a row of bytes is read, or written;
* `bytes_append`      rows one behind the other;
* `bytes_write_part`, `bytes_write_apart`   what is read after a write.
-/

set_option linter.unusedVariables false

namespace Lib.Mem

section
variable {m : Mem} {a c n k i x : Nat} {l : List UInt8}

/-- `n` bytes at `a` -/
def bytes (m : Mem) (a n : Nat) : List UInt8 := (List.range n).map fun i => m (a + i)

def write (m : Mem) (a : Nat) (l : List UInt8) : Mem :=
  fun x => if a ≤ x then l.getD (x - a) (m x) else m x

@[simp] theorem length_bytes (m : Mem) (a n : Nat) : (m.bytes a n).length = n := by
  rw [bytes, List.length_map, List.length_range]

theorem getElem_bytes (h : i < (m.bytes a n).length) : (m.bytes a n)[i] = m (a + i) := by
  simp only [bytes, List.getElem_map, List.getElem_range]

theorem bytes_append (m : Mem) (a n k : Nat) :
    m.bytes a (n + k) = m.bytes a n ++ m.bytes (a + n) k := by
  simp only [bytes, List.range_add, List.map_append, List.map_map]
  congr 1
  apply List.map_congr_left
  intro i _
  rw [Function.comp_apply, Nat.add_assoc]

theorem write_out (h : ¬ (Range.mk a l.length).Has x) : m.write a l x = m x := by
  unfold write
  split
  · next hle =>
    have hx : l.length ≤ x - a := by
      rw [Range.has_mk] at h
      omega
    rw [List.getD_eq_default _ _ hx]
  · rfl

theorem write_in (h : i < l.length) : m.write a l (a + i) = l[i] := by
  unfold write
  rw [if_pos (Nat.le_add_right a i), Nat.add_sub_cancel_left, List.getD_eq_getElem _ _ h]

/-- part of what was written is read -/
theorem bytes_write_part (h : i + n ≤ l.length) :
    (m.write a l).bytes (a + i) n = (l.drop i).take n := by
  apply List.ext_getElem
  · rw [length_bytes, List.length_take, List.length_drop]
    omega
  · intro j h1 h2
    rw [length_bytes] at h1
    rw [getElem_bytes, Nat.add_assoc, write_in (by omega), List.getElem_take, List.getElem_drop]

/-- something else is read -/
theorem bytes_write_apart (h : a + l.length ≤ c ∨ c + n ≤ a) :
    (m.write a l).bytes c n = m.bytes c n := by
  apply List.map_congr_left
  intro j hj
  rw [List.mem_range] at hj
  apply write_out
  rw [Range.has_mk]
  omega

end

end Lib.Mem
