import MTower.Lib.Fields
import Mathlib.Data.Nat.Digits.Lemmas

/-!
# Numbers without leading zeros

`bigEndian n` are the bytes of a number, the first one not zero.  Written to the start of a field
they fill it when the number has as many bytes as the field, and only then.

* `number_bigEndian`       the bytes are those of the number;
* `bigEndian_length_le`    how many there are;
* `field_iff`              when a field holds the number, whatever it held before.
-/

set_option linter.unusedVariables false

namespace Lib.Fields

variable {d d' : Nat → UInt8} {offs n k : Nat}

def bigEndian (n : Nat) : List UInt8 := ((Nat.digits 256 n).map UInt8.ofNat).reverse

theorem number_reverse (l : List UInt8) : number l.reverse = Nat.ofDigits 256 (l.map UInt8.toNat) := by
  rw [number, List.foldl_reverse]
  induction l with
  | nil => rfl
  | cons b l ih =>
    rw [List.foldr_cons, ih, List.map_cons, Nat.ofDigits_cons, Nat.add_comm]

theorem number_bigEndian (n : Nat) : number (bigEndian n) = n := by
  have hmap : ((Nat.digits 256 n).map UInt8.ofNat).map UInt8.toNat = Nat.digits 256 n := by
    rw [List.map_map]
    refine (List.map_congr_left (g := id) fun d hd => ?_).trans (List.map_id _)
    have hlt : d < 256 := Nat.digits_lt_base (by decide) hd
    show (UInt8.ofNat d).toNat = d
    rw [UInt8.toNat_ofNat']
    omega
  rw [bigEndian, number_reverse, hmap, Nat.ofDigits_digits]

theorem bigEndian_length_le : (bigEndian n).length ≤ k ↔ n < 256 ^ k := by
  rw [bigEndian, List.length_reverse, List.length_map]
  exact Nat.digits_length_le_iff (by decide) n

theorem bytesAt_congr {len : Nat} (h : ∀ i, offs ≤ i → i < offs + len → d' i = d i) :
    bytesAt d' offs len = bytesAt d offs len := by
  refine List.map_congr_left fun i hi => ?_
  have hlt := List.mem_range.mp hi
  exact h _ (by omega) (by omega)

theorem bytesAt_add (d : Nat → UInt8) (offs a b : Nat) :
    bytesAt d offs (a + b) = bytesAt d offs a ++ bytesAt d (offs + a) b := by
  unfold bytesAt
  rw [List.range_add, List.map_append, List.map_map]
  refine congrArg (_ ++ ·) (List.map_congr_left fun i _ => ?_)
  rw [Function.comp, Nat.add_assoc]

/-- a field of `len` bytes at `offs` whose start is written -/
theorem bytesAt_blit {l : List UInt8} {len : Nat} (h : l.length ≤ len) :
    bytesAt (blit d offs l) offs len = l ++ bytesAt d (offs + l.length) (len - l.length) := by
  have hhead := bytesAt_blit_append d offs l []
  rw [List.append_nil] at hhead
  obtain ⟨m, rfl⟩ := Nat.exists_eq_add_of_le h
  rw [bytesAt_add, hhead, Nat.add_sub_cancel_left]
  congr 1
  exact bytesAt_congr fun i hi _ => blit_out (by omega)

/-- **A field holds a number, whatever was there**, when the number has a byte for each of its
places. -/
theorem field_iff {len : Nat} (hlen : 0 < len) (hn : n < 256 ^ len) (offs : Nat) :
    (∀ d d', number (bytesAt (blit d offs (bigEndian n)) offs len) = n ∧
      bytesAt (blit d offs (bigEndian n)) offs len =
        bytesAt (blit d' offs (bigEndian n)) offs len) ↔ 256 ^ (len - 1) ≤ n := by
  have hle := bigEndian_length_le.mpr hn
  constructor
  · intro h
    by_contra hlt
    have hshort := bigEndian_length_le.mpr (Nat.not_le.mp hlt)
    -- the last byte is not written
    have heq := (h (fun _ => 0) fun _ => 1).2
    rw [bytesAt_blit hle, bytesAt_blit hle] at heq
    have hrest := List.append_cancel_left heq
    obtain ⟨m, hm⟩ : ∃ m, len - (bigEndian n).length = m + 1 := ⟨len - (bigEndian n).length - 1, by omega⟩
    rw [hm] at hrest
    have hhead := congrArg List.head? hrest
    simp [bytesAt, List.range_succ_eq_map] at hhead
  · intro h d d'
    have hfull : (bigEndian n).length = len := by
      apply le_antisymm hle
      by_contra hlt
      have hsmall := bigEndian_length_le.mp (show (bigEndian n).length ≤ len - 1 by omega)
      omega
    rw [bytesAt_blit hle, bytesAt_blit hle, hfull, Nat.sub_self]
    simp [bytesAt, number_bigEndian]

end Lib.Fields
