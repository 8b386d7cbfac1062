import MTower.Lib.Fields
import Mathlib.Data.List.Induction
import Mathlib.Data.Vector.Basic

/-!
# The transaction buffer

`tx.c` serializes a transaction into a buffer that doubles when a string does not fit.  The memory
behind `data` is a function of the offset; `alloc` is the size of the allocation, and `written`
keeps the range of the last `memcpy`.

* `reserveSpace`, `serializeBytestr`  the two functions, `run` a sequence of strings;
* `sound_step`       one string keeps the buffer sound when it fits after one doubling;
* `serialize_iff`    when a sequence of strings keeps it sound;
* `serializeTx_sound`  every transaction does.
-/

set_option linter.unusedVariables false

namespace MTower.Wallet
open Lib.Fields

def txbufInitSize : Nat := 64

/-- `struct serbuf_t` and the memory behind `data` -/
structure TxBuf where
  next : Nat
  size : Nat
  alloc : Nat
  data : Nat → UInt8
  written : Nat × Nat

/-- `junk` is what an allocation of the given size holds -/
def newTxbuf (junk : Nat → Nat → UInt8) : TxBuf :=
  ⟨0, txbufInitSize, txbufInitSize, junk txbufInitSize, (0, 0)⟩

/-- `realloc` to `n` bytes, that succeeds -/
def TxBuf.realloc (b : TxBuf) (junk : Nat → Nat → UInt8) (n : Nat) : TxBuf :=
  { b with alloc := n, data := fun i => if i < min b.alloc n then b.data i else junk n i }

def reserveSpace (junk : Nat → Nat → UInt8) (b : TxBuf) (bytes : Nat) : TxBuf :=
  if (b.next + bytes) % 2 ^ 32 > b.size then
    { b.realloc junk (b.size * 2 % 2 ^ 32) with size := b.size * 2 % 2 ^ 32 }
  else b

def serializeBytestr (junk : Nat → Nat → UInt8) (x : List UInt8) (b : TxBuf) : TxBuf :=
  let b := reserveSpace junk b x.length
  { b with data := blit b.data b.next x, written := (b.next, x.length),
           next := (b.next + x.length) % 2 ^ 32 }

/-- strings one after the other, into a new buffer -/
def run (junk : Nat → Nat → UInt8) (xs : List (List UInt8)) : TxBuf :=
  xs.foldl (fun b x => serializeBytestr junk x b) (newTxbuf junk)

theorem run_concat (junk : Nat → Nat → UInt8) (xs : List (List UInt8)) (x : List UInt8) :
    run junk (xs ++ [x]) = serializeBytestr junk x (run junk xs) := by
  rw [run, List.foldl_append]
  rfl

/-! ## what a sound buffer is -/

/-- the buffer holds the bytes `l` and nothing was written outside the allocation -/
structure Sound (l : List UInt8) (b : TxBuf) : Prop where
  next_le : b.next ≤ b.size
  alloc : b.alloc = b.size
  next : b.next = l.length
  data : bytesAt b.data 0 b.next = l
  inside : b.written.1 + b.written.2 ≤ b.size

variable {junk : Nat → Nat → UInt8} {b : TxBuf} {l x : List UInt8} {xs : List (List UInt8)}

theorem sound_new (junk : Nat → Nat → UInt8) : Sound [] (newTxbuf junk) where
  next_le := Nat.zero_le _
  alloc := rfl
  next := rfl
  data := rfl
  inside := Nat.zero_le _

theorem bytesAt_congr {d d' : Nat → UInt8} {n : Nat} (h : ∀ i < n, d i = d' i) :
    bytesAt d 0 n = bytesAt d' 0 n := by
  apply List.map_congr_left
  intro i hi
  rw [Nat.zero_add]
  exact h i (List.mem_range.mp hi)

theorem bytesAt_blit_end (d : Nat → UInt8) (n : Nat) (x : List UInt8) :
    bytesAt (blit d n x) 0 (n + x.length) = bytesAt d 0 n ++ x := by
  apply List.ext_getElem
  · rw [length_bytesAt, List.length_append, length_bytesAt]
  · intro i hi hi'
    rw [length_bytesAt] at hi
    by_cases hn : i < n
    · rw [List.getElem_append_left (by rw [length_bytesAt]; exact hn)]
      simp only [bytesAt, List.getElem_map, List.getElem_range, Nat.zero_add]
      exact blit_out (Or.inl hn)
    · rw [List.getElem_append_right (by rw [length_bytesAt]; omega)]
      simp only [bytesAt, List.getElem_map, List.getElem_range, Nat.zero_add, List.length_map,
        List.length_range]
      have hx : i - n < x.length := by omega
      rw [blit, if_pos ⟨by omega, hi⟩, List.getD_eq_getElem _ _ hx]

/-- the size after a call, when no sum wraps -/
theorem reserveSpace_eq (hs : Sound l b) (hlen : l.length + x.length < 2 ^ 31) :
    reserveSpace junk b x.length = if b.next + x.length > b.size then
      { b.realloc junk (b.size * 2) with size := b.size * 2 } else b := by
  have hn := hs.next
  rw [reserveSpace, Nat.mod_eq_of_lt (by omega : b.next + x.length < 2 ^ 32)]
  by_cases h : b.next + x.length > b.size
  · rw [if_pos h, if_pos h, Nat.mod_eq_of_lt (by omega : b.size * 2 < 2 ^ 32)]
  · rw [if_neg h, if_neg h]

/-- growing keeps what is there -/
theorem Sound.grow (hs : Sound l b) (junk : Nat → Nat → UInt8) :
    Sound l { b.realloc junk (b.size * 2) with size := b.size * 2 } := by
  have hle := hs.next_le
  refine ⟨by show b.next ≤ b.size * 2; omega, rfl, hs.next, ?_, ?_⟩
  · rw [← hs.data]
    apply bytesAt_congr
    intro i hi
    have hi' : i < min b.alloc (b.size * 2) := by
      have : i < b.next := hi
      rw [hs.alloc]
      omega
    exact if_pos hi'
  · have := hs.inside
    show b.written.1 + b.written.2 ≤ b.size * 2
    omega

/-- writing at the end, where there is room -/
theorem Sound.write (hs : Sound l b) (hroom : b.next + x.length ≤ b.size) :
    Sound (l ++ x) { b with data := blit b.data b.next x, written := (b.next, x.length),
                            next := b.next + x.length } where
  next_le := hroom
  alloc := hs.alloc
  next := by
    show b.next + x.length = (l ++ x).length
    rw [List.length_append, hs.next]
  data := by
    show bytesAt (blit b.data b.next x) 0 (b.next + x.length) = l ++ x
    rw [bytesAt_blit_end, hs.data]
  inside := hroom

/-- the string fits, after one doubling at most -/
def FitsAfterDoubling (b : TxBuf) (x : List UInt8) : Prop := b.next + x.length ≤ 2 * b.size

/-- **One string.** -/
theorem sound_step (hs : Sound l b) (hlen : l.length + x.length < 2 ^ 31) :
    Sound (l ++ x) (serializeBytestr junk x b) ↔ FitsAfterDoubling b x := by
  have hn := hs.next
  unfold serializeBytestr FitsAfterDoubling
  rw [reserveSpace_eq hs hlen]
  by_cases h : b.next + x.length > b.size
  · have hnext : ({ b.realloc junk (b.size * 2) with size := b.size * 2 } : TxBuf).next = b.next :=
      rfl
    rw [if_pos h]
    dsimp only
    rw [hnext, Nat.mod_eq_of_lt (by omega : b.next + x.length < 2 ^ 32)]
    constructor
    · intro hs'
      have := hs'.next_le
      dsimp only at this
      omega
    · intro hfit
      refine (hs.grow junk).write ?_
      show b.next + x.length ≤ b.size * 2
      omega
  · rw [if_neg h]
    dsimp only
    rw [Nat.mod_eq_of_lt (by omega : b.next + x.length < 2 ^ 32)]
    have hroom : b.next + x.length ≤ b.size := by omega
    exact ⟨fun _ => by omega, fun _ => hs.write hroom⟩

/-! ## every sequence -/

/-- after each of the strings the buffer is sound -/
def SoundRun (junk : Nat → Nat → UInt8) (xs : List (List UInt8)) : Prop :=
  ∀ ys, ys <+: xs → Sound ys.flatten (run junk ys)

/-- each of the strings fits after one doubling at most -/
def FitsRun (junk : Nat → Nat → UInt8) (xs : List (List UInt8)) : Prop :=
  ∀ ys x, ys ++ [x] <+: xs → FitsAfterDoubling (run junk ys) x

theorem soundRun_concat : SoundRun junk (xs ++ [x]) ↔
    SoundRun junk xs ∧ Sound (xs ++ [x]).flatten (run junk (xs ++ [x])) := by
  constructor
  · intro h
    exact ⟨fun ys hys => h ys (hys.trans (List.prefix_append _ _)), h _ (List.prefix_refl _)⟩
  · rintro ⟨h, hlast⟩ ys hys
    rcases List.prefix_concat_iff.mp hys with rfl | hys
    · exact hlast
    · exact h ys hys

theorem fitsRun_concat : FitsRun junk (xs ++ [x]) ↔
    FitsRun junk xs ∧ FitsAfterDoubling (run junk xs) x := by
  constructor
  · intro h
    exact ⟨fun ys y hys => h ys y (hys.trans (List.prefix_append _ _)), h _ _ (List.prefix_refl _)⟩
  · rintro ⟨h, hlast⟩ ys y hys
    rcases List.prefix_concat_iff.mp hys with he | hys
    · obtain ⟨rfl, hxy⟩ := List.append_inj' he rfl
      obtain rfl := List.singleton_inj.mp hxy
      exact hlast
    · exact h ys y hys

/-- **When a sequence of strings keeps the buffer sound**: exactly when each of them fits after
one doubling at most. -/
theorem serialize_iff (junk : Nat → Nat → UInt8) (xs : List (List UInt8))
    (hlen : xs.flatten.length < 2 ^ 31) : SoundRun junk xs ↔ FitsRun junk xs := by
  induction xs using List.reverseRecOn with
  | nil =>
    constructor
    · intro _ ys x h
      exact absurd (List.prefix_nil.mp h) (by simp)
    · intro _ ys h
      rw [List.prefix_nil.mp h]
      exact sound_new junk
  | append_singleton xs x ih =>
    have hflat : (xs ++ [x]).flatten = xs.flatten ++ x := by
      rw [List.flatten_append, List.flatten_singleton]
    rw [hflat, List.length_append] at hlen
    rw [soundRun_concat, fitsRun_concat, ← ih (by omega), hflat, run_concat]
    apply and_congr_right
    intro hxs
    exact sound_step (hxs xs (List.prefix_refl _)) hlen

/-- two strings, the second one needs one doubling -/
theorem serialize_iff_two :
    SoundRun (fun _ _ => 0) [List.replicate 40 1, List.replicate 40 2] ↔
      FitsRun (fun _ _ => 0) [List.replicate 40 1, List.replicate 40 2] :=
  serialize_iff (fun _ _ => 0) _ (by simp)

/-- one string of 129 bytes into a new buffer -/
theorem serialize_fails : ¬ ∀ (junk : Nat → Nat → UInt8) (xs : List (List UInt8)),
    xs.flatten.length < 2 ^ 31 → SoundRun junk xs := by
  intro h
  have hs := h (fun _ _ => 0) [List.replicate 129 1] (by simp) _ (List.prefix_refl _)
  have hle := hs.next_le
  simp [run, serializeBytestr, reserveSpace, newTxbuf, TxBuf.realloc, txbufInitSize] at hle

/-! ## transactions -/

theorem size_le_run (hs : SoundRun junk xs) (hlen : xs.flatten.length < 2 ^ 31) :
    txbufInitSize ≤ (run junk xs).size := by
  induction xs using List.reverseRecOn with
  | nil => exact le_refl _
  | append_singleton xs x ih =>
    have hflat : (xs ++ [x]).flatten = xs.flatten ++ x := by
      rw [List.flatten_append, List.flatten_singleton]
    rw [hflat, List.length_append] at hlen
    obtain ⟨hxs, -⟩ := soundRun_concat.mp hs
    have hle := ih hxs (by omega)
    rw [run_concat, serializeBytestr, reserveSpace_eq (hxs xs (List.prefix_refl _)) hlen]
    dsimp only
    split
    · show _ ≤ (run junk xs).size * 2
      omega
    · exact hle

/-- **Short strings always fit.** -/
theorem soundRun_short (hshort : ∀ x ∈ xs, x.length ≤ txbufInitSize)
    (hlen : xs.flatten.length < 2 ^ 31) : SoundRun junk xs := by
  induction xs using List.reverseRecOn with
  | nil => exact (serialize_iff junk [] hlen).mpr fun ys x h => absurd (List.prefix_nil.mp h) (by simp)
  | append_singleton xs x ih =>
    have hflat : (xs ++ [x]).flatten = xs.flatten ++ x := by
      rw [List.flatten_append, List.flatten_singleton]
    have hlen' := hlen
    rw [hflat, List.length_append] at hlen'
    have hxs := ih (fun y hy => hshort y (List.mem_append_left _ hy)) (by omega)
    have hle := size_le_run hxs (by omega)
    have hnext := (hxs xs (List.prefix_refl _)).next_le
    have hx := hshort x (List.mem_append_right _ (List.mem_singleton_self x))
    rw [serialize_iff junk _ hlen, fitsRun_concat]
    refine ⟨(serialize_iff junk xs (by omega)).mp hxs, ?_⟩
    unfold FitsAfterDoubling
    omega

/-- `struct intx_t` -/
structure Intx where
  prvhash : List.Vector UInt8 32
  prvindexl : List.Vector UInt8 4
  scrlen : UInt8
  scrsig : List.Vector UInt8 25
  sequence : List.Vector UInt8 4

/-- `struct outtx_t` -/
structure Outtx where
  value : List.Vector UInt8 8
  scrlen : UInt8
  scrpubkey : List.Vector UInt8 25

/-- `struct tx_t` -/
structure Tx where
  version : List.Vector UInt8 4
  incount : UInt8
  inputtx : Intx
  outcount : UInt8
  outputtx : Outtx
  lock : List.Vector UInt8 4

def serializeIntx (t : Intx) : List (List UInt8) :=
  [t.prvhash.val, t.prvindexl.val, [t.scrlen], t.scrsig.val, t.sequence.val]

def serializeOuttx (t : Outtx) : List (List UInt8) := [t.value.val, [t.scrlen], t.scrpubkey.val]

/-- the strings of `serialize_tx`, in order -/
def serializeTx (t : Tx) : List (List UInt8) :=
  [t.version.val, [t.incount]] ++ serializeIntx t.inputtx ++ [[t.outcount]]
    ++ serializeOuttx t.outputtx ++ [t.lock.val]

/-- **A transaction is serialized whole.** -/
theorem serializeTx_sound (junk : Nat → Nat → UInt8) (t : Tx) :
    Sound (serializeTx t).flatten (run junk (serializeTx t)) := by
  refine soundRun_short ?_ ?_ _ (List.prefix_refl _)
  · intro x hx
    simp only [serializeTx, serializeIntx, serializeOuttx, List.mem_append, List.mem_cons,
      List.not_mem_nil, or_false] at hx
    unfold txbufInitSize
    rcases hx with ((((rfl | rfl) | rfl | rfl | rfl | rfl | rfl) | rfl) | rfl | rfl | rfl) | rfl <;>
      simp
  · simp [serializeTx, serializeIntx, serializeOuttx]

end MTower.Wallet
