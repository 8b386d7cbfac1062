import MTower.Oper.Buffer

/-!
# An input in chunks

However the input of an operation is cut into chunks, `tee_buffer_update` feeds its bytes in order
and holds the last ones back.

* `Operation.fedLength_two`  what a call feeds with two blocks;
* `chunk_spec`               one chunk;
* `conserved_run`            any chunks, for a block size that is a power of two;
* `conserved_fails`          another block size.
-/

set_option linter.unusedVariables false

namespace MTower.Oper
open Lib Kernel Cryp

variable {s t : Sys} {h k n : Nat} {o : Operation} {held : List UInt8}

/-! ## what a call feeds -/

theorem Operation.fedAligned_le (hb : o.Blocks) (hd : o.blockSize ∣ o.bufferOffs)
    (hfit : o.bufferOffs + n < 2 ^ 32) :
    o.fedAligned n ≤ o.bufferOffs + n ∧ o.blockSize ∣ o.fedAligned n := by
  obtain ⟨h1, h2, -⟩ := hb.fromBuffer hd hfit
  obtain ⟨h3, h4, -⟩ := hb.fromSource (n := n) (by omega)
  unfold Operation.fedAligned
  split
  · exact ⟨by omega, h2⟩
  · exact ⟨by omega, Nat.dvd_add h2 h4⟩

/-- complete blocks are fed -/
theorem Operation.fedLength_le (hb : o.Blocks) (hfit : o.bufferOffs + n < 2 ^ 32) :
    o.fedLength n ≤ o.bufferOffs + n ∧ o.blockSize ∣ o.fedLength n := by
  have htop := o.topUp_le n
  unfold Operation.fedLength
  dsimp only
  by_cases hm : (o.bufferOffs + o.topUp n) % o.blockSize ≠ 0
  · rw [if_pos hm]
    exact ⟨Nat.zero_le _, Nat.dvd_zero _⟩
  · rw [if_neg hm]
    have hb1 : ({ o with bufferOffs := o.bufferOffs + o.topUp n } : Operation).Blocks :=
      ⟨hb.pow, hb.two, hb.fits⟩
    obtain ⟨h1, h2⟩ := Operation.fedAligned_le (n := n - o.topUp n) hb1
      (Nat.dvd_of_mod_eq_zero (not_not.mp hm))
      (show o.bufferOffs + o.topUp n + (n - o.topUp n) < 2 ^ 32 by omega)
    refine ⟨?_, h2⟩
    have h1' : _ ≤ o.bufferOffs + o.topUp n + (n - o.topUp n) := h1
    omega

/-- what is fed of `total` bytes with two blocks: between one and two blocks are held back, and
`kept` says when it is two of them though a block more could go -/
structure FedTwo (b total fed : Nat) (cts kept : Prop) : Prop where
  none : total ≤ 2 * b → fed = 0
  dvd : b ∣ fed
  ge : total ≤ fed + 2 * b
  le : 2 * b < total → fed + b ≤ total
  lt : 2 * b < total → cts → fed + b < total
  exact : ¬ cts → 2 * b < total → b ∣ total → (fed + 2 * b = total ↔ kept)

theorem Operation.two_size (h2 : o.bufferTwoBlocks = true) :
    o.bufferSize = 2 * o.blockSize ∧ o.bufferLeft = 1 := by
  unfold Operation.bufferSize Operation.bufferLeft
  rw [if_pos h2, if_pos h2, Nat.mul_comm]
  exact ⟨rfl, rfl⟩

theorem Operation.fromSource_two (hb : o.Blocks) (h2 : o.bufferTwoBlocks = true)
    (hfit : n < 2 ^ 32) :
    FedTwo o.blockSize n (o.fromSource n) (o.info.algorithm = teeAlgAesCts) False := by
  obtain ⟨hS, hL⟩ := Operation.two_size h2
  have htwo := hb.two
  unfold Operation.fromSource
  rw [hS, hL]
  by_cases hc : n < 2 * o.blockSize + 1
  · rw [if_pos hc]
    exact ⟨fun _ => rfl, Nat.dvd_zero _, by omega, by omega, by omega, by omega⟩
  rw [if_neg hc]
  by_cases hcts : o.info.algorithm = teeAlgAesCts
  · have hceil := hb.isCeil (v := n - 2 * o.blockSize) (by omega)
    have h3 := hceil.le
    have h4 := hceil.lt
    rw [if_pos hcts]
    exact ⟨by omega, hceil.dvd, by omega, by omega, by omega, fun h => absurd hcts h⟩
  · have hceil := hb.isCeil (v := n - 2 * o.blockSize + 1) (by omega)
    have h3 := hceil.le
    have h4 := hceil.lt
    rw [if_neg hcts]
    refine ⟨by omega, hceil.dvd, by omega, by omega, ?_, ?_⟩
    · exact fun _ h => absurd h hcts
    · intro _ _ _
      constructor
      · intro h
        omega
      · exact False.elim

/-- one or two blocks of the buffer, and then the source -/
theorem FedTwo.behind {b rest fed : Nat} {cts : Prop} (hf : FedTwo b rest fed cts False)
    (hb : 0 < b) {j : Nat} (hj : j = b ∨ j = 2 * b) (ht : b < rest) :
    FedTwo b (j + rest) (j + fed) cts (rest = 2 * b) := by
  obtain ⟨h1, h2, h3, h4, h5, h6⟩ := hf
  have hd : b ∣ j := by
    rcases hj with rfl | rfl
    · exact Nat.dvd_refl _
    · exact Nat.dvd_mul_left b 2
  refine ⟨by omega, Nat.dvd_add hd h2, by omega, by omega, ?_, ?_⟩
  · intro _ hcts
    by_cases hlt : 2 * b < rest
    · have := h5 hlt hcts
      omega
    · omega
  · intro hcts _ hdvd
    by_cases hlt : 2 * b < rest
    · have hne : ¬ fed + 2 * b = rest := (h6 hcts hlt ((Nat.dvd_add_right hd).mp hdvd)).mp
      omega
    · omega

/-- another way to say when two blocks are held back -/
theorem FedTwo.kept_iff {b total fed : Nat} {cts kept kept' : Prop} (hf : FedTwo b total fed cts kept)
    (hk : 2 * b < total → b ∣ total → (kept ↔ kept')) : FedTwo b total fed cts kept' :=
  { hf with exact := fun hcts ht hd => (hf.exact hcts ht hd).trans (hk ht hd) }

theorem Operation.fedAligned_two (hb : o.Blocks) (h2 : o.bufferTwoBlocks = true)
    (hd : o.bufferOffs = 0 ∨ o.bufferOffs = o.blockSize ∨ o.bufferOffs = 2 * o.blockSize)
    (hfit : o.bufferOffs + n < 2 ^ 32) :
    FedTwo o.blockSize (o.bufferOffs + n) (o.fedAligned n) (o.info.algorithm = teeAlgAesCts)
      (o.bufferOffs = o.blockSize ∧ o.bufferOffs + n = 3 * o.blockSize ∨
        o.bufferOffs = 2 * o.blockSize ∧
          (o.bufferOffs + n = 3 * o.blockSize ∨ o.bufferOffs + n = 4 * o.blockSize)) := by
  obtain ⟨hS, hL⟩ := Operation.two_size h2
  have htwo := hb.two
  unfold Operation.fedAligned
  by_cases hc : o.bufferOffs = 0 ∨ o.bufferOffs + n < o.bufferSize + o.bufferLeft
  · have hzero : o.fromBuffer n = 0 := if_pos hc
    rw [hzero]
    by_cases h0 : o.bufferOffs = 0
    · rw [if_neg (by omega), Nat.zero_add, h0, Nat.zero_add]
      refine (Operation.fromSource_two (n := n) hb h2 (by omega)).kept_iff fun _ _ => ?_
      constructor
      · exact False.elim
      · intro h
        omega
    · rw [if_pos (by omega)]
      exact ⟨fun _ => rfl, Nat.dvd_zero _, by omega, by omega, by omega, by omega⟩
  · have hceil := hb.isCeil (v := o.bufferOffs + n - 2 * o.blockSize) (by omega)
    have hfrom : o.fromBuffer n = min o.bufferOffs
        (roundUp (o.bufferOffs + n - 2 * o.blockSize) o.blockSize) := by
      unfold Operation.fromBuffer
      rw [if_neg hc, hS]
    rw [hfrom]
    have h3 := hceil.le
    have h4 := hceil.lt
    have h5 := next_multiple (k := 0) hceil.dvd (by omega)
    rcases hd with h0 | h1 | h1
    · exact absurd (.inl h0) hc
    · rw [h1] at h3 h4 h5 ⊢
      rw [Nat.min_eq_left (by omega), if_neg (by omega)]
      have hrest := Operation.fromSource_two (n := n) hb h2 (by omega)
      refine FedTwo.kept_iff (hrest.behind (by omega) (.inl rfl) (by omega)) fun _ _ => ?_
      omega
    · rw [h1] at h3 h4 h5 ⊢
      by_cases hone : n ≤ o.blockSize
      · -- one block of the buffer goes
        have hle := (hceil.le_iff (Nat.dvd_refl o.blockSize)).mpr (by omega)
        rw [h1] at hle
        rw [show min (2 * o.blockSize) (roundUp (2 * o.blockSize + n - 2 * o.blockSize) o.blockSize)
          = o.blockSize by omega, if_pos (by omega)]
        exact ⟨by omega, Nat.dvd_refl _, by omega, by omega, by omega, by omega⟩
      · have hge := next_multiple (k := 1) hceil.dvd (by rw [h1]; omega)
        rw [h1] at hge
        rw [Nat.min_eq_left (by omega), if_neg (by omega)]
        have hrest := Operation.fromSource_two (n := n) hb h2 (by omega)
        refine FedTwo.kept_iff (hrest.behind (by omega) (.inr rfl) (by omega)) fun _ _ => ?_
        omega

/-- **What a call feeds with two blocks.** -/
theorem Operation.fedLength_two (hb : o.Blocks) (h2 : o.bufferTwoBlocks = true)
    (hle : o.bufferOffs ≤ o.bufferSize) (hfit : o.bufferOffs + n < 2 ^ 32) :
    FedTwo o.blockSize (o.bufferOffs + n) (o.fedLength n) (o.info.algorithm = teeAlgAesCts)
      (0 < o.bufferOffs ∧ o.bufferOffs + n = 3 * o.blockSize ∨
        o.blockSize ≤ o.bufferOffs ∧ o.bufferOffs + n = 4 * o.blockSize) := by
  obtain ⟨hS, -⟩ := Operation.two_size h2
  have htwo := hb.two
  have htop := o.topUp_le n
  have hfull : o.topUp n = if o.bufferOffs = 0 then 0
      else if o.bufferOffs < o.blockSize then min n (o.blockSize - o.bufferOffs)
      else min n (2 * o.blockSize - o.bufferOffs) := by
    rw [← hS]
    rfl
  unfold Operation.fedLength
  dsimp only
  have hshort := Operation.topUp_eq (n := n) hle
  generalize o.topUp n = l at htop hfull hshort ⊢
  have hq : o.bufferOffs + l ≤ 2 * o.blockSize := by
    rw [hfull]
    split_ifs <;> omega
  by_cases hm : (o.bufferOffs + l) % o.blockSize ≠ 0
  · have htn := hshort hm
    rw [if_pos hm]
    exact ⟨fun _ => rfl, Nat.dvd_zero _, by omega, by omega, by omega, by omega⟩
  · have hdvd := Nat.dvd_of_mod_eq_zero (not_not.mp hm)
    have h0 := next_multiple (k := 0) hdvd
    have h1 := next_multiple (k := 1) hdvd
    have hb1 : ({ o with bufferOffs := o.bufferOffs + l } : Operation).Blocks :=
      ⟨hb.pow, hb.two, hb.fits⟩
    have hall : o.bufferOffs + l + (n - l) = o.bufferOffs + n := by omega
    have hfed := Operation.fedAligned_two (n := n - l) hb1 h2
      (show o.bufferOffs + l = 0 ∨ o.bufferOffs + l = o.blockSize ∨
        o.bufferOffs + l = 2 * o.blockSize by omega)
      (show o.bufferOffs + l + (n - l) < 2 ^ 32 by omega)
    rw [if_neg hm]
    dsimp only at hfed
    rw [hall] at hfed
    refine hfed.kept_iff fun _ _ => ?_
    rw [hfull]
    show _ ↔ _
    split_ifs <;> omega

/-! ## chunks -/

/-- an input of `tee_buffer_update`, in one address space of 32 bits with a buffer of `size` bytes -/
structure Chunk (size : Nat) where
  data : Nat → UInt8
  length : Nat
  room : Nat
  fits : size + length < 2 ^ 32

def Chunk.bytes {size : Nat} (ch : Chunk size) : List UInt8 := Ptr.bytes (some ch.data) 0 ch.length

/-- an `update_func` that succeeds and reports as many bytes as it was given -/
def succeeding (effect : Nat → List UInt8 → Nat → Utc → Utc) : UpdateFunc := fun st d n => do
  modify fun s => { s with utc := effect st d n s.utc, log := .feed st d :: s.log }
  pure (teeSuccess, d.length)

/-- one call of `tee_buffer_update` for each chunk -/
def updates {size : Nat} (update : UpdateFunc) (h : Nat) : List (Chunk size) → O Unit
  | [] => pure ()
  | ch :: l => do
    let _ ← teeBufferUpdate update h (some ch.data) ch.length ch.room
    updates update h l

/-- with two blocks, what is held back of `n` bytes -/
def Operation.Retains (o : Operation) (n : Nat) (held : List UInt8) : Prop :=
  o.bufferTwoBlocks = true →
    (n ≤ 2 * o.blockSize → held.length = n) ∧
    (2 * o.blockSize < n → o.blockSize ≤ held.length ∧
      (o.info.algorithm = teeAlgAesCts → o.blockSize < held.length))

/-- after the chunks the bytes that were fed, in complete blocks, and the ones in the buffer are the
input; a copy out of the buffer would have stopped the run -/
def Conserved (effect : Nat → List UInt8 → Nat → Utc → Utc) (h : Nat) (o : Operation) (s : Sys)
    (chunks : List (Chunk o.bufferSize)) : Prop :=
  wp (updates (succeeding effect) h chunks) (fun _ t => ∃ out held,
    fed t.log = fed s.log ++ out ∧ Holds h { o with bufferOffs := held.length } held t ∧
    Passes o.blockSize o.bufferSize [] (chunks.flatMap Chunk.bytes) out held ∧
    o.Retains (chunks.flatMap Chunk.bytes).length held) s

theorem takes_succeeding (effect : Nat → List UInt8 → Nat → Utc → Utc) (st b : Nat) :
    Takes (fun _ => False) (succeeding effect) (fun _ => True) st b fun _ _ => True where
  ok s d n _ _ _ := ⟨rfl, rfl, trivial, .inl rfl⟩

theorem Operation.Retains.step {rest chunk : List UInt8} {out : List (List UInt8)}
    (hk : o.Retains n held)
    (hp : Passes o.blockSize o.bufferSize held chunk out rest)
    (hf : o.bufferTwoBlocks = true → ∃ kept, FedTwo o.blockSize (held.length + chunk.length)
      out.flatten.length (o.info.algorithm = teeAlgAesCts) kept) :
    o.Retains (n + chunk.length) rest := by
  intro h2
  obtain ⟨h3, h4⟩ := hk h2
  have hlen := hp.length
  obtain ⟨-, h5, -, -, h6, h7, -⟩ := hf h2
  have hT : 2 * o.blockSize < n + chunk.length → o.blockSize ≤ rest.length ∧
      (o.info.algorithm = teeAlgAesCts → o.blockSize < rest.length) := by
    intro hn
    by_cases hlt : 2 * o.blockSize < held.length + chunk.length
    · have := h6 hlt
      refine ⟨by omega, fun hcts => ?_⟩
      have := h7 hlt hcts
      omega
    · -- nothing is fed, and enough was held back before
      have := h5 (by omega)
      obtain ⟨h8, h9⟩ := h4 (by omega)
      refine ⟨by omega, fun hcts => ?_⟩
      have := h9 hcts
      omega
  refine ⟨fun hn => ?_, hT⟩
  have := h3 (by omega)
  have := h5 (by omega)
  omega

/-- **One chunk.** -/
theorem chunk_spec {effect : Nat → List UInt8 → Nat → Utc → Utc} (hb : o.Blocks)
    (hs : Holds h { o with bufferOffs := held.length } held s) (hr : o.Retains n held)
    (ch : Chunk o.bufferSize) :
    wp (teeBufferUpdate (succeeding effect) h (some ch.data) ch.length ch.room) (fun _ t =>
      ∃ out rest, fed t.log = fed s.log ++ out ∧
        Holds h { o with bufferOffs := rest.length } rest t ∧
        Passes o.blockSize o.bufferSize held ch.bytes out rest ∧
        o.Retains (n + ch.bytes.length) rest) s := by
  have hle : held.length ≤ o.bufferSize := hs.le
  have hlen : ch.bytes.length = ch.length := bytes_length ch.data 0 ch.length
  have hfit := ch.fits
  have hb1 : ({ o with bufferOffs := held.length } : Operation).Blocks :=
    ⟨hb.pow, hb.two, hb.fits⟩
  have hfit1 : held.length + ch.length < 2 ^ 32 := by omega
  have hfed := Operation.fedLength_le (n := ch.length) hb1 hfit1
  refine wp_mono (teeBufferUpdate_spec (f := ch.data) hb1 hs hfit1
    (takes_succeeding effect o.state o.blockSize) trivial fun _ _ _ => trivial) ?_
  rintro r t ⟨-, hg, ht⟩
  obtain ⟨out, hout, hflat, hblocks⟩ := hg.out
  have hoffs := ht.offs
  dsimp only at hoffs
  rw [hoffs] at ht
  have hp : Passes o.blockSize o.bufferSize held ch.bytes out _ :=
    ⟨by rw [hflat]; exact List.take_append_drop _ _, hblocks, ht.le⟩
  refine ⟨out, _, hout, ht, hp, hr.step hp fun h2 => ?_⟩
  rw [hflat, List.length_take, List.length_append]
  rw [show (Ptr.bytes (some ch.data) 0 ch.length).length = ch.length from hlen,
    Nat.min_eq_left hfed.1, hlen]
  exact ⟨_, Operation.fedLength_two hb1 h2 hle hfit1⟩

/-- chunks after others -/
theorem updates_spec {effect : Nat → List UInt8 → Nat → Utc → Utc} {chunks : List (Chunk o.bufferSize)}
    (hp : ∃ k, o.blockSize = 2 ^ k) (hb : 2 ≤ o.blockSize)
    (hs : Holds h { o with bufferOffs := held.length } held s) (hr : o.Retains n held) :
    wp (updates (succeeding effect) h chunks) (fun _ t => ∃ out rest,
      fed t.log = fed s.log ++ out ∧ Holds h { o with bufferOffs := rest.length } rest t ∧
      Passes o.blockSize o.bufferSize held (chunks.flatMap Chunk.bytes) out rest ∧
      o.Retains (n + (chunks.flatMap Chunk.bytes).length) rest) s := by
  induction chunks generalizing s held n with
  | nil => exact ⟨[], held, (List.append_nil _).symm, hs, Passes.nil hs.le, hr⟩
  | cons ch l ih =>
    have hfits : o.bufferSize < 2 ^ 32 := by
      have := ch.fits
      omega
    rw [updates, wp_bind]
    refine wp_mono (chunk_spec ⟨hp, hb, hfits⟩ hs hr ch) ?_
    rintro _ t ⟨out, rest, hout, ht, hpass, hret⟩
    refine wp_mono (ih ht hret) ?_
    rintro _ v ⟨out', rest', hout', hv, hpass', hret'⟩
    refine ⟨out ++ out', rest', ?_, hv, ?_, ?_⟩
    · rw [hout', hout, List.append_assoc]
    · rw [List.flatMap_cons]
      exact hpass.append hpass'
    · rw [List.flatMap_cons, List.length_append, ← Nat.add_assoc]
      exact hret'

/-- **However an input is cut into chunks, its bytes are fed in order and the last ones held back.** -/
theorem conserved_run {effect : Nat → List UInt8 → Nat → Utc → Utc}
    {chunks : List (Chunk o.bufferSize)} (hp : ∃ k, o.blockSize = 2 ^ k) (hb : 2 ≤ o.blockSize)
    (hs : Holds h o [] s) : Conserved effect h o s chunks := by
  have hoffs := hs.offs
  have hs' : Holds h { o with bufferOffs := ([] : List UInt8).length } [] s := by
    rw [← hoffs]
    exact hs
  refine wp_mono (updates_spec (n := 0) hp hb hs' ?_) ?_
  · intro _
    exact ⟨fun _ => rfl, fun hlt => absurd hlt (Nat.not_lt_zero _)⟩
  · rintro _ t ⟨out, rest, hout, ht, hpass, hret⟩
    rw [Nat.zero_add] at hret
    exact ⟨out, rest, hout, ht, hpass, hret⟩

/-! ## a block size of three -/

/-- a handle with an empty buffer -/
def blockOp (algorithm blockSize : Nat) (two : Bool) : Operation :=
  { Operation.zero with
    info := { Operation.zero.info with algorithm := algorithm }
    buffer := 2, bufferTwoBlocks := two, blockSize := blockSize }

/-- the handle at `1` and its buffer at `2` -/
def blockSys (o : Operation) : Sys where
  utc := Utc.empty fun _ => 0
  heap := ((Heap.empty fun _ => 0).store 1 (.op o)).store 2 (.buffer (List.replicate o.bufferSize 0))
  elems := []
  log := []

theorem blockSys_holds (m b : Nat) (two : Bool) :
    Holds 1 (blockOp m b two) [] (blockSys (blockOp m b two)) :=
  ⟨rfl, rfl, List.replicate (blockOp m b two).bufferSize 0, rfl, by
    rw [List.length_replicate, List.length_nil, Nat.zero_add]⟩

/-- the same bytes, whatever is done to the context -/
def keepContext : Nat → List UInt8 → Nat → Utc → Utc := fun _ _ _ u => u

/-- the calls of `update_func` -/
def fedAfter (o : Operation) (chunks : List (Chunk o.bufferSize)) : Option (List (List UInt8)) :=
  match updates (succeeding keepContext) 1 chunks (blockSys o) with
  | .ok (_, t) => some (fed t.log)
  | .error _ => none

theorem not_conserved {chunks : List (Chunk o.bufferSize)} {d : List UInt8}
    (hx : fedAfter o chunks = some [d]) (hd : ¬ o.blockSize ∣ d.length) :
    ¬ Conserved keepContext 1 o (blockSys o) chunks := by
  intro hc
  obtain ⟨_, t, hrun, out, held', hout, -, hpass, -⟩ := wp_iff.mp hc
  unfold fedAfter at hx
  rw [hrun] at hx
  have hfed : fed t.log = [d] := Option.some.inj hx
  rw [hfed] at hout
  have hd' : d ∈ out := by
    rw [show out = [d] from hout.symm]
    exact List.mem_singleton.mpr rfl
  exact hd (hpass.blocks d hd')

/-- four bytes come in and four go out, which is no multiple of three -/
theorem conserved_fails : ¬ Conserved keepContext 1 (blockOp 0 3 false)
    (blockSys (blockOp 0 3 false)) [⟨fun _ => 7, 4, 4, by decide⟩] :=
  not_conserved (d := [7, 7, 7, 7]) (by decide +kernel) (by decide)

/-- two blocks of sixteen bytes, two chunks -/
theorem conserved_run_xts : Conserved keepContext 1 (blockOp teeAlgAesXts 16 true)
    (blockSys (blockOp teeAlgAesXts 16 true))
    [⟨fun _ => 7, 20, 0, by decide⟩, ⟨fun _ => 9, 30, 0, by decide⟩] :=
  conserved_run ⟨4, rfl⟩ (by decide) (blockSys_holds _ _ _)

end MTower.Oper
