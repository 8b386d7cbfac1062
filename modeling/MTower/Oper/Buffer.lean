import MTower.Lib.BlockStream
import MTower.Oper.Registry

/-!
# The block buffer of an operation

`tee_buffer_update` feeds complete blocks from the buffer and from the source, and keeps the rest.

* `Holds`                  the handle holds back the bytes `held`;
* `Takes`                  an `update_func` that takes every call with enough room, or stops;
* `Operation.fedLength`    how many bytes a call feeds;
* `teeBufferUpdate_spec`   a call feeds so many bytes, in blocks, and holds back the others;
* `teeBufferUpdate_short`  without room for them it panics.

The mask of `ROUNDUP` rounds to a multiple for powers of two only.
-/

set_option linter.unusedVariables false

namespace MTower.Oper
open Lib Kernel Cryp

variable {s t : Sys} {h k n : Nat} {o : Operation} {held : List UInt8} {f : Nat → UInt8}
  {update : UpdateFunc} {E : Stop → Prop} {P : Utc → Prop} {room : Nat → Nat → Prop}

/-! ## the source -/

theorem bytes_append (f : Nat → UInt8) (offs m n : Nat) :
    Ptr.bytes (some f) offs (m + n) = Ptr.bytes (some f) offs m ++ Ptr.bytes (some f) (offs + m) n := by
  show (List.range (m + n)).map _ = (List.range m).map _ ++ (List.range n).map _
  rw [List.range_add, List.map_append, List.map_map]
  congr 1
  refine List.map_congr_left fun i _ => ?_
  show f (offs + (m + i)) = f (offs + m + i)
  rw [Nat.add_assoc]

/-- a cut behind the first list -/
theorem take_drop_append {a b : List UInt8} {i j : Nat} (h : i = a.length ∨ i = 0 ∧ j = 0) :
    (a ++ b).take (i + j) = a.take i ++ b.take j ∧ (a ++ b).drop (i + j) = a.drop i ++ b.drop j := by
  rcases h with rfl | ⟨rfl, rfl⟩
  · rw [List.take_length_add_append, List.drop_length_add_append, List.take_length,
      List.drop_length]
    exact ⟨rfl, rfl⟩
  · exact ⟨rfl, rfl⟩

/-! ## the buffer -/

theorem bufferAt_eq {b : Nat} {old : List UInt8} (hb : s.heap.blocks b = some (.buffer old)) :
    bufferAt b s = .ok (old, s) := bind_of_ok (blockAt_eq hb)

theorem bufferRead_eq {b i : Nat} {old : List UInt8} (hb : s.heap.blocks b = some (.buffer old))
    (hl : i + n ≤ old.length) : bufferRead b i n s = .ok ((old.drop i).take n, s) := by
  unfold bufferRead
  rw [bind_of_ok (bufferAt_eq hb), if_neg (Nat.not_lt.mpr hl)]
  rfl

theorem bufferWrite_eq {b i : Nat} {old d : List UInt8}
    (hb : s.heap.blocks b = some (.buffer old)) (hl : i + d.length ≤ old.length) :
    bufferWrite b i d s = .ok ((), s.store b
      (.buffer (old.take i ++ d ++ old.drop (i + d.length)))) := by
  unfold bufferWrite
  rw [bind_of_ok (bufferAt_eq hb), if_neg (Nat.not_lt.mpr hl)]
  rfl

/-- the handle `h` holds back `held` -/
structure Holds (h : Nat) (o : Operation) (held : List UInt8) (s : Sys) : Prop where
  handle : s.heap.blocks h = some (.op o)
  offs : o.bufferOffs = held.length
  buffer : ∃ data, s.heap.blocks o.buffer = some (.buffer (held ++ data)) ∧
    held.length + data.length = o.bufferSize

theorem Holds.le (hs : Holds h o held s) : held.length ≤ o.bufferSize := by
  obtain ⟨data, -, hl⟩ := hs.buffer
  omega

theorem Holds.ne (hs : Holds h o held s) : o.buffer ≠ h := by
  obtain ⟨data, hd, -⟩ := hs.buffer
  intro e
  rw [e, hs.handle] at hd
  cases hd

theorem Holds.of_heap (hs : Holds h o held s) (ht : t.heap = s.heap) : Holds h o held t := by
  obtain ⟨h1, h2, h3⟩ := hs
  refine ⟨?_, h2, ?_⟩
  · rw [ht]
    exact h1
  · rw [ht]
    exact h3

/-- bytes that are written behind the held ones -/
theorem Holds.append (hs : Holds h o held s) {d : List UInt8}
    (hd : held.length + d.length ≤ o.bufferSize) :
    wpx E (bufferWrite o.buffer o.bufferOffs d) (fun _ t =>
      wpx E (updateOp h fun o => { o with bufferOffs := o.bufferOffs + d.length }) (fun _ v =>
        v.utc = s.utc ∧ v.log = s.log ∧
          Holds h { o with bufferOffs := (held ++ d).length } (held ++ d) v) t) s := by
  obtain ⟨data, hb, hl⟩ := hs.buffer
  have hw := bufferWrite_eq (s := s) (i := o.bufferOffs) (d := d) hb (by
    rw [hs.offs, List.length_append]
    omega)
  rw [wpx_of_eq hw]
  have hh : (s.store o.buffer (.buffer _)).heap.blocks h = some (.op o) :=
    (store_of_ne (.buffer ((held ++ data).take o.bufferOffs ++ d ++
      (held ++ data).drop (o.bufferOffs + d.length))) hs.ne.symm).trans hs.handle
  rw [wpx_of_eq (updateOp_eq hh)]
  refine ⟨rfl, rfl, ?_, rfl, data.drop d.length, ?_, ?_⟩
  · rw [store_self, hs.offs, List.length_append]
  · rw [store_of_ne _ hs.ne, store_self, hs.offs, List.take_left' rfl, List.drop_append,
      List.drop_of_length_le (by omega), List.nil_append, Nat.add_sub_cancel_left]
  · rw [List.length_append, List.length_drop]
    show _ = o.bufferSize
    omega

/-- the rest of the buffer goes to its beginning -/
theorem Holds.shift (hs : Holds h o held s) {l : Nat} (hl : l ≤ held.length) :
    wpx E (updateOp h fun o => { o with bufferOffs := o.bufferOffs - l }) (fun _ t =>
      wpx E (bufferRead o.buffer l (o.bufferSize - l)) (fun rest v =>
        wpx E (bufferWrite o.buffer 0 rest) (fun _ w => w.utc = s.utc ∧ w.log = s.log ∧
          Holds h { o with bufferOffs := o.bufferOffs - l } (held.drop l) w) v) t) s := by
  obtain ⟨data, hb, hsize⟩ := hs.buffer
  have hb' : (s.store h (.op { o with bufferOffs := o.bufferOffs - l })).heap.blocks o.buffer =
      some (.buffer (held ++ data)) := (store_of_ne _ hs.ne).trans hb
  have hread := bufferRead_eq (n := o.bufferSize - l) (i := l) hb' (by
    rw [List.length_append]
    omega)
  have hrest : ((held ++ data).drop l).take (o.bufferSize - l) = held.drop l ++ data := by
    rw [List.drop_append_of_le_length hl]
    exact List.take_of_length_le (by rw [List.length_append, List.length_drop]; omega)
  have hlen : (held.drop l ++ data).length = o.bufferSize - l := by
    rw [List.length_append, List.length_drop]
    omega
  rw [hrest] at hread
  have hwrite := bufferWrite_eq (i := 0) (d := held.drop l ++ data) hb' (by
    rw [hlen, List.length_append]
    omega)
  rw [wpx_of_eq (updateOp_eq hs.handle), wpx_of_eq hread, wpx_of_eq hwrite]
  refine ⟨rfl, rfl, ?_, ?_, data ++ (held ++ data).drop (o.bufferSize - l), ?_, ?_⟩
  · rw [store_of_ne _ hs.ne.symm, store_self]
  · rw [List.length_drop]
    show o.bufferOffs - l = _
    rw [hs.offs]
  · show (Sys.store _ o.buffer _).heap.blocks o.buffer = _
    rw [store_self, List.take_zero, List.nil_append, Nat.zero_add, hlen, List.append_assoc]
  · show _ = o.bufferSize
    rw [List.length_drop, List.length_append, List.length_drop, List.length_append]
    omega

/-- nothing of the buffer is left -/
theorem Holds.emptied (hs : Holds h o held s) {l : Nat} (hl : o.bufferOffs - l = 0) :
    wpx E (updateOp h fun o => { o with bufferOffs := o.bufferOffs - l }) (fun _ t =>
      t.utc = s.utc ∧ t.log = s.log ∧ Holds h { o with bufferOffs := o.bufferOffs - l } [] t) s := by
  obtain ⟨data, hb, hsize⟩ := hs.buffer
  rw [wpx_of_eq (updateOp_eq hs.handle)]
  refine ⟨rfl, rfl, store_self _, hl, held ++ data, ?_, ?_⟩
  · exact (store_of_ne _ hs.ne).trans hb
  · rw [List.length_append, List.length_nil, Nat.zero_add]
    exact hsize

/-! ## calls of `update_func` -/

/-- the calls of the record that fed bytes, the oldest first -/
def fed : List Event → List (List UInt8)
  | [] => []
  | .feed _ d :: log => fed log ++ [d]
  | _ :: log => fed log

/-- `update_func` takes the bytes of every call with room, or stops with an error in `E`, and leaves
the handles alone -/
structure Takes (E : Stop → Prop) (update : UpdateFunc) (P : Utc → Prop) (st b : Nat)
    (room : Nat → Nat → Prop) : Prop where
  ok : ∀ (s : Sys) (d : List UInt8) (n : Nat), P s.utc → b ∣ d.length → room d.length n →
    wpx E (update st d n) (fun r t => if r.1 = teeSuccess then r.2 = d.length ∧ t.heap = s.heap ∧
      P t.utc ∧ (t.log = .feed st d :: s.log ∨ d = [] ∧ t.log = s.log) else E (.panic r.1)) s

/-- from `s` to `t` the bytes `d` were fed -/
structure Given (P : Utc → Prop) (b : Nat) (d : List UInt8) (s t : Sys) : Prop where
  utc : P t.utc
  out : ∃ out, fed t.log = fed s.log ++ out ∧ out.flatten = d ∧ ∀ e ∈ out, b ∣ e.length

theorem Given.refl {b : Nat} (hs : P s.utc) : Given P b [] s s :=
  ⟨hs, [], (List.append_nil _).symm, rfl, nofun⟩

theorem Given.trans {b : Nat} {d e : List UInt8} {v : Sys} (h : Given P b d s t)
    (h' : Given P b e t v) : Given P b (d ++ e) s v := by
  obtain ⟨out, ho, hd, hb⟩ := h.out
  obtain ⟨out', ho', hd', hb'⟩ := h'.out
  refine ⟨h'.utc, out ++ out', ?_, ?_, ?_⟩
  · rw [ho', ho, List.append_assoc]
  · rw [List.flatten_append, hd, hd']
  · intro x hx
    rcases List.mem_append.mp hx with hx | hx
    · exact hb x hx
    · exact hb' x hx

/-- states with the same record and context -/
theorem Given.congr {b : Nat} {d : List UInt8} {s' t' : Sys} (h : Given P b d s t)
    (hs : s'.log = s.log) (ht : t'.log = t.log) (hu : t'.utc = t.utc) : Given P b d s' t' := by
  obtain ⟨h1, h2⟩ := h
  refine ⟨?_, ?_⟩
  · rw [hu]
    exact h1
  · rw [hs, ht]
    exact h2

theorem feed_spec {st b : Nat} (hu : Takes E update P st b room) {d : List UInt8} {p : Progress}
    (hP : P s.utc) (hb : b ∣ d.length) (hr : room d.length p.dlen) :
    wpx E (feed update st d p) (fun q t => t.heap = s.heap ∧ Given P b d s t ∧
      q = { p with dlen := p.dlen - d.length, accDlen := p.accDlen + d.length }) s := by
  rw [feed, wpx_bind]
  refine wpx_mono (hu.ok s d p.dlen hP hb hr) ?_
  intro r t ht
  by_cases hres : r.1 ≠ teeSuccess
  · rw [if_neg hres] at ht
    rw [if_pos hres]
    exact ht
  rw [if_pos (not_not.mp hres)] at ht
  obtain ⟨hlen, hheap, hPt, hlog⟩ := ht
  rw [if_neg hres, hlen]
  refine ⟨hheap, ⟨hPt, ?_⟩, rfl⟩
  rcases hlog with hlog | ⟨rfl, hlog⟩
  · refine ⟨[d], by rw [hlog]; rfl, List.flatten_singleton, ?_⟩
    intro e he
    rw [List.mem_singleton.mp he]
    exact hb
  · exact ⟨[], by rw [hlog, List.append_nil], rfl, nofun⟩

/-! ## lengths -/

/-- how many bytes of the source fill up a block that has begun -/
def Operation.topUp (o : Operation) (n : Nat) : Nat :=
  if o.bufferOffs = 0 then 0
  else if o.bufferOffs < o.blockSize then min n (o.blockSize - o.bufferOffs)
  else min n (o.bufferSize - o.bufferOffs)

/-- how many bytes are fed from the buffer -/
def Operation.fromBuffer (o : Operation) (n : Nat) : Nat :=
  if o.bufferOffs = 0 ∨ o.bufferOffs + n < o.bufferSize + o.bufferLeft then 0
  else min o.bufferOffs (roundUp (o.bufferOffs + n - o.bufferSize) o.blockSize)

/-- how many bytes are fed from the source -/
def Operation.fromSource (o : Operation) (n : Nat) : Nat :=
  if n < o.bufferSize + o.bufferLeft then 0
  else if o.info.algorithm = teeAlgAesCts then roundUp (n - o.bufferSize) o.blockSize
  else roundUp (n - o.bufferSize + 1) o.blockSize

/-- how many bytes are fed when the buffer holds complete blocks -/
def Operation.fedAligned (o : Operation) (n : Nat) : Nat :=
  if o.bufferOffs - o.fromBuffer n ≠ 0 then o.fromBuffer n else o.fromBuffer n + o.fromSource n

/-- how many bytes `n` more bytes feed -/
def Operation.fedLength (o : Operation) (n : Nat) : Nat :=
  let q := { o with bufferOffs := o.bufferOffs + o.topUp n }
  if q.bufferOffs % o.blockSize ≠ 0 then 0 else q.fedAligned (n - o.topUp n)

/-- **`ROUNDUP` rounds up for powers of two.** -/
theorem roundUp_isCeil {v : Nat} (hk : k ≤ 31) (hv : v + 2 ^ k ≤ 2 ^ 32) :
    IsCeil (2 ^ k) v (roundUp v (2 ^ k)) := by
  have hpos : 0 < 2 ^ k := Nat.two_pow_pos k
  have hle : 2 ^ k ≤ 2 ^ 31 := Nat.pow_le_pow_right (by decide) hk
  have h1 : (2 ^ k + 2 ^ 32 - 1) % 2 ^ 32 = 2 ^ k - 1 := by omega
  have h2 : (v + (2 ^ k + 2 ^ 32 - 1)) % 2 ^ 32 = v + 2 ^ k - 1 := by omega
  have h3 : roundUp v (2 ^ k) = (v + 2 ^ k - 1) / 2 ^ k * 2 ^ k := by
    rw [roundUp, h1, h2]
    exact mask_eq (w := 32) (by omega) (by omega)
  rw [h3]
  exact isCeil_div hpos

theorem Operation.bufferSize_le (o : Operation) : o.blockSize ≤ o.bufferSize := by
  unfold Operation.bufferSize
  split <;> omega

theorem Operation.bufferLeft_le (o : Operation) : o.bufferLeft ≤ 1 := by
  unfold Operation.bufferLeft
  split <;> omega

theorem Operation.bufferSize_dvd (o : Operation) : o.blockSize ∣ o.bufferSize := by
  unfold Operation.bufferSize
  split
  · exact Nat.dvd_mul_right _ 2
  · exact Nat.dvd_refl _

/-- a block size that `ROUNDUP` can handle -/
structure Operation.Blocks (o : Operation) : Prop where
  pow : ∃ k, o.blockSize = 2 ^ k
  two : 2 ≤ o.blockSize
  fits : o.bufferSize < 2 ^ 32

theorem Operation.Blocks.isCeil (hb : o.Blocks) {v : Nat} (hv : v + o.blockSize ≤ 2 ^ 32) :
    IsCeil o.blockSize v (roundUp v o.blockSize) := by
  obtain ⟨⟨k, hk⟩, -, hS⟩ := hb
  have hle := o.bufferSize_le
  have hlt : 2 ^ k < 2 ^ 32 := by omega
  rw [hk] at hv ⊢
  exact roundUp_isCeil (Nat.lt_succ_iff.mp ((Nat.pow_lt_pow_iff_right (by decide)).mp hlt)) hv

/-- what is fed from the buffer is cut at blocks and leaves room for the source -/
theorem Operation.Blocks.fromBuffer (hb : o.Blocks) (ho : o.blockSize ∣ o.bufferOffs)
    (hfit : o.bufferOffs + n < 2 ^ 32) :
    o.fromBuffer n ≤ o.bufferOffs ∧ o.blockSize ∣ o.fromBuffer n ∧
      (o.fromBuffer n < o.bufferOffs → o.bufferOffs - o.fromBuffer n + n ≤ o.bufferSize) := by
  have hS := o.bufferSize_le
  have hL := o.bufferLeft_le
  have htwo := hb.two
  unfold Operation.fromBuffer
  by_cases hc : o.bufferOffs = 0 ∨ o.bufferOffs + n < o.bufferSize + o.bufferLeft
  · rw [if_pos hc]
    exact ⟨Nat.zero_le _, Nat.dvd_zero _, fun h => by omega⟩
  · rw [if_neg hc]
    have hceil := hb.isCeil (v := o.bufferOffs + n - o.bufferSize) (by omega)
    have h1 := hceil.le
    refine ⟨Nat.min_le_left _ _, ?_, fun h => by omega⟩
    rcases Nat.le_total o.bufferOffs (roundUp (o.bufferOffs + n - o.bufferSize) o.blockSize)
      with e | e
    · rw [Nat.min_eq_left e]
      exact ho
    · rw [Nat.min_eq_right e]
      exact hceil.dvd

/-- what is fed from the source is cut at blocks and leaves what fits into the buffer -/
theorem Operation.Blocks.fromSource (hb : o.Blocks) (hfit : n < 2 ^ 32) :
    o.fromSource n ≤ n ∧ o.blockSize ∣ o.fromSource n ∧
      n - o.fromSource n ≤ o.bufferSize := by
  have hS := o.bufferSize_le
  have hL := o.bufferLeft_le
  have htwo := hb.two
  unfold Operation.fromSource
  by_cases hc : n < o.bufferSize + o.bufferLeft
  · rw [if_pos hc]
    exact ⟨Nat.zero_le _, Nat.dvd_zero _, by omega⟩
  rw [if_neg hc]
  by_cases hcts : o.info.algorithm = teeAlgAesCts
  · have hceil := hb.isCeil (v := n - o.bufferSize) (by omega)
    rw [if_pos hcts]
    have h1 := hceil.le
    have h2 := hceil.lt
    exact ⟨by omega, hceil.dvd, by omega⟩
  · have hceil := hb.isCeil (v := n - o.bufferSize + 1) (by omega)
    rw [if_neg hcts]
    have h1 := hceil.le
    have h2 := hceil.lt
    exact ⟨by omega, hceil.dvd, by omega⟩

/-! ## one call -/

theorem fillBlock_spec {p : Progress} (hb : o.Blocks) (hs : Holds h o held s) :
    wpx E (fillBlock h (some f) p) (fun r t => t.utc = s.utc ∧ t.log = s.log ∧
      Holds h { o with bufferOffs := o.bufferOffs + o.topUp p.slen }
        (held ++ Ptr.bytes (some f) p.pos (o.topUp p.slen)) t ∧
      r.2 = { p with pos := p.pos + o.topUp p.slen, slen := p.slen - o.topUp p.slen } ∧
      (r.1 = true ↔ (o.bufferOffs + o.topUp p.slen) % o.blockSize ≠ 0)) s := by
  rw [fillBlock, wpx_bind, wpx_of_eq (opAt_eq hs.handle)]
  by_cases h0 : o.bufferOffs = 0
  · have hl : o.topUp p.slen = 0 := if_pos h0
    rw [if_pos h0, hl]
    refine ⟨rfl, rfl, ?_, rfl, ?_⟩
    · rw [show Ptr.bytes (some f) p.pos 0 = [] from rfl, List.append_nil]
      exact hs
    · rw [h0]
      simp
  · have hle := hs.le
    have hoff := hs.offs
    have hS := o.bufferSize_le
    have hfits := hb.fits
    have hmod : (o.bufferSize + 2 ^ 32 - o.bufferOffs) % 2 ^ 32 = o.bufferSize - o.bufferOffs := by
      omega
    have hl : (if o.bufferOffs < o.blockSize then min p.slen (o.blockSize - o.bufferOffs)
        else min p.slen ((o.bufferSize + 2 ^ 32 - o.bufferOffs) % 2 ^ 32)) = o.topUp p.slen := by
      rw [Operation.topUp, if_neg h0, hmod]
    have htop : o.topUp p.slen ≤ o.bufferSize - o.bufferOffs := by
      rw [Operation.topUp, if_neg h0]
      split <;> omega
    rw [if_neg h0]
    dsimp only
    rw [hl]
    have hlen := bytes_length f p.pos (o.topUp p.slen)
    generalize hd : Ptr.bytes (some f) p.pos (o.topUp p.slen) = d at hlen
    rw [← hlen]
    rw [wpx_bind]
    refine wpx_mono (hs.append (d := d) (by omega)) ?_
    intro _ t ht
    rw [wpx_bind]
    refine wpx_mono ht ?_
    rintro _ v ⟨hu, hlog, hv⟩
    rw [List.length_append, ← hoff] at hv
    exact ⟨hu, hlog, hv, rfl, by simp⟩

theorem keepRest_spec {p : Progress} (hs : Holds h o held s)
    (hfit : held.length + p.slen ≤ o.bufferSize) :
    wpx E (keepRest h (some f) p) (fun _ t => t.utc = s.utc ∧ t.log = s.log ∧
      Holds h { o with bufferOffs := held.length + p.slen }
        (held ++ Ptr.bytes (some f) p.pos p.slen) t) s := by
  rw [keepRest, wpx_bind, wpx_of_eq (opAt_eq hs.handle)]
  have hlen := bytes_length f p.pos p.slen
  generalize hd : Ptr.bytes (some f) p.pos p.slen = d at hlen
  rw [← hlen]
  rw [wpx_bind, ← List.length_append]
  exact hs.append (d := d) (by omega)

theorem feedBuffer_spec {p : Progress} (hb : o.Blocks) (hs : Holds h o held s)
    (hd : o.blockSize ∣ o.bufferOffs) (hfit : o.bufferOffs + p.slen < 2 ^ 32)
    (hu : Takes E update P o.state o.blockSize room) (hP : P s.utc)
    (hr : room (o.fromBuffer p.slen) p.dlen) :
    wpx E (feedBuffer update h (some f) p) (fun r t =>
      Given P o.blockSize (held.take (o.fromBuffer p.slen)) s t ∧
      r.2 = { p with dlen := p.dlen - o.fromBuffer p.slen,
                     accDlen := p.accDlen + o.fromBuffer p.slen } ∧
      ((r.1 = true ∧ o.bufferOffs - o.fromBuffer p.slen ≠ 0 ∧
        Holds h { o with bufferOffs := held.length - o.fromBuffer p.slen + p.slen }
          (held.drop (o.fromBuffer p.slen) ++ Ptr.bytes (some f) p.pos p.slen) t) ∨
      (r.1 = false ∧ (o.bufferOffs - o.fromBuffer p.slen = 0 ∨
          o.bufferOffs + p.slen < o.bufferSize + o.bufferLeft) ∧
        Holds h { o with bufferOffs := o.bufferOffs - o.fromBuffer p.slen }
          (held.drop (o.fromBuffer p.slen)) t))) s := by
  obtain ⟨hle, hdvd, hrest⟩ := hb.fromBuffer hd hfit
  have hoff := hs.offs
  rw [feedBuffer, wpx_bind, wpx_of_eq (opAt_eq hs.handle), Nat.mod_eq_of_lt hfit]
  by_cases hc : o.bufferOffs = 0 ∨ o.bufferOffs + p.slen < o.bufferSize + o.bufferLeft
  · have hl : o.fromBuffer p.slen = 0 := if_pos hc
    rw [if_pos hc, hl]
    refine ⟨Given.refl hP, rfl, .inr ⟨rfl, hc.imp (by omega) id, ?_⟩⟩
    exact hs
  have hl : o.fromBuffer p.slen =
      min o.bufferOffs (roundUp (o.bufferOffs + p.slen - o.bufferSize) o.blockSize) := if_neg hc
  rw [if_neg hc, ← hl]
  generalize o.fromBuffer p.slen = l at hle hdvd hrest hr ⊢
  obtain ⟨data, hbuf, hsize⟩ := hs.buffer
  have hread := bufferRead_eq (n := l) (i := 0) hbuf (by
    rw [List.length_append]
    omega)
  rw [List.drop_zero, List.take_append_of_le_length (by omega)] at hread
  have hlen : (held.take l).length = l := by
    rw [List.length_take]
    omega
  dsimp only
  rw [wpx_bind, wpx_of_eq hread, wpx_bind]
  refine wpx_mono (feed_spec hu hP (by rw [hlen]; exact hdvd) (by rw [hlen]; exact hr)) ?_
  rintro q t ⟨hheap, hgiven, rfl⟩
  rw [hlen]
  have ht := hs.of_heap hheap
  by_cases h0 : o.bufferOffs - l = 0
  · -- all of the buffer was fed
    have hnil : held.drop l = [] := List.drop_of_length_le (by omega)
    rw [if_pos h0, wpx_bind, hnil]
    refine wpx_mono (ht.emptied h0) ?_
    rintro _ v ⟨hu, hlog, hv⟩
    exact ⟨hgiven.congr rfl hlog hu, rfl, .inr ⟨rfl, .inl h0, hv⟩⟩
  · rw [if_neg h0, wpx_bind]
    refine wpx_mono (ht.shift (l := l) (by omega)) ?_
    intro _ t1 h1
    rw [wpx_bind]
    refine wpx_mono h1 ?_
    intro rest t2 h2
    rw [wpx_bind]
    refine wpx_mono h2 ?_
    rintro _ t3 ⟨hu3, hl3, h3⟩
    rw [wpx_bind]
    have hfits := hrest (by omega)
    refine wpx_mono (keepRest_spec (f := f) h3 (p := { p with dlen := p.dlen - l, accDlen := p.accDlen + l }) ?_) ?_
    · rw [List.length_drop]
      show _ ≤ o.bufferSize
      show held.length - l + p.slen ≤ _
      omega
    rintro _ t4 ⟨hu4, hl4, h4⟩
    rw [List.length_drop] at h4
    exact ⟨hgiven.congr rfl (hl4.trans hl3) (hu4.trans hu3), rfl, .inl ⟨rfl, h0, h4⟩⟩

theorem feedSource_spec {p : Progress} (hb : o.Blocks) (hs : Holds h o held s)
    (hfit : p.slen < 2 ^ 32) (hu : Takes E update P o.state o.blockSize room) (hP : P s.utc)
    (hr : room (o.fromSource p.slen) p.dlen) :
    wpx E (feedSource update h (some f) p) (fun q t => t.heap = s.heap ∧
      Given P o.blockSize (Ptr.bytes (some f) p.pos (o.fromSource p.slen)) s t ∧
      q = ⟨p.pos + o.fromSource p.slen, p.slen - o.fromSource p.slen,
        p.dlen - o.fromSource p.slen, p.accDlen + o.fromSource p.slen⟩) s := by
  obtain ⟨hle, hdvd, -⟩ := hb.fromSource hfit
  rw [feedSource, wpx_bind, wpx_of_eq (opAt_eq hs.handle)]
  by_cases hc : p.slen < o.bufferSize + o.bufferLeft
  · have hl : o.fromSource p.slen = 0 := if_pos hc
    rw [if_pos hc, hl]
    exact ⟨rfl, Given.refl hP, rfl⟩
  have hl : (if o.info.algorithm = teeAlgAesCts then roundUp (p.slen - o.bufferSize) o.blockSize
      else roundUp (p.slen - o.bufferSize + 1) o.blockSize) = o.fromSource p.slen :=
    (if_neg hc).symm
  rw [if_neg hc]
  dsimp only
  rw [hl, wpx_bind]
  have hlen := bytes_length f p.pos (o.fromSource p.slen)
  refine wpx_mono (feed_spec hu hP (by rw [hlen]; exact hdvd) (by rw [hlen]; exact hr)) ?_
  rintro q t ⟨hheap, hgiven, rfl⟩
  refine ⟨hheap, hgiven, ?_⟩
  rw [hlen]
  show Progress.mk _ _ _ _ = Progress.mk _ _ _ _
  congr 1
  show (p.slen + 2 ^ 32 - o.fromSource p.slen) % 2 ^ 32 = _
  omega

/-- a block that is not filled up takes all of the source -/
theorem Operation.topUp_eq (hle : o.bufferOffs ≤ o.bufferSize)
    (hm : (o.bufferOffs + o.topUp n) % o.blockSize ≠ 0) : o.topUp n = n := by
  unfold Operation.topUp at hm ⊢
  by_cases h0 : o.bufferOffs = 0
  · rw [if_pos h0, h0] at hm
    simp at hm
  rw [if_neg h0] at hm ⊢
  by_cases hlt : o.bufferOffs < o.blockSize
  · rw [if_pos hlt] at hm ⊢
    by_contra hne
    rw [show o.bufferOffs + min n (o.blockSize - o.bufferOffs) = o.blockSize by omega,
      Nat.mod_self] at hm
    exact hm rfl
  · rw [if_neg hlt] at hm ⊢
    by_contra hne
    rw [show o.bufferOffs + min n (o.bufferSize - o.bufferOffs) = o.bufferSize by omega] at hm
    exact hm (Nat.mod_eq_zero_of_dvd o.bufferSize_dvd)

theorem Operation.topUp_le (o : Operation) (n : Nat) : o.topUp n ≤ n := by
  unfold Operation.topUp
  split
  · exact Nat.zero_le n
  · split <;> exact Nat.min_le_left _ _

/-- the source is fed when nothing else is left, or when it is too short for that -/
theorem Operation.fedAligned_eq
    (hc : o.bufferOffs - o.fromBuffer n = 0 ∨ o.bufferOffs + n < o.bufferSize + o.bufferLeft) :
    o.fedAligned n = o.fromBuffer n + o.fromSource n := by
  unfold Operation.fedAligned
  by_cases h0 : o.bufferOffs - o.fromBuffer n ≠ 0
  · have hlt := hc.resolve_left h0
    have hS : o.fromSource n = 0 := if_pos (by omega)
    rw [if_pos h0, hS, Nat.add_zero]
  · rw [if_neg h0]

/-- after the fill-up -/
theorem feedAligned_spec {l m dl : Nat} (hb : o.Blocks) (hs : Holds h o held s)
    (hd : o.blockSize ∣ o.bufferOffs) (hfit : o.bufferOffs + m < 2 ^ 32)
    (hu : Takes E update P o.state o.blockSize room) (hP : P s.utc)
    (hr : ∀ i j, i + j ≤ o.fedAligned m → room j (dl - i)) :
    wpx E (do
      let (done, p) ← feedBuffer update h (some f) ⟨l, m, dl, 0⟩
      if done then pure (teeSuccess, p.accDlen)
      else do
        let p ← feedSource update h (some f) p
        keepRest h (some f) p
        pure (teeSuccess, p.accDlen))
      (fun r t => r = (teeSuccess, o.fedAligned m) ∧
        Given P o.blockSize ((held ++ Ptr.bytes (some f) l m).take (o.fedAligned m)) s t ∧
        Holds h { o with bufferOffs := held.length + m - o.fedAligned m }
          ((held ++ Ptr.bytes (some f) l m).drop (o.fedAligned m)) t) s := by
  have hoff := hs.offs
  obtain ⟨hk1, -, -⟩ := hb.fromBuffer (n := m) hd hfit
  have hk2 : o.fromBuffer m ≤ o.fedAligned m := by
    unfold Operation.fedAligned
    split <;> omega
  rw [wpx_bind]
  refine wpx_mono (feedBuffer_spec (f := f) hb hs hd hfit hu hP (hr 0 _ (by simpa using hk2))) ?_
  rintro ⟨done, p⟩ t2 ⟨hg2, rfl, h2⟩
  have hfed := Operation.fedAligned_eq (o := o) (n := m)
  dsimp only at h2 ⊢
  rcases h2 with ⟨hdone, hne, h2⟩ | ⟨hdone, hcase, h2⟩
  · -- the rest of the buffer is the beginning of what is held back
    have hfed : o.fedAligned m = o.fromBuffer m := if_pos hne
    rw [hdone, if_pos rfl, hfed]
    refine ⟨?_, ?_, ?_⟩
    · rw [Nat.zero_add]
    · rw [List.take_append_of_le_length (by omega)]
      exact hg2
    · rw [List.drop_append_of_le_length (by omega),
        show held.length + m - o.fromBuffer m = held.length - o.fromBuffer m + m by omega]
      exact h2
  · obtain ⟨hs1, -, hs3⟩ := hb.fromSource (n := m) (by omega)
    rw [hdone, if_neg (by decide), wpx_bind]
    rw [hfed hcase] at hr ⊢
    have hb2 : ({ o with bufferOffs := o.bufferOffs - o.fromBuffer m } : Operation).Blocks :=
      ⟨hb.pow, hb.two, hb.fits⟩
    refine wpx_mono (feedSource_spec (f := f) hb2 h2 (show m < 2 ^ 32 by omega) hu hg2.utc
      (hr _ _ (Nat.le_refl _))) ?_
    rintro p t3 ⟨hheap, hg3, rfl⟩
    rw [wpx_bind]
    have hshort : o.bufferOffs - o.fromBuffer m = 0 ∨ o.fromBuffer m = 0 ∧ o.fromSource m = 0 := by
      rcases hcase with h0 | hlt
      · exact .inl h0
      · exact .inr ⟨if_pos (.inr hlt), if_pos (by omega)⟩
    have hlen : (held.drop (o.fromBuffer m)).length + (m - o.fromSource m) ≤ o.bufferSize := by
      have := o.bufferLeft_le
      rw [List.length_drop]
      rcases hcase with h0 | hlt <;> omega
    refine wpx_mono (keepRest_spec (f := f) (h2.of_heap hheap) hlen) ?_
    rintro _ t4 ⟨hu4, hl4, h4⟩
    have hcut := bytes_append f l (o.fromSource m) (m - o.fromSource m)
    rw [Nat.add_sub_cancel' hs1] at hcut
    rw [List.length_drop] at h4
    have hsplit := take_drop_append (a := held) (b := Ptr.bytes (some f) l m)
      (i := o.fromBuffer m) (j := o.fromSource m) (by omega)
    refine ⟨?_, ?_, ?_⟩
    · show (teeSuccess, 0 + o.fromBuffer m + o.fromSource m) = _
      rw [Nat.zero_add]
    · rw [hsplit.1, hcut, List.take_left' (bytes_length f l _)]
      exact (hg2.trans hg3).congr rfl hl4 hu4
    · have hcount : held.length - o.fromBuffer m + (m - o.fromSource m) =
          held.length + m - (o.fromBuffer m + o.fromSource m) := by omega
      rw [hsplit.2, hcut, List.drop_left' (bytes_length f l _), ← hcount]
      exact h4

/-- **A call feeds complete blocks and holds back the rest.** -/
theorem teeBufferUpdate_spec {dl : Nat} (hb : o.Blocks) (hs : Holds h o held s)
    (hfit : held.length + n < 2 ^ 32) (hu : Takes E update P o.state o.blockSize room)
    (hP : P s.utc) (hr : ∀ i j, i + j ≤ o.fedLength n → room j (dl - i)) :
    wpx E (teeBufferUpdate update h (some f) n dl) (fun r t => r = (teeSuccess, o.fedLength n) ∧
      Given P o.blockSize ((held ++ Ptr.bytes (some f) 0 n).take (o.fedLength n)) s t ∧
      Holds h { o with bufferOffs := held.length + n - o.fedLength n }
        ((held ++ Ptr.bytes (some f) 0 n).drop (o.fedLength n)) t) s := by
  have hoff := hs.offs
  have htop := o.topUp_le n
  unfold teeBufferUpdate
  rw [if_neg nofun, wpx_bind]
  refine wpx_mono (fillBlock_spec (f := f) hb hs) ?_
  rintro ⟨done, p⟩ t1 ⟨hu1, hl1, h1, rfl, hdone⟩
  dsimp only at h1 hdone ⊢
  rw [Nat.zero_add]
  have hP1 : P t1.utc := by
    rw [hu1]
    exact hP
  have hwhole : Ptr.bytes (some f) 0 n = Ptr.bytes (some f) 0 (o.topUp n) ++
      Ptr.bytes (some f) (o.topUp n) (n - o.topUp n) := by
    have := bytes_append f 0 (o.topUp n) (n - o.topUp n)
    rwa [Nat.add_sub_cancel' htop, Nat.zero_add] at this
  by_cases hm : (o.bufferOffs + o.topUp n) % o.blockSize ≠ 0
  · -- the block is not complete
    have hfed : o.fedLength n = 0 := if_pos hm
    have htn := Operation.topUp_eq (by rw [hoff]; exact hs.le) hm
    rw [hdone.mpr hm, if_pos rfl, hfed, List.take_zero, List.drop_zero]
    rw [htn, hoff] at h1
    exact ⟨rfl, (Given.refl hP1).congr hl1.symm rfl rfl, h1⟩
  · have hfed : o.fedLength n = ({ o with bufferOffs := o.bufferOffs + o.topUp n } :
        Operation).fedAligned (n - o.topUp n) := if_neg hm
    have hlen := bytes_length f 0 (o.topUp n)
    have hwhole' : held ++ Ptr.bytes (some f) 0 n = (held ++ Ptr.bytes (some f) 0 (o.topUp n)) ++
        Ptr.bytes (some f) (o.topUp n) (n - o.topUp n) := by
      rw [List.append_assoc, ← hwhole]
    rw [show done = false by simpa using hdone.not.mpr hm, if_neg (by decide), hwhole', hfed]
    rw [hfed] at hr
    have hb1 : ({ o with bufferOffs := o.bufferOffs + o.topUp n } : Operation).Blocks :=
      ⟨hb.pow, hb.two, hb.fits⟩
    refine wpx_mono (feedAligned_spec (f := f) hb1 h1 (Nat.dvd_of_mod_eq_zero (not_not.mp hm))
      (show o.bufferOffs + o.topUp n + (n - o.topUp n) < 2 ^ 32 by omega) hu hP1 hr) ?_
    rintro r t ⟨hr, hg, ht⟩
    refine ⟨hr, hg.congr hl1.symm rfl rfl, ?_⟩
    rw [List.length_append, hlen, show held.length + o.topUp n + (n - o.topUp n) =
      held.length + n by omega] at ht
    exact ht

/-! ## a call without room -/

/-- `update_func` refuses more bytes than there is room for -/
def Scant (update : UpdateFunc) (P : Utc → Prop) (st : Nat) : Prop :=
  ∀ (s : Sys) (d : List UInt8) (n : Nat), P s.utc → n < d.length →
    update st d n s = .ok ((teeErrorShortBuffer, d.length), s)

theorem feed_short {st : Nat} {d : List UInt8} {p : Progress} (hx : Scant update P st)
    (hP : P s.utc) (hlt : p.dlen < d.length) : wlp (feed update st d p) (fun _ _ => False) s := by
  rw [feed, wlp_bind, wlp_of_eq (hx s d p.dlen hP hlt),
    if_pos (show teeErrorShortBuffer ≠ teeSuccess by decide)]
  exact trivial

theorem feedBuffer_short {p : Progress} (hb : o.Blocks) (hs : Holds h o held s)
    (hfit : o.bufferOffs + p.slen < 2 ^ 32) (hx : Scant update P o.state) (hP : P s.utc)
    (hlt : p.dlen < o.fromBuffer p.slen) :
    wlp (feedBuffer update h (some f) p) (fun _ _ => False) s := by
  have hoff := hs.offs
  rw [feedBuffer, wlp_bind, wlp_of_eq (opAt_eq hs.handle), Nat.mod_eq_of_lt hfit]
  by_cases hc : o.bufferOffs = 0 ∨ o.bufferOffs + p.slen < o.bufferSize + o.bufferLeft
  · have hl : o.fromBuffer p.slen = 0 := if_pos hc
    rw [hl] at hlt
    exact absurd hlt (Nat.not_lt_zero _)
  have hl : o.fromBuffer p.slen =
      min o.bufferOffs (roundUp (o.bufferOffs + p.slen - o.bufferSize) o.blockSize) := if_neg hc
  rw [if_neg hc, ← hl]
  have hle : o.fromBuffer p.slen ≤ o.bufferOffs := by
    rw [hl]
    exact Nat.min_le_left _ _
  generalize o.fromBuffer p.slen = l at hlt hle ⊢
  dsimp only
  rw [wlp_bind]
  refine wlp_bufferRead fun data hlen => ?_
  rw [wlp_bind]
  exact wlp_mono (feed_short hx hP (by omega)) fun _ _ => False.elim

theorem feedSource_short {p : Progress} (hs : Holds h o held s) (hx : Scant update P o.state)
    (hP : P s.utc) (hlt : p.dlen < o.fromSource p.slen) :
    wlp (feedSource update h (some f) p) (fun _ _ => False) s := by
  rw [feedSource, wlp_bind, wlp_of_eq (opAt_eq hs.handle)]
  by_cases hc : p.slen < o.bufferSize + o.bufferLeft
  · have hl : o.fromSource p.slen = 0 := if_pos hc
    rw [hl] at hlt
    exact absurd hlt (Nat.not_lt_zero _)
  have hl : (if o.info.algorithm = teeAlgAesCts then roundUp (p.slen - o.bufferSize) o.blockSize
      else roundUp (p.slen - o.bufferSize + 1) o.blockSize) = o.fromSource p.slen :=
    (if_neg hc).symm
  rw [if_neg hc]
  dsimp only
  rw [hl, wlp_bind]
  refine wlp_mono (feed_short hx hP ?_) fun _ _ => False.elim
  rw [bytes_length]
  exact hlt

/-- **Without room for what is to be fed a call panics.** -/
theorem teeBufferUpdate_short {dl : Nat} (hb : o.Blocks) (hs : Holds h o held s)
    (hfit : held.length + n < 2 ^ 32)
    (hu : Takes E update P o.state o.blockSize fun len n => len ≤ n) (hx : Scant update P o.state)
    (hP : P s.utc) (hlt : dl < o.fedLength n) :
    wlp (teeBufferUpdate update h (some f) n dl) (fun _ _ => False) s := by
  have hoff := hs.offs
  have htop := o.topUp_le n
  unfold teeBufferUpdate
  rw [if_neg nofun, wlp_bind]
  refine wlp_mono (wlp_of_wpx (fillBlock_spec (f := f) (E := E) hb hs)) ?_
  rintro ⟨done, p⟩ t1 ⟨hu1, hl1, h1, rfl, hdone⟩
  dsimp only at h1 hdone ⊢
  have hP1 : P t1.utc := by
    rw [hu1]
    exact hP
  have hm : ¬ (o.bufferOffs + o.topUp n) % o.blockSize ≠ 0 := by
    intro hm
    have hfed : o.fedLength n = 0 := if_pos hm
    omega
  have hfed : o.fedLength n = ({ o with bufferOffs := o.bufferOffs + o.topUp n } :
      Operation).fedAligned (n - o.topUp n) := if_neg hm
  rw [show done = false by simpa using hdone.not.mpr hm, if_neg (by decide), wlp_bind]
  rw [hfed] at hlt
  have hb1 : ({ o with bufferOffs := o.bufferOffs + o.topUp n } : Operation).Blocks :=
    ⟨hb.pow, hb.two, hb.fits⟩
  have hfit1 : o.bufferOffs + o.topUp n + (n - o.topUp n) < 2 ^ 32 := by omega
  generalize o.topUp n = l at h1 hb1 hm hfit1 hlt ⊢
  by_cases hroom : ({ o with bufferOffs := o.bufferOffs + l } : Operation).fromBuffer (n - l) ≤ dl
  · refine wlp_mono (wlp_of_wpx (feedBuffer_spec (f := f) (p := ⟨0 + l, n - l, dl, 0⟩) hb1 h1
      (Nat.dvd_of_mod_eq_zero (not_not.mp hm)) hfit1 hu hP1 hroom)) ?_
    rintro ⟨done', p⟩ t2 ⟨hg2, rfl, h2⟩
    have hall := Operation.fedAligned_eq (o := { o with bufferOffs := o.bufferOffs + l }) (n := n - l)
    dsimp only at h2 hall ⊢
    rcases h2 with ⟨-, hne, -⟩ | ⟨hdone', hcase, h2⟩
    · have hone : ({ o with bufferOffs := o.bufferOffs + l } : Operation).fedAligned (n - l) = _ :=
        if_pos hne
      rw [hone] at hlt
      exact absurd hroom (Nat.not_le.mpr hlt)
    · rw [hall hcase] at hlt
      rw [hdone', if_neg (by decide), wlp_bind]
      refine wlp_mono (feedSource_short (f := f) h2 hx hg2.utc ?_) fun _ _ => False.elim
      exact Nat.sub_lt_left_of_lt_add hroom hlt
  · refine wlp_mono (feedBuffer_short (f := f) (p := ⟨0 + l, n - l, dl, 0⟩) hb1 h1 hfit1 hx hP1
      (Nat.not_le.mp hroom)) fun _ _ => False.elim

end MTower.Oper
