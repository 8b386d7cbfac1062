import MTower.Client.Transport

/-!
# Layout of the shared window

The first loop of `tee_transport_ioctl` hands out pieces of the window one after the other.  No
line of the source says why the unsigned test `size > shared_end - cursor` is a real bound: it is
because the cursor is always a multiple of 8 and never passes the end of the window.

* `Laid`                      the loop invariant after `n` parameters;
* `stageParam_laid`           one iteration keeps it, or rejects inside the window;
* `stageRequest_laid`         it holds when the hypercall is made;
* `Recorded`                  `copies` holds the client's own words, when the request buffer is
                              client memory;
* `teeTransportIoctl_layout`  the layout seen by the secure side.
-/

set_option linter.unusedVariables false

namespace MTower.Client
open Lib

/-! ## cursor arithmetic -/

theorem alignUp8_eq {v : Nat} (h : v + 7 < 2 ^ 32) : alignUpUintptr v 8 = (v + 7) / 8 * 8 := by
  have e : (v + 8 - 1) % 2 ^ 32 = v + 7 := by
    rw [Nat.mod_eq_of_lt (by omega)]
    omega
  show (v + 8 - 1) % 2 ^ 32 &&& (2 ^ 32 - 2 ^ 3) = _
  rw [e]
  exact land_high_mask (by decide) h

section
variable (w : Window)

/-- Rounding up to 8 does not leave a window whose end is a multiple of 8. -/
theorem Window.alignUp_le {v : Nat} (hv : v ≤ w.limit) :
    v ≤ alignUpUintptr (v % 2 ^ 32) 8 ∧ alignUpUintptr (v % 2 ^ 32) 8 ≤ w.limit ∧
      alignUpUintptr (v % 2 ^ 32) 8 % 8 = 0 := by
  have hl := w.limit_lt
  have ha := w.limit_aligned
  rw [Nat.mod_eq_of_lt (by omega), alignUp8_eq (by omega)]
  omega

theorem payloadAt_eq : payloadAt w = w.base + 8 := by
  have hl := w.limit_lt
  have hr := w.room_le
  have ha := w.base_aligned
  have hd := w.limit_aligned
  unfold payloadAt bufDataSize at *
  rw [Nat.mod_eq_of_lt (by omega), alignUp8_eq (by omega)]
  omega

/-- Below the end of the window the unsigned subtraction is the real one. -/
theorem roomFrom_eq {c : Nat} (h : c ≤ w.limit) : roomFrom w c = w.limit - c := by
  have hl := w.limit_lt
  unfold roomFrom
  rw [show w.limit + 2 ^ 32 - c = (w.limit - c) + 2 ^ 32 by omega, Nat.add_mod_right,
    Nat.mod_eq_of_lt (by omega)]

end

/-! ## the ranges handed out -/

def MemrefCopy.sharedRange (c : MemrefCopy) : Range := ⟨c.sharedBuffer, c.capacity⟩

/-- the buffers of the first `n` parameters that have one -/
def buffers (copies : Nat → MemrefCopy) (n : Nat) : List Range :=
  ((List.range n).filter fun i => (copies i).sharedBuffer ≠ 0).map fun i => (copies i).sharedRange

/-- descriptor, payload and buffers, in the order in which they are handed out -/
def sharedRanges (w : Window) (req : BufData) (copies : Nat → MemrefCopy) (n : Nat) :
    List Range :=
  [⟨w.base, bufDataSize⟩, ⟨payloadAt w, req.bufLen⟩] ++ buffers copies n

theorem buffers_succ (copies : Nat → MemrefCopy) (n : Nat) : buffers copies (n + 1) =
    buffers copies n ++ if (copies n).sharedBuffer ≠ 0 then [(copies n).sharedRange] else [] := by
  unfold buffers
  rw [List.range_succ, List.filter_append, List.map_append]
  by_cases h : (copies n).sharedBuffer = 0 <;> simp [h]

theorem buffers_congr {c d : Nat → MemrefCopy} {n : Nat} (h : ∀ i < n, c i = d i) :
    buffers c n = buffers d n := by
  induction n with
  | zero => rfl
  | succ n ih =>
    rw [buffers_succ, buffers_succ, ih fun i hi => h i (by omega), h n (by omega)]

theorem sharedRanges_skip (w : Window) (req : BufData) {copies : Nat → MemrefCopy} {n : Nat}
    (h : copies n = .zero) : sharedRanges w req copies (n + 1) = sharedRanges w req copies n := by
  unfold sharedRanges
  rw [buffers_succ, h]
  simp [MemrefCopy.zero]

theorem sharedRanges_update (w : Window) (req : BufData) (copies : Nat → MemrefCopy) (n : Nat)
    {c : MemrefCopy} (hc : c.sharedBuffer ≠ 0) :
    sharedRanges w req (Function.update copies n c) (n + 1) =
      sharedRanges w req copies n ++ [c.sharedRange] := by
  unfold sharedRanges
  have e : buffers (Function.update copies n c) n = buffers copies n :=
    buffers_congr fun i hi => Function.update_of_ne (by omega) c copies
  rw [buffers_succ, e, Function.update_self, if_pos hc, List.append_assoc]

/-! ## the loop invariant -/

/-- every room test looked at a cursor inside the window, and nothing outside it is written -/
structure Contained (w : Window) (m : Mem) (s : Stage) : Prop where
  rooms : ∀ c ∈ s.rooms, c ≤ w.limit
  frame : ∀ a, ¬ w.range.Has a → s.mem a = m a

/-- The state after the first `n` parameters. -/
structure Laid (w : Window) (req : BufData) (m : Mem) (n : Nat) (s : Stage) : Prop
    extends Contained w m s where
  cursor_aligned : s.cursor % 8 = 0
  cursor_le : s.cursor ≤ w.limit
  base_lt : w.base < s.cursor
  disjoint : (sharedRanges w req s.copies n).Pairwise Range.Disjoint
  within : ∀ r ∈ sharedRanges w req s.copies n, r.Within w.base s.cursor
  aligned : ∀ i, (s.copies i).sharedBuffer % 8 = 0
  later : ∀ i, n ≤ i → s.copies i = .zero

theorem Contained.copy {w : Window} {m : Mem} {s : Stage} (h : Contained w m s)
    {dst src len : Nat} (hr : (Range.mk dst len).Within w.base w.limit) :
    ∀ a, ¬ w.range.Has a → s.mem.copy dst src len a = m a := by
  intro a ha
  rw [Mem.copy_out _ fun hd => ha (w.has_of_within hr hd), h.frame a ha]

theorem store32_frame {w : Window} {m n : Mem} (h : ∀ a, ¬ w.range.Has a → n a = m a)
    {p v : Nat} (hr : (Range.mk p 4).Within w.base w.limit) :
    ∀ a, ¬ w.range.Has a → n.store32 p v a = m a := by
  intro a ha
  rw [Mem.store32_out _ fun hd => ha (w.has_of_within hr hd), h a ha]

theorem contained_nothing (w : Window) (m : Mem) : Contained w m (stageNothing w m) where
  rooms := by
    intro c hc
    have hr := w.room_le
    rw [stageNothing, List.mem_singleton, payloadAt_eq] at hc
    unfold bufDataSize at hr
    omega
  frame := fun a ha => rfl

theorem laid_payload (w : Window) (req : BufData) (m : Mem)
    (hlen : ¬ req.bufLen > roomFrom w (payloadAt w)) : Laid w req m 0 (stagePayload w req m) := by
  have hr : w.base + 8 ≤ w.limit := w.room_le
  have hp := payloadAt_eq w
  rw [roomFrom_eq w (by omega)] at hlen
  obtain ⟨hle, hlim, hmod⟩ := w.alignUp_le (v := payloadAt w + req.bufLen) (by omega)
  refine { rooms := (contained_nothing w m).rooms, cursor_aligned := hmod, cursor_le := hlim
           frame := ?_, base_lt := ?_, disjoint := ?_, within := ?_
           aligned := fun i => rfl, later := fun i hi => rfl }
  · refine store32_frame (store32_frame ?_ ?_) ?_
    · exact (contained_nothing w m).copy ⟨by simp only; omega, by simp only [Range.stop]; omega⟩
    · exact ⟨le_refl _, by simp only [Range.stop]; omega⟩
    · exact ⟨by simp only; omega, by simp only [Range.stop]; omega⟩
  · show w.base < alignUpUintptr _ 8
    omega
  · show [Range.mk w.base bufDataSize, ⟨payloadAt w, req.bufLen⟩].Pairwise Range.Disjoint
    rw [List.pairwise_pair]
    exact Or.inl (by simp only [Range.stop, bufDataSize]; omega)
  · intro r hr'
    show r.Within w.base (alignUpUintptr _ 8)
    rcases List.mem_cons.mp hr' with rfl | hr'
    · exact ⟨le_refl _, by simp only [Range.stop, bufDataSize]; omega⟩
    · rcases List.mem_cons.mp hr' with rfl | hr'
      · exact ⟨by simp only; omega, by simp only [Range.stop]; omega⟩
      · exact absurd hr' (by simp [buffers])

/-! ## one iteration -/

/-- the record the first loop makes for a memref parameter at cursor `c` -/
def recordOf (m : Mem) (params n c : Nat) : MemrefCopy :=
  ⟨memrefShmOffs m params n, c, memrefSize m params n, paramType m params n⟩

/-- the memory after the copy-in of a memref parameter at cursor `c` -/
def copiedIn (m : Mem) (params sharedParams n c : Nat) : Mem :=
  Mem.store32
    (if memrefSize m params n ≠ 0 ∧ paramType m params n ≠ attrTypeMemrefOutput then
      m.copy c (memrefShmOffs m params n) (memrefSize m params n) else m)
    (shmOffsAt sharedParams n) c

/-- What one iteration of the first loop can do. -/
theorem stageParam_cases (w : Window) (cp sp : Nat) (s : Stage) (n : Nat) :
    (¬ IsMemref (paramType s.mem cp n) ∧ stageParam w cp sp s n = .ok s) ∨
    (IsMemref (paramType s.mem cp n) ∧
      stageParam w cp sp s n = .error { s with rooms := s.cursor :: s.rooms }) ∨
    (IsMemref (paramType s.mem cp n) ∧ memrefSize s.mem cp n ≤ roomFrom w s.cursor ∧
      stageParam w cp sp s n = .ok
        { mem := copiedIn s.mem cp sp n s.cursor
          cursor := alignUpUintptr ((s.cursor + memrefSize s.mem cp n) % 2 ^ 32) 8
          copies := Function.update s.copies n (recordOf s.mem cp n s.cursor)
          rooms := s.cursor :: s.rooms }) := by
  unfold stageParam
  by_cases ht : IsMemref (paramType s.mem cp n)
  · right
    by_cases hs : memrefSize s.mem cp n > roomFrom w s.cursor ∨
        (memrefSize s.mem cp n ≠ 0 ∧ memrefShmOffs s.mem cp n = 0)
    · left
      refine ⟨ht, ?_⟩
      simp only [ht, not_true_eq_false, if_false]
      rw [if_pos hs]
    · right
      refine ⟨ht, by omega, ?_⟩
      simp only [ht, not_true_eq_false, if_false]
      rw [if_neg hs]
      rfl
  · left
    refine ⟨ht, ?_⟩
    rw [if_pos ht]

theorem contained_push {w : Window} {m : Mem} {s : Stage} (h : Contained w m s)
    (hc : s.cursor ≤ w.limit) : ∀ c ∈ s.cursor :: s.rooms, c ≤ w.limit := by
  intro c hcm
  rcases List.mem_cons.mp hcm with rfl | hcm
  · exact hc
  · exact h.rooms c hcm

section
variable {w : Window} {req : BufData} {m : Mem} {h : Header}

/-- the parameter array of an accepted header lies in the request -/
theorem Header.offs_le (hh : ¬ h.Bad req) {n : Nat} (hn : n < h.numParams) :
    h.paramsOffset + paramSize * n + 16 ≤ req.bufLen := by
  unfold Header.Bad paramSize at hh
  unfold paramSize
  push Not at hh
  have h2 := hh.2 (by omega)
  omega

theorem Laid.payload_le {n : Nat} {s : Stage} (hs : Laid w req m n s) :
    payloadAt w + req.bufLen ≤ w.limit := by
  have hp := hs.within ⟨payloadAt w, req.bufLen⟩ (by simp [sharedRanges])
  have hc := hs.cursor_le
  simp only [Range.Within, Range.stop] at hp
  omega

/-- the pointer that the iteration overwrites lies in the payload -/
theorem shmOffsAt_within {n : Nat} {s : Stage} (hs : Laid w req m n s) (hh : ¬ h.Bad req)
    (hn : n < h.numParams) :
    (Range.mk (shmOffsAt (payloadAt w + h.paramsOffset) n) 4).Within w.base w.limit := by
  have ho := Header.offs_le hh hn
  have hp := hs.payload_le
  have he := payloadAt_eq w
  simp only [Range.Within, Range.stop, shmOffsAt]
  omega

theorem copiedIn_frame {n : Nat} {s : Stage} (hs : Laid w req m n s) (hh : ¬ h.Bad req)
    (hn : n < h.numParams) {cp : Nat} (hsize : memrefSize s.mem cp n ≤ roomFrom w s.cursor) :
    ∀ a, ¬ w.range.Has a →
      copiedIn s.mem cp (payloadAt w + h.paramsOffset) n s.cursor a = m a := by
  refine store32_frame ?_ (shmOffsAt_within hs hh hn)
  split
  · refine hs.toContained.copy ?_
    have hb := hs.base_lt
    have hc := hs.cursor_le
    rw [roomFrom_eq w hc] at hsize
    exact ⟨by simp only; omega, by simp only [Range.stop]; omega⟩
  · exact hs.frame

/-- **One iteration keeps the invariant, or rejects with nothing written outside the window.** -/
theorem stageParam_laid {n : Nat} {s : Stage} (hs : Laid w req m n s) (hh : ¬ h.Bad req)
    (hn : n < h.numParams) (cp : Nat) :
    post (Contained w m) (Laid w req m (n + 1))
      (stageParam w cp (payloadAt w + h.paramsOffset) s n) := by
  rcases stageParam_cases w cp (payloadAt w + h.paramsOffset) s n with
    ⟨ht, e⟩ | ⟨ht, e⟩ | ⟨ht, hsize, e⟩
  · rw [e, post_ok]
    have hz := hs.later n (le_refl n)
    exact { hs with
      disjoint := by rw [sharedRanges_skip w req hz]; exact hs.disjoint
      within := by rw [sharedRanges_skip w req hz]; exact hs.within
      later := fun i hi => hs.later i (by omega) }
  · rw [e, post_error]
    exact ⟨contained_push hs.toContained hs.cursor_le, hs.frame⟩
  · have hc := hs.cursor_le
    have hb := hs.base_lt
    have hfit := hsize
    rw [roomFrom_eq w hc] at hfit
    obtain ⟨hle, hlim, hmod⟩ :=
      w.alignUp_le (v := s.cursor + memrefSize s.mem cp n) (by omega)
    have hr : (recordOf s.mem cp n s.cursor).sharedBuffer ≠ 0 := by
      show s.cursor ≠ 0
      omega
    rw [e, post_ok]
    refine { rooms := contained_push hs.toContained hc, frame := copiedIn_frame hs hh hn hsize
             cursor_aligned := hmod, cursor_le := hlim, base_lt := ?_, disjoint := ?_
             within := ?_, aligned := ?_, later := ?_ }
    · show w.base < alignUpUintptr _ 8
      omega
    · rw [sharedRanges_update w req s.copies n hr]
      exact pairwise_append_after hs.disjoint fun r hr' => (hs.within r hr').2
    · rw [sharedRanges_update w req s.copies n hr]
      intro r hr'
      show w.base ≤ r.start ∧ r.stop ≤ alignUpUintptr _ 8
      rcases List.mem_append.mp hr' with hr' | hr'
      · have h2 := hs.within r hr'
        exact ⟨h2.1, by have := h2.2; omega⟩
      · rw [List.mem_singleton] at hr'
        subst hr'
        exact ⟨hb.le, hle⟩
    · intro i
      by_cases hi : i = n
      · subst hi
        show (Function.update s.copies i _ i).sharedBuffer % 8 = 0
        rw [Function.update_self]
        exact hs.cursor_aligned
      · show (Function.update s.copies n _ i).sharedBuffer % 8 = 0
        rw [Function.update_of_ne hi]
        exact hs.aligned i
    · intro i hi
      show Function.update s.copies n _ i = .zero
      rw [Function.update_of_ne (by omega)]
      exact hs.later i (by omega)

end

/-! ## what the records hold -/

/-- the request buffer is client memory: it does not meet the window -/
def BufData.Outside (req : BufData) (w : Window) : Prop :=
  ∀ a, req.range.Has a → ¬ w.range.Has a

/-- The first `n` records are those of the parameters in `m`: none for a parameter that is no
memref, else the client's pointer, size and type next to a buffer in the window. -/
def Recorded (m : Mem) (cp n : Nat) (copies : Nat → MemrefCopy) : Prop :=
  ∀ i < n, (¬ IsMemref (paramType m cp i) → copies i = .zero) ∧
    (IsMemref (paramType m cp i) → (copies i).sharedBuffer ≠ 0 ∧
      copies i = recordOf m cp i (copies i).sharedBuffer)

section
variable {w : Window} {req : BufData} {m : Mem} {h : Header}

/-- a word of the request reads as before while only the window is written -/
theorem Contained.load32_eq {s : Stage} (hs : Contained w m s) (hout : req.Outside w) {p : Nat}
    (hp : req.bufPtr ≤ p ∧ p + 4 ≤ req.bufPtr + req.bufLen) : s.mem.load32 p = m.load32 p := by
  refine Mem.load32_congr fun a ha => hs.frame a (hout a ?_)
  simp only [Range.Has, BufData.range] at *
  omega

theorem Contained.param_eq {s : Stage} (hs : Contained w m s) (hout : req.Outside w)
    (hh : ¬ h.Bad req) {n : Nat} (hn : n < h.numParams) :
    paramType s.mem (req.bufPtr + h.paramsOffset) n
        = paramType m (req.bufPtr + h.paramsOffset) n ∧
      memrefSize s.mem (req.bufPtr + h.paramsOffset) n
        = memrefSize m (req.bufPtr + h.paramsOffset) n ∧
      memrefShmOffs s.mem (req.bufPtr + h.paramsOffset) n
        = memrefShmOffs m (req.bufPtr + h.paramsOffset) n := by
  have ho := Header.offs_le hh hn
  unfold paramType memrefSize memrefShmOffs attrAt sizeAt shmOffsAt
  refine ⟨?_, ?_, ?_⟩
  · rw [hs.load32_eq hout ⟨by omega, by omega⟩]
  · exact hs.load32_eq hout ⟨by omega, by omega⟩
  · exact hs.load32_eq hout ⟨by omega, by omega⟩

theorem Recorded.skip {cp n : Nat} {copies : Nat → MemrefCopy} (hr : Recorded m cp n copies)
    (ht : ¬ IsMemref (paramType m cp n)) (hz : copies n = .zero) :
    Recorded m cp (n + 1) copies := by
  intro i hi
  by_cases hin : i = n
  · subst hin
    exact ⟨fun _ => hz, fun hm => absurd hm ht⟩
  · exact hr i (by omega)

theorem Recorded.push {cp n c : Nat} {copies : Nat → MemrefCopy} (hr : Recorded m cp n copies)
    (ht : IsMemref (paramType m cp n)) (hc : c ≠ 0) :
    Recorded m cp (n + 1) (Function.update copies n (recordOf m cp n c)) := by
  intro i hi
  by_cases hin : i = n
  · subst hin
    rw [Function.update_self]
    exact ⟨fun hm => absurd ht hm, fun _ => ⟨hc, rfl⟩⟩
  · rw [Function.update_of_ne hin]
    exact hr i (by omega)

theorem stageParam_recorded {n : Nat} {s : Stage} (hs : Laid w req m n s)
    (hout : req.Outside w) (hr : Recorded m (req.bufPtr + h.paramsOffset) n s.copies)
    (hh : ¬ h.Bad req) (hn : n < h.numParams) (sp : Nat) :
    post (fun _ => True) (fun t => Recorded m (req.bufPtr + h.paramsOffset) (n + 1) t.copies)
      (stageParam w (req.bufPtr + h.paramsOffset) sp s n) := by
  obtain ⟨htype, hsize, hoffs⟩ := hs.toContained.param_eq hout hh hn
  rcases stageParam_cases w (req.bufPtr + h.paramsOffset) sp s n with
    ⟨ht, e⟩ | ⟨ht, e⟩ | ⟨ht, -, e⟩
  · rw [e, post_ok]
    rw [htype] at ht
    exact hr.skip ht (hs.later n (le_refl n))
  · rw [e, post_error]
    trivial
  · rw [e, post_ok]
    have hb := hs.base_lt
    have hrec : recordOf s.mem (req.bufPtr + h.paramsOffset) n s.cursor
        = recordOf m (req.bufPtr + h.paramsOffset) n s.cursor := by
      unfold recordOf
      rw [htype, hsize, hoffs]
    rw [htype] at ht
    rw [hrec]
    exact hr.push ht (by omega)

end

/-! ## the whole request -/

section
variable (w : Window) (cmd : Nat) (req : BufData) (m : Mem)

/-- What holds at the hypercall. -/
structure Staged (h : Header) (s : Stage) : Prop where
  header : readHeader cmd req (stagePayload w req m).mem = some h
  fits : ¬ h.Bad req
  laid : Laid w req m h.numParams s
  recorded : req.Outside w → Recorded m (req.bufPtr + h.paramsOffset) h.numParams s.copies

theorem stageRequest_staged :
    post (Contained w m) (fun p => Staged w cmd req m p.1 p.2) (stageRequest w cmd req m) := by
  unfold stageRequest
  by_cases h0 : req.bufPtr = 0 ∨ req.bufLen = 0
  · rw [if_pos h0, post_error]
    exact ⟨fun c hc => absurd hc (by simp), fun a ha => rfl⟩
  rw [if_neg h0]
  by_cases hlen : req.bufLen > roomFrom w (payloadAt w)
  · rw [if_pos hlen, post_error]
    exact contained_nothing w m
  rw [if_neg hlen]
  have hl := laid_payload w req m hlen
  cases hh : readHeader cmd req (stagePayload w req m).mem with
  | none =>
    simp only [hh]
    exact hl.toContained
  | some h =>
    simp only [hh]
    by_cases hbad : h.Bad req
    · rw [if_pos hbad, post_error]
      exact hl.toContained
    rw [if_neg hbad]
    have hloop := foldlM_range_inv (E := Contained w m)
      (f := stageParam w (req.bufPtr + h.paramsOffset) (payloadAt w + h.paramsOffset))
      (k := h.numParams) (s := stagePayload w req m)
      (fun n s => Laid w req m n s ∧
        (req.Outside w → Recorded m (req.bufPtr + h.paramsOffset) n s.copies))
      (by
        intro n s hn hs
        have h1 := stageParam_laid hs.1 hbad hn (req.bufPtr + h.paramsOffset)
        cases e : stageParam w (req.bufPtr + h.paramsOffset) (payloadAt w + h.paramsOffset) s n with
        | error t =>
          rw [e] at h1
          exact h1
        | ok t =>
          rw [e] at h1
          refine ⟨h1, fun hout => ?_⟩
          have h2 := stageParam_recorded hs.1 hout (hs.2 hout) hbad hn
            (payloadAt w + h.paramsOffset)
          rw [e] at h2
          exact h2)
      ⟨hl, fun _ i hi => absurd hi (by omega)⟩
    refine post_bind hloop ?_
    intro t ht
    exact ⟨hh, hbad, ht.1, ht.2⟩

end

/-- **The layout of the shared window.**  At the hypercall the descriptor, the payload and the
buffers are pairwise disjoint ranges of the window, each buffer starts at a multiple of 8 and has
the size the client sent.  Every `shared_end - cursor` was taken at a cursor inside the window, and
a request that is rejected returns `-1` with no byte outside the window written. -/
theorem teeTransportIoctl_layout (w : Window) (cmd : Nat) (req : BufData) (m : Mem) :
    (∀ h s, stageRequest w cmd req m = .ok (h, s) →
      (sharedRanges w req s.copies h.numParams).Pairwise Range.Disjoint ∧
      (∀ r ∈ sharedRanges w req s.copies h.numParams, r.Within w.base w.limit) ∧
      (∀ n < h.numParams, (s.copies n).sharedBuffer % 8 = 0) ∧
      (req.Outside w → ∀ n < h.numParams,
        (IsMemref (paramType m (req.bufPtr + h.paramsOffset) n) ↔ (s.copies n).sharedBuffer ≠ 0) ∧
        (IsMemref (paramType m (req.bufPtr + h.paramsOffset) n) →
          (s.copies n).capacity = memrefSize m (req.bufPtr + h.paramsOffset) n)) ∧
      (∀ c ∈ s.rooms, c ≤ w.limit) ∧
      (∀ a, ¬ w.range.Has a → s.mem a = m a)) ∧
    (∀ s, stageRequest w cmd req m = .error s →
      (∀ c ∈ s.rooms, c ≤ w.limit) ∧
      (∀ a, ¬ w.range.Has a → s.mem a = m a) ∧
      ∀ reply rc, teeTransportIoctl w cmd (some req) m reply rc = (s.mem, -1)) := by
  have hp := stageRequest_staged w cmd req m
  refine ⟨?_, ?_⟩
  · intro h s e
    rw [e, post_ok] at hp
    have hl := hp.laid
    refine ⟨hl.disjoint, ?_, fun n hn => hl.aligned n, ?_, hl.rooms, hl.frame⟩
    · intro r hr
      exact ⟨(hl.within r hr).1, le_trans (hl.within r hr).2 hl.cursor_le⟩
    · intro hout n hn
      obtain ⟨hz, hm⟩ := hp.recorded hout n hn
      refine ⟨⟨fun ht => (hm ht).1, ?_⟩, ?_⟩
      · intro hne
        by_contra ht
        rw [hz ht] at hne
        exact hne rfl
      · intro ht
        rw [(hm ht).2]
        rfl
  · intro s e
    rw [e, post_error] at hp
    refine ⟨hp.rooms, hp.frame, fun reply rc => ?_⟩
    simp only [teeTransportIoctl, e]

end MTower.Client
