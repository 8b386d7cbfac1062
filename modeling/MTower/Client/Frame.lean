import MTower.Client.Layout

/-!
# Frame of the transport against an arbitrary secure side

After the hypercall the whole window is the peer's: sizes, pointers and types read from it can be
anything.  The copies back use only the records made before the call (`Recorded`), so the peer
chooses how many bytes come back, up to the client's own size, and nothing else.

* `copyBack_changes`, `copyBacks_changes`  the second loop writes output buffers only;
* `restoreOffs_load`, `restores_load`      the third loop puts the client's pointers back;
* `teeTransportIoctl_frame`                what a call can change in client memory.
-/

set_option linter.unusedVariables false

namespace MTower.Client
open Lib

/-- the parameter is `MEMREF_OUTPUT` or `MEMREF_INOUT` -/
def IsOutput (type : Nat) : Prop := type = attrTypeMemrefOutput ∨ type = attrTypeMemrefInout

instance (type : Nat) : Decidable (IsOutput type) := inferInstanceAs (Decidable (_ ∨ _))

theorem isOutput_iff (type : Nat) :
    IsOutput type ↔ IsMemref type ∧ type ≠ attrTypeMemrefInput := by
  unfold IsOutput IsMemref attrTypeMemrefInput attrTypeMemrefOutput attrTypeMemrefInout
  omega

/-- the client's buffer of parameter `n` -/
def clientBuf (m : Mem) (cp n : Nat) : Range := ⟨memrefShmOffs m cp n, memrefSize m cp n⟩

/-! ## the second loop -/

section
variable {m : Mem} {cp k : Nat} {copies : Nat → MemrefCopy}

theorem returnedSize_le (x : Mem) (sp n capacity : Nat) :
    returnedSize x sp n capacity ≤ capacity := by
  unfold returnedSize
  split <;> omega

theorem copyBack_changes (hr : Recorded m cp k copies) (sp : Nat) (x : Mem) {n : Nat} (hn : n < k)
    {a : Nat} (ha : IsOutput (paramType m cp n) → ¬ (clientBuf m cp n).Has a) :
    copyBack sp copies x n a = x a := by
  unfold copyBack
  by_cases hb : (copies n).sharedBuffer = 0
  · rw [if_pos hb]
  rw [if_neg hb]
  by_cases ht : IsMemref (paramType m cp n)
  · rw [((hr n hn).2 ht).2]
    have hle := returnedSize_le x sp n (memrefSize m cp n)
    by_cases hcopy : returnedSize x sp n (memrefSize m cp n) ≠ 0 ∧
        paramType m cp n ≠ attrTypeMemrefInput
    · have hnot := ha ((isOutput_iff _).mpr ⟨ht, hcopy.2⟩)
      rw [recordOf, if_pos hcopy]
      refine Mem.copy_out x fun hd => hnot ?_
      simp only [Range.Has, clientBuf] at hd ⊢
      omega
    · rw [recordOf, if_neg hcopy]
  · rw [(hr n hn).1 ht] at hb
    exact absurd rfl hb

theorem copyBacks_changes (hr : Recorded m cp k copies) (sp : Nat) (x : Mem) {a : Nat}
    (ha : ∀ n < k, IsOutput (paramType m cp n) → ¬ (clientBuf m cp n).Has a) :
    (List.range k).foldl (copyBack sp copies) x a = x a := by
  refine foldl_range_inv (fun _ (y : Mem) => y a = x a) ?_ rfl
  intro n y hn hy
  rw [copyBack_changes hr sp y hn (ha n hn), hy]

end

/-! ## the third loop -/

theorem restoreOffs_out (cp : Nat) (copies : Nat → MemrefCopy) (x : Mem) {n a : Nat}
    (ha : ¬ (Range.mk (shmOffsAt cp n) 4).Has a) : restoreOffs cp copies x n a = x a := by
  unfold restoreOffs
  split
  · exact Mem.store32_out x ha
  · rfl

theorem restoreOffs_load_other (cp : Nat) (copies : Nat → MemrefCopy) (x : Mem) {n i : Nat}
    (hi : i ≠ n) : memrefShmOffs (restoreOffs cp copies x n) cp i = memrefShmOffs x cp i := by
  have hd : (Range.mk (shmOffsAt cp n) 4).Disjoint ⟨shmOffsAt cp i, 4⟩ := by
    simp only [Range.Disjoint, Range.stop, shmOffsAt, paramSize]
    omega
  exact Mem.load32_congr fun a ha => restoreOffs_out cp copies x (hd.not_has ha)

theorem restoreOffs_load (cp : Nat) {copies : Nat → MemrefCopy} (x : Mem) {n : Nat}
    (hb : (copies n).sharedBuffer ≠ 0) (hc : (copies n).clientBuffer < 2 ^ 32) :
    memrefShmOffs (restoreOffs cp copies x n) cp n = (copies n).clientBuffer := by
  unfold restoreOffs memrefShmOffs
  rw [if_pos hb]
  exact Mem.load32_store32 x _ hc

section
variable {m : Mem} {cp k : Nat} {copies : Nat → MemrefCopy}

theorem restores_load (hr : Recorded m cp k copies) (x : Mem) :
    ∀ i < k, IsMemref (paramType m cp i) →
      memrefShmOffs ((List.range k).foldl (restoreOffs cp copies) x) cp i
        = memrefShmOffs m cp i := by
  refine foldl_range_inv (fun n y => ∀ i < n, IsMemref (paramType m cp i) →
    memrefShmOffs y cp i = memrefShmOffs m cp i) ?_ (fun i hi => absurd hi (by omega))
  intro n y hn hy i hi ht
  by_cases hin : i = n
  · subst hin
    obtain ⟨hb, hrec⟩ := (hr i hn).2 ht
    have hc : (copies i).clientBuffer = memrefShmOffs m cp i := by
      rw [hrec]
      rfl
    rw [restoreOffs_load cp y hb (by rw [hc]; exact Mem.load32_lt m _), hc]
  · rw [restoreOffs_load_other cp copies y hin]
    exact hy i (by omega) ht

end

theorem restores_out (cp : Nat) (copies : Nat → MemrefCopy) (k : Nat) (x : Mem) {a : Nat}
    (ha : ∀ n < k, ¬ (Range.mk (shmOffsAt cp n) 4).Has a) :
    (List.range k).foldl (restoreOffs cp copies) x a = x a := by
  refine foldl_range_inv (fun _ (y : Mem) => y a = x a) ?_ rfl
  intro n y hn hy
  rw [restoreOffs_out cp copies y (ha n hn), hy]

/-! ## the whole call -/

section
variable {w : Window} {cmd : Nat} {req : BufData} {m : Mem} {h : Header} {s : Stage}

/-- the header is the one the client wrote -/
theorem Staged.readHeader_eq (hs : Staged w cmd req m h s) (hout : req.Outside w)
    (hc : Contained w m (stagePayload w req m)) : readHeader cmd req m = some h := by
  have hload : ∀ p, req.bufPtr ≤ p ∧ p + 4 ≤ req.bufPtr + req.bufLen →
      (stagePayload w req m).mem.load32 p = m.load32 p := fun p hp => hc.load32_eq hout hp
  rw [← hs.header]
  unfold readHeader openArgSize openArgNumParams invokeArgSize invokeArgNumParams
  split
  · split
    · rfl
    · rw [hload _ ⟨by omega, by omega⟩]
  · split
    · split
      · rfl
      · rw [hload _ ⟨by omega, by omega⟩]
    · rfl

theorem finishRequest_out (hs : Staged w cmd req m h s) (hout : req.Outside w) (x : Mem)
    {a : Nat} (hreq : ¬ req.range.Has a)
    (ha : ∀ n < h.numParams, IsOutput (paramType m (req.bufPtr + h.paramsOffset) n) →
      ¬ (clientBuf m (req.bufPtr + h.paramsOffset) n).Has a) :
    finishRequest w req h s.copies x a = x a := by
  unfold finishRequest
  rw [restores_out, Mem.copy_out _ hreq, copyBacks_changes (hs.recorded hout) _ _ ha]
  intro n hn hd
  have ho := Header.offs_le hs.fits hn
  refine hreq ?_
  simp only [Range.Has, BufData.range, shmOffsAt] at hd ⊢
  omega

theorem finishRequest_load (hs : Staged w cmd req m h s) (hout : req.Outside w) (x : Mem) :
    ∀ n < h.numParams, IsMemref (paramType m (req.bufPtr + h.paramsOffset) n) →
      memrefShmOffs (finishRequest w req h s.copies x) (req.bufPtr + h.paramsOffset) n
        = memrefShmOffs m (req.bufPtr + h.paramsOffset) n :=
  restores_load (hs.recorded hout) _

end

/-- the first room test passed -/
theorem stageRequest_fits {w : Window} {cmd : Nat} {req : BufData} {m : Mem} {p : Header × Stage}
    (e : stageRequest w cmd req m = .ok p) : ¬ req.bufLen > roomFrom w (payloadAt w) := by
  intro hlen
  unfold stageRequest at e
  rw [if_pos hlen] at e
  split at e <;> cases e

/-- **What a call can change in client memory.**  For every content `reply` of the window after
the hypercall and every return code: outside the window a call changes at most the request buffer
and, for each output parameter, the first bytes of that parameter's own buffer, as many as the
client said it has; every memref pointer is what the client wrote.  A call that returns before
the hypercall changes no client memory. -/
theorem teeTransportIoctl_frame (w : Window) (cmd : Nat) (req : BufData) (hout : req.Outside w)
    (m reply : Mem) (rc : Int) :
    (∀ h s, stageRequest w cmd req m = .ok (h, s) →
      readHeader cmd req m = some h ∧
      (teeTransportIoctl w cmd (some req) m reply rc).2 = rc ∧
      (∀ a, ¬ w.range.Has a → ¬ req.range.Has a →
        (∀ n < h.numParams, IsOutput (paramType m (req.bufPtr + h.paramsOffset) n) →
          ¬ (clientBuf m (req.bufPtr + h.paramsOffset) n).Has a) →
        (teeTransportIoctl w cmd (some req) m reply rc).1 a = m a) ∧
      (∀ n < h.numParams, IsMemref (paramType m (req.bufPtr + h.paramsOffset) n) →
        memrefShmOffs (teeTransportIoctl w cmd (some req) m reply rc).1
            (req.bufPtr + h.paramsOffset) n
          = memrefShmOffs m (req.bufPtr + h.paramsOffset) n)) ∧
    (∀ s, stageRequest w cmd req m = .error s →
      (teeTransportIoctl w cmd (some req) m reply rc).2 = -1 ∧
      ∀ a, ¬ w.range.Has a → (teeTransportIoctl w cmd (some req) m reply rc).1 a = m a) ∧
    teeTransportIoctl w cmd none m reply rc = (m, -1) := by
  have hp := stageRequest_staged w cmd req m
  refine ⟨?_, ?_, rfl⟩
  · intro h s e
    have hc := (laid_payload w req m (stageRequest_fits e)).toContained
    rw [e, post_ok] at hp
    have hr : teeTransportIoctl w cmd (some req) m reply rc
        = (finishRequest w req h s.copies (s.mem.overlay w.range reply), rc) := by
      simp only [teeTransportIoctl, e]
    rw [hr]
    refine ⟨hp.readHeader_eq hout hc, rfl, ?_, finishRequest_load hp hout _⟩
    intro a hw hreq ha
    show finishRequest w req h s.copies (s.mem.overlay w.range reply) a = m a
    rw [finishRequest_out hp hout _ hreq ha, Mem.overlay_out _ _ hw, hp.laid.frame a hw]
  · intro s e
    rw [e, post_error] at hp
    have hr : teeTransportIoctl w cmd (some req) m reply rc = (s.mem, -1) := by
      simp only [teeTransportIoctl, e]
    rw [hr]
    exact ⟨rfl, hp.frame⟩

/-- an invoke request at `0x1000` with one output memref of 16 bytes at `0x2000` -/
def sampleReq : BufData := ⟨0x1000, 40⟩

def sampleMem : Mem :=
  ((Mem.store32 (fun _ => 0) (0x1000 + 20) 1).store32 0x1018 6).store32 0x101c 0x2000
    |>.store32 0x1020 16

theorem sampleReq_outside : sampleReq.Outside Window.crosscon := by
  intro a ha hw
  rw [Window.has_iff] at hw
  simp only [Range.Has, BufData.range, sampleReq, Window.crosscon] at ha hw
  omega

theorem teeTransportIoctl_frame_sample :
    (stageRequest Window.crosscon iocInvoke sampleReq sampleMem).isOk = true ∧
      memrefShmOffs (teeTransportIoctl Window.crosscon iocInvoke (some sampleReq) sampleMem
        (fun _ => 0xff) 0).1 0x1018 0 = 0x2000 := by
  have hok : (stageRequest Window.crosscon iocInvoke sampleReq sampleMem).isOk = true := by
    decide +kernel
  refine ⟨hok, ?_⟩
  have hframe := (teeTransportIoctl_frame Window.crosscon iocInvoke sampleReq sampleReq_outside
    sampleMem (fun _ => 0xff) 0).1
  cases e : stageRequest Window.crosscon iocInvoke sampleReq sampleMem with
  | error s => rw [e] at hok; cases hok
  | ok p =>
    obtain ⟨hh, -, -, hoffs⟩ := hframe p.1 p.2 e
    have hhead : readHeader iocInvoke sampleReq sampleMem = some ⟨1, 24⟩ := by decide +kernel
    rw [hhead, Option.some.injEq] at hh
    rw [← hh] at hoffs
    exact hoffs 0 (by decide) (by decide +kernel)

end MTower.Client
