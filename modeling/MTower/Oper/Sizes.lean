import MTower.Oper.Reached

/-!
# The size that `TEE_CipherUpdate` asks for

* `Running`            an initialised cipher operation;
* `cipherUpdate_spec`, `cipherUpdate_panics`, `cipherUpdate_asks`  what a call with valid arguments
                       does, by the room it is given;
* `sufficient_iff`     when the room that the call asks for is enough;
* `sufficient_fails`   33 bytes for AES-XTS.
-/

set_option linter.unusedVariables false

namespace MTower.Oper
open Lib Kernel Cryp

variable {c : Crypto} {s t : Sys} {h k m n dl : Nat} {o o' : Operation} {a : Setup}
  {f : Nat → UInt8} {dest : Bool}

/-! ## initialised operations -/

/-- an initialised cipher operation -/
structure Running (c : Crypto) (h : Nat) (a : Setup) (o : Operation) (s : Sys) : Prop where
  ne : h ≠ 0
  handle : s.heap.blocks h = some (.op o)
  attached : Attached c o s.utc
  cipher : o.info.operationClass = teeOperationCipher
  initialized : o.has teeHandleFlagInitialized = true
  active : o.operationState = teeOperationStateActive
  setup : CipherSetup o.info.algorithm o.info.mode a
  seat : Seat o.info.algorithm o.info.mode a o s

theorem ReachedAt.running (hr : ReachedAt c m k h s) (hclass : teeAlgGetClass m = teeOperationCipher)
    (ho : s.heap.blocks h = some (.op o)) (hi : o.has teeHandleFlagInitialized = true) :
    ∃ a, Running c h a o s := by
  obtain ⟨o1, h1, hg⟩ := hr.good
  obtain ⟨a, ha, o2, h2, hs⟩ := hr.seat
  rw [ho] at h1 h2
  cases h1
  cases h2
  have hset := cipherSetup ha hclass
  have hs' := hs
  rw [← hs.algorithm, ← hs.mode] at hset hs'
  refine ⟨a, hr.ne, ho, hg.toAttached, ?_, hi, hg.active.mpr hi, hset, hs'⟩
  rw [hg.cls, hs.algorithm]
  exact hclass

/-- how many bytes an update puts out -/
def Operation.output (o : Operation) (n : Nat) : Nat := if 1 < o.blockSize then o.fedLength n else n

theorem Running.blocks (hr : Running c h a o s) (h1 : 1 < o.blockSize) : o.Blocks := by
  have hsz := hr.seat.size
  have h16 : o.blockSize = 8 ∨ o.blockSize = 16 := by
    rcases hr.setup.sizes with ⟨hone, -, -⟩ | ⟨hs, -⟩
    · omega
    · omega
  refine ⟨?_, h1, ?_⟩
  · rcases h16 with e | e
    · exact ⟨3, e⟩
    · exact ⟨4, e⟩
  · unfold Operation.bufferSize
    split <;> omega

theorem Running.holds (hr : Running c h a o s) (h1 : 1 < o.blockSize) :
    ∃ held, Holds h o held s := by
  obtain ⟨d, hd, hlen, hle⟩ := hr.seat.buffer (by rw [← hr.seat.size]; exact h1)
  have htake : (d.take o.bufferOffs).length = o.bufferOffs := by
    rw [List.length_take, Nat.min_eq_left hle]
  refine ⟨d.take o.bufferOffs, hr.handle, htake.symm, d.drop o.bufferOffs, ?_, ?_⟩
  · rw [List.take_append_drop]
    exact hd
  · rw [htake, List.length_drop]
    omega

/-- the operation with other bytes in its buffer -/
theorem Running.buffered {held : List UInt8} {i : Nat} (hr : Running c h a o s)
    (hu : t.utc = s.utc) (hh : Holds h { o with bufferOffs := i } held t) :
    Running c h a { o with bufferOffs := i } t := by
  have ha := hr.attached
  refine ⟨hr.ne, hh.handle, ?_, hr.cipher, hr.initialized, hr.active, hr.setup, rfl, rfl, hr.seat.size,
    hr.seat.two, fun _ => ?_⟩
  · rw [hu]
    exact ⟨ha.core, ha.cls, ha.kind, ha.two, ha.state, ha.key1, ha.key2, ha.noKey2⟩
  · obtain ⟨data, hd, hl⟩ := hh.buffer
    have hoffs : i = held.length := hh.offs
    refine ⟨held ++ data, hd, ?_, ?_⟩
    · rw [List.length_append]
      exact hl
    · rw [List.length_append]
      show i ≤ _
      omega

theorem Running.logged (hr : Running c h a o s) (log : List Event) :
    Running c h a o { s with log := log } :=
  ⟨hr.ne, hr.handle, hr.attached, hr.cipher, hr.initialized, hr.active, hr.setup,
    hr.seat.algorithm, hr.seat.mode, hr.seat.size, hr.seat.two, hr.seat.buffer⟩

/-! ## one call -/

/-- arguments that pass the checks before the size is computed -/
structure Valid (c : Crypto) (src : Ptr) (n : Nat) (dest : Bool) (dl : Nat) : Prop where
  src : src = none → n = 0
  dest : dest = false → dl = 0
  srcLen : n ≤ c.maxChunk
  destLen : dl ≤ c.maxChunk

/-- behind the checks -/
theorem Running.cipherUpdate (hr : Running c h a o s) {src : Ptr} (hv : Valid c src n dest dl) :
    cipherUpdate c h src n dest (some dl) s =
      (if src = none ∧ n = 0 then pure (teeSuccess, 0)
      else if dl < o.updateLength n then pure (teeErrorShortBuffer, o.updateLength n)
      else if 1 < o.blockSize then teeBufferUpdate (uteeCipherUpdate c) h src n dl
      else if 0 < n then uteeCipherUpdate c o.state (src.bytes 0 n) dl
      else pure (teeSuccess, 0) : O (Nat × Nat)) s := by
  have h1 : ¬ (h = 0 ∨ (src = none ∧ n ≠ 0)) := by
    rintro (e | ⟨e, e'⟩)
    · exact hr.ne e
    · exact e' (hv.src e)
  have h2 : ¬ ((dest = false ∧ dl ≠ 0) ∨ c.maxChunk < n ∨ c.maxChunk < dl) := by
    rintro (⟨e, e'⟩ | e | e)
    · exact e' (hv.dest e)
    · exact absurd hv.srcLen (Nat.not_le.mpr e)
    · exact absurd hv.destLen (Nat.not_le.mpr e)
  unfold Oper.cipherUpdate
  rw [if_neg h1]
  dsimp only
  rw [if_neg h2, bind_of_ok (opAt_eq hr.handle), if_neg (not_not.mpr hr.cipher),
    if_neg (by rw [hr.initialized]; decide), if_neg (not_not.mpr hr.active)]

theorem some_source : ¬ ((some f : Ptr) = none ∧ n = 0) := fun e => nomatch e.1

/-- without enough room the call asks for more and changes nothing -/
theorem cipherUpdate_asks (hr : Running c h a o s) (hv : Valid c (some f) n dest dl)
    (hlt : dl < o.updateLength n) :
    teeCipherUpdate c h (some f) n dest (some dl) s =
      .ok ((teeErrorShortBuffer, o.updateLength n), s) := by
  unfold teeCipherUpdate
  have hx : cipherUpdate c h (some f) n dest (some dl) s =
      .ok ((teeErrorShortBuffer, o.updateLength n), s) := by
    rw [hr.cipherUpdate hv, if_neg some_source, if_pos hlt]
    rfl
  rw [bind_of_ok hx]
  rfl

/-- the bytes in the buffer and the ones of the source fit into an address space -/
theorem Running.fits (hr : Running c h a o s) (hmax : c.maxChunk = 0x400) (hn : n ≤ c.maxChunk)
    (h1 : 1 < o.blockSize) : o.bufferOffs + n < 2 ^ 32 := by
  obtain ⟨held, hh⟩ := hr.holds h1
  have hoffs := hh.offs
  have hle := hh.le
  have hsz := hr.seat.size
  have hS : o.bufferSize ≤ 32 := by
    unfold Operation.bufferSize
    rcases hr.setup.sizes with ⟨hone, -, -⟩ | ⟨h16, -⟩
    · split <;> omega
    · split <;> omega
  omega

/-- a result that is given back beside a length, or a panic -/
theorem wpx_leavePair {E : Stop → Prop} {x : O (Nat × Nat)} {Q : Nat × Nat → Sys → Prop}
    (hx : wpx E x (fun r t =>
      if r.1 ∈ [teeSuccess, teeErrorShortBuffer] then Q r t else E (.panic r.1)) s) :
    wpx E (x >>= fun r => do
      let res ← leave [teeSuccess, teeErrorShortBuffer] r.1
      pure (res, r.2)) Q s := by
  rw [wpx_bind]
  refine wpx_mono hx ?_
  intro r t ht
  rw [wpx_bind, leave]
  by_cases hr : r.1 ∈ [teeSuccess, teeErrorShortBuffer]
  · rw [if_pos hr] at ht ⊢
    exact ht
  · rw [if_neg hr] at ht ⊢
    exact ht

/-- **With enough room an update puts out what it feeds**, unless the library refuses it. -/
theorem cipherUpdate_spec {E : Stop → Prop} (hlib : ∀ log st d,
      c.answer log (.feed st d) = teeSuccess ∨ E (.panic (c.answer log (.feed st d))))
    (hr : Running c h a o s) (hv : Valid c (some f) n dest dl)
    (hfit : 1 < o.blockSize → o.bufferOffs + n < 2 ^ 32)
    (hreq : o.updateLength n ≤ dl) (hroom : o.output n ≤ dl) :
    wpx E (teeCipherUpdate c h (some f) n dest (some dl)) (fun r t =>
      (r = (teeSuccess, o.output n) ∧ ∃ i, Running c h a { o with bufferOffs := i } t ∧
        i + o.output n = o.bufferOffs + n ∧ (¬ 1 < o.blockSize → i = o.bufferOffs)) ∨
      (r.1 = teeErrorShortBuffer ∧ t = s ∧ ¬ c.Feeds)) s := by
  refine wpx_leavePair ?_
  unfold wpx
  rw [hr.cipherUpdate hv, if_neg some_source, if_neg (Nat.not_lt.mpr hreq)]
  have hsz := hr.seat.size
  by_cases h1 : 1 < o.blockSize
  · rw [if_pos h1]
    have hout : o.output n = o.fedLength n := if_pos h1
    rw [hout] at hroom ⊢
    obtain ⟨held, hh⟩ := hr.holds h1
    have hoffs := hh.offs
    have hfit := hfit h1
    have hle := (Operation.fedLength_le (n := n) (hr.blocks h1) hfit).1
    have htakes := takes_cipher hlib hr.attached hr.setup
    rw [← hsz] at htakes
    rw [hoffs] at hfit
    refine wpx_mono (teeBufferUpdate_spec (f := f) (hr.blocks h1) hh hfit htakes rfl
      fun i j hij => by omega) ?_
    rintro _ t ⟨rfl, hg, ht⟩
    rw [if_pos (List.mem_cons_self ..)]
    exact .inl ⟨rfl, _, hr.buffered hg.utc ht, by omega, fun h2 => absurd h1 h2⟩
  · rw [if_neg h1]
    have hout : o.output n = n := if_neg h1
    rw [hout] at hroom ⊢
    by_cases h0 : 0 < n
    · rw [if_pos h0]
      have hlen := bytes_length f 0 n
      have hone : a.blockSize ∣ (Ptr.bytes (some f) 0 n).length := by
        rcases hr.setup.sizes with ⟨e, -, -⟩ | ⟨e, -⟩
        · rw [e]
          exact Nat.one_dvd _
        · omega
      have hle : (Ptr.bytes (some f) 0 n).length ≤ dl := by
        rw [hlen]
        exact hroom
      rw [uteeCipherUpdate_eq hr.attached hr.setup hone hle, hlen, if_pos (Nat.ne_of_gt h0)]
      show wpx E (crypto c (.feed o.state (Ptr.bytes (some f) 0 n)) >>= _) _ s
      rw [wpx_bind]
      refine crypto_feed (fun _ => ?_) fun hne log hlog => ?_
      · exact .inl ⟨rfl, o.bufferOffs, hr.logged _, rfl, fun _ => rfl⟩
      · have hE := (hlib s.log o.state (Ptr.bytes (some f) 0 n)).resolve_left hne
        have hrefuses : ¬ c.Feeds := fun hf => hne (hf _ _ _)
        generalize c.answer s.log (.feed o.state (Ptr.bytes (some f) 0 n)) = res at hne hlog hE ⊢
        dsimp only
        by_cases hshort : res = teeErrorShortBuffer
        · rw [if_pos (.inr hshort), hlog hshort, hshort]
          exact .inr ⟨rfl, rfl, hrefuses⟩
        · rw [if_neg (by rintro (e | e) <;> contradiction)]
          show if res ∈ [teeSuccess, teeErrorShortBuffer] then _ else _
          rw [if_neg (by simp [hne, hshort])]
          exact hE
    · rw [if_neg h0]
      exact .inl ⟨by rw [Nat.eq_zero_of_not_pos h0], o.bufferOffs, hr, rfl, fun _ => rfl⟩

theorem cipherUpdate_done (hlib : c.Feeds) (hmax : c.maxChunk = 0x400) (hr : Running c h a o s)
    (hv : Valid c (some f) n dest dl) (hreq : o.updateLength n ≤ dl) (hroom : o.output n ≤ dl) :
    wp (teeCipherUpdate c h (some f) n dest (some dl)) (fun r t => r = (teeSuccess, o.output n) ∧
      ∃ i, Running c h a { o with bufferOffs := i } t ∧ i + o.output n = o.bufferOffs + n) s := by
  refine wp_mono (cipherUpdate_spec (E := fun _ => False) (fun log st d => .inl (hlib log st d)) hr
    hv (hr.fits hmax hv.srcLen) hreq hroom) ?_
  rintro r t (⟨hres, i, ht, hi, -⟩ | ⟨-, -, hno⟩)
  · exact ⟨hres, i, ht, hi⟩
  · exact absurd hlib hno

/-- **Without room for what it feeds an update panics.** -/
theorem cipherUpdate_panics (hr : Running c h a o s) (hv : Valid c (some f) n dest dl)
    (hfit : 1 < o.blockSize → o.bufferOffs + n < 2 ^ 32) (hreq : o.updateLength n ≤ dl)
    (hlt : dl < o.output n) :
    wlp (teeCipherUpdate c h (some f) n dest (some dl)) (fun _ _ => False) s := by
  unfold teeCipherUpdate
  rw [wlp_bind]
  unfold wlp
  rw [hr.cipherUpdate hv, if_neg some_source, if_neg (Nat.not_lt.mpr hreq)]
  have hsz := hr.seat.size
  by_cases h1 : 1 < o.blockSize
  · rw [if_pos h1]
    have hout : o.output n = o.fedLength n := if_pos h1
    rw [hout] at hlt
    obtain ⟨held, hh⟩ := hr.holds h1
    have htakes := takes_cipher (E := fun _ => True) (fun _ _ _ => .inr trivial) hr.attached hr.setup
    rw [← hsz] at htakes
    refine wlp_mono (teeBufferUpdate_short (f := f) (hr.blocks h1) hh
      (by rw [← hh.offs]; exact hfit h1) htakes (scant_cipher hr.attached) rfl hlt) ?_
    exact fun _ _ => False.elim
  · -- the size that is asked for is the one of the source
    have hout : o.output n = n := if_neg h1
    have hone : o.updateLength n = n := by
      have h2 : o.bufferTwoBlocks = false := by
        rw [hr.seat.two]
        rcases hr.setup.sizes with ⟨-, -, e⟩ | ⟨e, -⟩
        · exact e
        · omega
      unfold Operation.updateLength
      rw [if_neg h1, h2]
      rfl
    omega

/-! ## the size that is asked for -/

/-- when the size that `TEE_CipherUpdate` asks for is enough: with one block, unless a full buffer
and the longest source ask for more than a call may be given; with two blocks, when nothing is fed,
for AES-CTS when the bytes make up complete blocks, and else only at two totals -/
def Operation.UpdateFits (o : Operation) (n : Nat) : Prop :=
  if o.bufferTwoBlocks then
    o.bufferOffs + n ≤ 2 * o.blockSize ∨
    (o.info.algorithm = teeAlgAesCts ∧ o.blockSize ∣ o.bufferOffs + n) ∨
    (o.info.algorithm ≠ teeAlgAesCts ∧
      (0 < o.bufferOffs ∧ o.bufferOffs + n = 3 * o.blockSize ∨
        o.blockSize ≤ o.bufferOffs ∧ o.bufferOffs + n = 4 * o.blockSize))
  else o.blockSize = 1 ∨ o.bufferOffs + n < 0x400 + o.blockSize

instance (o : Operation) (n : Nat) : Decidable (o.UpdateFits n) := by
  unfold Operation.UpdateFits
  infer_instance

/-- with one block -/
theorem fits_one {b total fed : Nat} (hb : b = 8 ∨ b = 16) (hd : b ∣ fed) (hle : fed ≤ total) :
    (fed ≤ total / b * b ∧ total / b * b ≤ 0x400) ↔ total < 0x400 + b := by
  rcases hb with rfl | rfl
  · omega
  · omega

/-- with two blocks -/
theorem fits_two {total fed : Nat} {cts kept : Prop} (hf : FedTwo 16 total fed cts kept)
    (hk : kept → total = 48 ∨ total = 64) (htotal : total ≤ 0x400 + 32) :
    (fed ≤ (if 16 * 2 < total / 16 * 16 then total / 16 * 16 - 16 * 2 else 0) ∧
      (if 16 * 2 < total / 16 * 16 then total / 16 * 16 - 16 * 2 else 0) ≤ 0x400) ↔
    (total ≤ 2 * 16 ∨ (cts ∧ 16 ∣ total) ∨ (¬ cts ∧ kept)) := by
  obtain ⟨h1, h2, h3, h4, h5, h6⟩ := hf
  by_cases hsmall : total ≤ 2 * 16
  · have h0 := h1 hsmall
    refine iff_of_true ⟨by omega, ?_⟩ (.inl hsmall)
    split <;> omega
  have hle := h4 (by omega)
  by_cases hd : 16 ∣ total
  · by_cases hcts : cts
    · have hlt := h5 (by omega) hcts
      refine iff_of_true ?_ (.inr (.inl ⟨hcts, hd⟩))
      split <;> omega
    · have hiff := h6 hcts (by omega) hd
      by_cases hkept : kept
      · have heq := hiff.mpr hkept
        refine iff_of_true ?_ (.inr (.inr ⟨hcts, hkept⟩))
        split <;> omega
      · have hne : ¬ fed + 2 * 16 = total := fun e => hkept (hiff.mp e)
        refine iff_of_false ?_ ?_
        · split <;> omega
        · rintro (e | ⟨e, -⟩ | ⟨-, e⟩)
          · exact hsmall e
          · exact hcts e
          · exact hkept e
  · refine iff_of_false ?_ ?_
    · split <;> omega
    · rintro (e | ⟨-, e⟩ | ⟨-, e⟩)
      · exact hsmall e
      · exact hd e
      · have := hk e
        omega

theorem Running.fits_iff (hr : Running c h a o s) (hn : n ≤ 0x400) :
    (o.output n ≤ o.updateLength n ∧ o.updateLength n ≤ 0x400) ↔ o.UpdateFits n := by
  have hsz := hr.seat.size
  have htwo := hr.seat.two
  unfold Operation.UpdateFits Operation.updateLength Operation.output
  by_cases h1 : 1 < o.blockSize
  · obtain ⟨held, hh⟩ := hr.holds h1
    have hoffs := hh.offs
    have hle := hh.le
    have h16 : o.blockSize = 8 ∨ o.blockSize = 16 := by
      rcases hr.setup.sizes with ⟨e, -, -⟩ | ⟨e, -⟩
      · omega
      · omega
    have hS : o.bufferSize ≤ 32 := by
      unfold Operation.bufferSize
      split <;> omega
    have hfit : o.bufferOffs + n < 2 ^ 32 := by omega
    obtain ⟨hfed, hdvd⟩ := Operation.fedLength_le (n := n) (hr.blocks h1) hfit
    rw [if_pos h1, if_pos h1, Nat.mod_eq_of_lt hfit]
    cases h2 : o.bufferTwoBlocks with
    | false =>
      have hne : o.blockSize ≠ 1 := by omega
      have hor : (o.blockSize = 1 ∨ o.bufferOffs + n < 0x400 + o.blockSize) ↔
          o.bufferOffs + n < 0x400 + o.blockSize := or_iff_right hne
      rw [if_neg (by decide), if_neg (by decide), hor]
      exact fits_one h16 hdvd hfed
    | true =>
      have hb16 : o.blockSize = 16 := hsz.trans (hr.setup.two (htwo.symm.trans h2))
      have hf := Operation.fedLength_two (n := n) (hr.blocks h1) h2 (by omega) hfit
      rw [hb16] at hf ⊢
      rw [if_pos rfl, if_pos rfl]
      exact fits_two hf (by omega) (by omega)
  · have hone : o.blockSize = 1 ∧ o.bufferTwoBlocks = false := by
      rcases hr.setup.sizes with ⟨e, -, e'⟩ | ⟨e, -⟩
      · exact ⟨hsz.trans e, htwo.trans e'⟩
      · omega
    rw [if_neg h1, if_neg h1, hone.2]
    exact iff_of_true ⟨Nat.le_refl n, hn⟩ (.inl hone.1)

/-! ## the size is enough -/

/-- whatever room an update is given, it puts out no more than that or asks for a size that it
checked, and is then content with that size -/
def Sufficient (c : Crypto) (h : Nat) (o : Operation) (src : Ptr) (n : Nat) (s : Sys) : Prop :=
  ∀ dest dl, Valid c src n dest dl → wp (teeCipherUpdate c h src n dest (some dl)) (fun r t =>
    r.1 = teeSuccess ∧ r.2 ≤ dl ∨
    r.1 = teeErrorShortBuffer ∧ dl < o.updateLength n ∧
      wp (teeCipherUpdate c h src n true (some r.2)) (fun q _ => q.1 = teeSuccess ∧ q.2 ≤ r.2) t) s

/-- nothing is put out for no source -/
theorem cipherUpdate_null (hr : Running c h a o s) (hv : Valid c none n dest dl) :
    teeCipherUpdate c h none n dest (some dl) s = .ok ((teeSuccess, 0), s) := by
  unfold teeCipherUpdate
  have hx : cipherUpdate c h none n dest (some dl) s = .ok ((teeSuccess, 0), s) := by
    rw [hr.cipherUpdate hv, if_pos ⟨rfl, hv.src rfl⟩]
    rfl
  rw [bind_of_ok hx]
  rfl

/-- an update may not be given more room than a chunk -/
theorem cipherUpdate_long (hr : Running c h a o s) (hlong : c.maxChunk < dl) :
    wlp (teeCipherUpdate c h (some f) n dest (some dl)) (fun _ _ => False) s := by
  have h1 : ¬ (h = 0 ∨ ((some f : Ptr) = none ∧ n ≠ 0)) := by
    rintro (e | ⟨e, -⟩)
    · exact hr.ne e
    · cases e
  unfold teeCipherUpdate Oper.cipherUpdate
  rw [if_neg h1]
  dsimp only
  rw [if_pos (.inr (.inr hlong))]
  exact trivial

theorem Running.fits_null (hr : Running c h a o s) : o.UpdateFits 0 := by
  have hsz := hr.seat.size
  unfold Operation.UpdateFits
  rw [Nat.add_zero]
  by_cases h1 : 1 < o.blockSize
  · obtain ⟨held, hh⟩ := hr.holds h1
    have hoffs := hh.offs
    have hle := hh.le
    cases h2 : o.bufferTwoBlocks with
    | false =>
      have hS : o.bufferSize = o.blockSize := if_neg (by rw [h2]; decide)
      rw [if_neg (by decide)]
      exact .inr (by omega)
    | true =>
      have hS := (Operation.two_size h2).1
      rw [if_pos rfl]
      exact .inl (by omega)
  · obtain ⟨hone, -, htwo⟩ | ⟨h16, -⟩ := hr.setup.sizes
    · rw [if_neg (by rw [hr.seat.two, htwo]; decide)]
      exact .inl (hsz.trans hone)
    · omega

/-- no end satisfies `False` -/
theorem no_end {α : Type} {x : O α} {Q : α → Sys → Prop} (hx : wp x (fun r t => Q r t ∧ False) s) :
    False := by
  obtain ⟨r, t, -, -, hf⟩ := wp_iff.mp hx
  exact hf

/-- **When the size that an update asks for is enough.** -/
theorem Running.sufficient_iff (hlib : c.Feeds) (hmax : c.maxChunk = 0x400)
    (hr : Running c h a o s) {src : Ptr} (hsrc : src = none → n = 0) (hn : n ≤ c.maxChunk) :
    Sufficient c h o src n s ↔ o.UpdateFits n := by
  cases src with
  | none =>
    rw [hsrc rfl]
    refine iff_of_true (fun dest dl hv => ?_) hr.fits_null
    rw [wp_of_eq (cipherUpdate_null hr hv)]
    exact .inl ⟨rfl, Nat.zero_le _⟩
  | some f =>
    rw [← hr.fits_iff (by omega)]
    constructor
    · intro hs
      have hv0 : Valid c (some f) n true 0 := ⟨nofun, nofun, hn, Nat.zero_le _⟩
      have hs0 := hs true 0 hv0
      by_cases hreq : 0 < o.updateLength n
      · rw [wp_of_eq (cipherUpdate_asks hr hv0 hreq)] at hs0
        obtain ⟨e, -⟩ | ⟨-, -, hretry⟩ := hs0
        · exact absurd e (show teeErrorShortBuffer ≠ teeSuccess by decide)
        have hlong : o.updateLength n ≤ c.maxChunk := by
          by_contra hlt
          exact no_end (wp_and hretry (cipherUpdate_long hr (Nat.not_le.mp hlt)))
        have hv : Valid c (some f) n true (o.updateLength n) := ⟨nofun, nofun, hn, hlong⟩
        refine ⟨?_, by omega⟩
        by_contra hlt
        exact no_end (wp_and hretry (cipherUpdate_panics hr hv (hr.fits hmax hn)
          (Nat.le_refl _) (Nat.not_le.mp hlt)))
      · refine ⟨?_, by omega⟩
        by_contra hlt
        exact no_end (wp_and hs0 (cipherUpdate_panics hr hv0 (hr.fits hmax hn)
          (by omega) (by omega)))
    · rintro ⟨hout, hreq⟩ dest dl hv
      by_cases hlt : dl < o.updateLength n
      · have hv' : Valid c (some f) n true (o.updateLength n) :=
          ⟨hv.src, nofun, hn, by omega⟩
        rw [wp_of_eq (cipherUpdate_asks hr hv hlt)]
        refine .inr ⟨rfl, hlt, ?_⟩
        refine wp_mono (cipherUpdate_done hlib hmax hr hv' (Nat.le_refl _) hout) ?_
        rintro _ t ⟨rfl, -⟩
        exact ⟨rfl, hout⟩
      · have hle := Nat.not_lt.mp hlt
        refine wp_mono (cipherUpdate_done hlib hmax hr hv hle (hout.trans hle)) ?_
        rintro _ t ⟨rfl, -⟩
        exact .inl ⟨rfl, hout.trans hle⟩

/-- behind the calls `l` the property `Q` holds of every update of the initialised operation -/
def UpdatesAlong (c : Crypto) (s : Sys) (algorithm mode maxKeySize : Nat) (l : List Step)
    (Q : Nat → Operation → Ptr → Nat → Sys → Prop) : Prop :=
  wlp (useOperation c algorithm mode maxKeySize l) (fun r t => r.1 = teeSuccess →
    ∀ o, t.heap.blocks r.2 = some (.op o) → o.has teeHandleFlagInitialized = true →
    ∀ src n, (src = none → n = 0) → n ≤ c.maxChunk → Q r.2 o src n t) s

/-- **In every state reached the size is enough for the updates that fit.** -/
theorem sufficientUpdate_iff {m k maxKeySize : Nat} (hlib : c.Feeds) (hmax : c.maxChunk = 0x400)
    (hc : Core c.provider s.utc) (hlog : s.log = []) (hclass : teeAlgGetClass m = teeOperationCipher)
    (l : List Step) : UpdatesAlong c s m k maxKeySize l fun h o src n t =>
      (Sufficient c h o src n t ↔ o.UpdateFits n) := by
  refine wlp_mono (reachedAt_run hc hlog (.inl hclass) l) ?_
  intro r t ht hr o ho hi src n hsrc hn
  obtain ⟨a, hrun⟩ := (ht hr).running hclass ho hi
  exact hrun.sufficient_iff hlib hmax hsrc hn

/-- an AES key of 128 bits -/
def aesKey : List Call :=
  [.objAlloc teeTypeAes 128,
   .objPopulate (fun i => UInt8.ofNat i) 0x1000 [⟨0, 16, teeAttrSecretValue⟩]]

/-- the key is set and the cipher initialised -/
def cipherStart : List Step := [.setOperationKey 0x1000, .cipherInit none 0]

/-- the state of the TA before the operation is allocated -/
def cipherSys : Sys := Sys.start (behind sampleProvider aesKey) Cryp.sampleAnswers

theorem core_cipherSys : Core sampleProvider cipherSys.utc := by
  refine core_behind sampleProvider (l := aesKey) ?_
  intro h hm
  simp [aesKey] at hm

/-- behind the calls `l` the operation is initialised and an update with `n` bytes does not fit -/
def unfitAfter (c : Crypto) (s : Sys) (algorithm mode maxKeySize : Nat) (l : List Step) (n : Nat) :
    Bool :=
  match useOperation c algorithm mode maxKeySize l s with
  | .ok (r, t) =>
    match t.heap.blocks r.2 with
    | some (.op o) => r.1 == teeSuccess && o.has teeHandleFlagInitialized && !decide (o.UpdateFits n)
    | _ => false
  | .error _ => false

theorem not_sufficient {maxKeySize : Nat} {l : List Step} (hlib : c.Feeds)
    (hmax : c.maxChunk = 0x400) (hc : Core c.provider s.utc) (hlog : s.log = [])
    (hclass : teeAlgGetClass m = teeOperationCipher) (hn : n ≤ c.maxChunk)
    (hx : unfitAfter c s m k maxKeySize l n = true) :
    ¬ UpdatesAlong c s m k maxKeySize l (Sufficient c) := by
  intro hall
  have hreach := reachedAt_run (k := k) (n := maxKeySize) hc hlog (.inl hclass) l
  unfold unfitAfter at hx
  unfold UpdatesAlong at hall
  cases hrun : useOperation c m k maxKeySize l s with
  | error e =>
    rw [hrun] at hx
    cases hx
  | ok p =>
    obtain ⟨r, t⟩ := p
    rw [hrun] at hx
    rw [wlp_of_eq hrun] at hall hreach
    dsimp only at hx
    split at hx
    · rename_i o ho
      simp only [Bool.and_eq_true, beq_iff_eq, Bool.not_eq_true', decide_eq_false_iff_not] at hx
      obtain ⟨⟨hr, hi⟩, hfit⟩ := hx
      obtain ⟨a, hop⟩ := (hreach hr).running hclass ho hi
      have hsrc : (some fun _ => 0 : Ptr) = none → n = 0 := nofun
      exact hfit ((hop.sufficient_iff hlib hmax hsrc hn).mp (hall hr o ho hi _ n hsrc hn))
    · cases hx

/-- 33 bytes for AES-CTS: no room is asked for, and a block is put out -/
theorem sufficient_fails : ¬ UpdatesAlong sampleCrypto cipherSys teeAlgAesCts teeModeEncrypt 128
    cipherStart (Sufficient sampleCrypto) := by
  have hlog : cipherSys.log = [] := rfl
  have hx : unfitAfter sampleCrypto cipherSys teeAlgAesCts teeModeEncrypt 128 cipherStart 33 =
    true := by decide +kernel
  have hc : Core sampleCrypto.provider cipherSys.utc := core_cipherSys
  generalize cipherSys = s at hlog hx hc ⊢
  exact not_sufficient (fun _ _ _ => rfl) rfl hc hlog (by decide) (by decide) hx

/-- one block at a time -/
theorem sufficientUpdate_iff_cts :
    unfitAfter sampleCrypto cipherSys teeAlgAesCts teeModeEncrypt 128 cipherStart 33 = true ∧
    UpdatesAlong sampleCrypto cipherSys teeAlgAesCts teeModeEncrypt 128 cipherStart
      fun h o src n t => (Sufficient sampleCrypto h o src n t ↔ o.UpdateFits n) := by
  have hlog : cipherSys.log = [] := rfl
  have hc : Core sampleCrypto.provider cipherSys.utc := core_cipherSys
  refine ⟨by decide +kernel, ?_⟩
  generalize cipherSys = s at hlog hc ⊢
  exact sufficientUpdate_iff (c := sampleCrypto) (fun _ _ _ => rfl) rfl hc hlog (by decide)
    cipherStart

end MTower.Oper
