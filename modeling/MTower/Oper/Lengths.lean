import MTower.Oper.Sizes

/-!
# The lengths of a cipher operation

* `Finishes`               `utee_cipher_final` puts out as many bytes as it is given;
* `cipherDoFinal_spec`     `TEE_CipherDoFinal` puts out what is buffered and the source;
* `finishCipher_roomy`     no call of the kernel has less room than bytes;
* `lengths_run`            between `TEE_CipherInit` and the end of the context as many bytes are put
                           out as are taken.
-/

set_option linter.unusedVariables false

namespace MTower.Oper
open Lib Kernel Cryp

variable {c : Crypto} {s t : Sys} {h k m n dl : Nat} {o o' : Operation} {a : Setup}
  {f : Nat → UInt8} {src : Ptr} {dest : Bool}

/-! ## calls of the kernel with room -/

/-- a call of the kernel that must have room for its bytes -/
def roomy (call : UpdateFunc) : UpdateFunc := fun st d n =>
  if n < d.length then throw (.fault .outOfBounds) else call st d n

theorem roomy_eq {call : UpdateFunc} {st : Nat} {d : List UInt8} (hn : d.length ≤ n) :
    roomy call st d n = call st d n := if_neg (Nat.not_lt.mpr hn)

theorem feed_roomy {update : UpdateFunc} {st : Nat} {d : List UInt8} {p : Progress}
    (hp : d.length ≤ p.dlen) : feed (roomy update) st d p = feed update st d p := by
  unfold feed
  rw [roomy_eq hp]

theorem feedBuffer_roomy {update : UpdateFunc} {p : Progress} (hb : o.Blocks)
    (ho : s.heap.blocks h = some (.op o)) (hfit : o.bufferOffs + p.slen < 2 ^ 32)
    (hp : o.fromBuffer p.slen ≤ p.dlen) :
    feedBuffer (roomy update) h src p s = feedBuffer update h src p s := by
  unfold feedBuffer
  rw [bind_of_ok (opAt_eq ho), bind_of_ok (opAt_eq ho), Nat.mod_eq_of_lt hfit]
  by_cases hc : o.bufferOffs = 0 ∨ o.bufferOffs + p.slen < o.bufferSize + o.bufferLeft
  · rw [if_pos hc, if_pos hc]
  · have hl : o.fromBuffer p.slen =
        min o.bufferOffs (roundUp (o.bufferOffs + p.slen - o.bufferSize) o.blockSize) := if_neg hc
    rw [if_neg hc, if_neg hc, ← hl]
    refine bind_agree rfl ?_
    refine wlp_bufferRead fun data hlen => ?_
    rw [feed_roomy (by omega)]

theorem feedSource_roomy {update : UpdateFunc} {p : Progress}
    (ho : s.heap.blocks h = some (.op o)) (hp : o.fromSource p.slen ≤ p.dlen) :
    feedSource (roomy update) h (some f) p s = feedSource update h (some f) p s := by
  unfold feedSource
  rw [bind_of_ok (opAt_eq ho), bind_of_ok (opAt_eq ho)]
  by_cases hc : p.slen < o.bufferSize + o.bufferLeft
  · rw [if_pos hc, if_pos hc]
  · have hl : (if o.info.algorithm = teeAlgAesCts then roundUp (p.slen - o.bufferSize) o.blockSize
        else roundUp (p.slen - o.bufferSize + 1) o.blockSize) = o.fromSource p.slen :=
      (if_neg hc).symm
    rw [if_neg hc, if_neg hc, hl, feed_roomy]
    rw [bytes_length]
    exact hp

theorem Operation.fromBuffer_le_fedAligned : o.fromBuffer n ≤ o.fedAligned n := by
  unfold Operation.fedAligned
  split
  · exact Nat.le_refl _
  · exact Nat.le_add_right _ _

/-- with room for what is fed, each call of the kernel has room -/
theorem teeBufferUpdate_roomy {update : UpdateFunc} {P : Utc → Prop} {held : List UInt8}
    (hb : o.Blocks) (hs : Holds h o held s) (hfit : held.length + n < 2 ^ 32)
    (hu : Takes (fun _ => True) update P o.state o.blockSize fun len n => len ≤ n) (hP : P s.utc)
    (hle : o.fedLength n ≤ dl) :
    teeBufferUpdate (roomy update) h (some f) n dl s = teeBufferUpdate update h (some f) n dl s := by
  have hoff := hs.offs
  have htop := o.topUp_le n
  unfold teeBufferUpdate
  rw [if_neg nofun, if_neg nofun]
  refine bind_agree rfl ?_
  refine wlp_mono (wlp_of_wpx (fillBlock_spec (f := f) (E := fun _ => True) hb hs)) ?_
  rintro ⟨done, p⟩ t1 ⟨hu1, hl1, h1, rfl, hdone⟩
  dsimp only at h1 hdone ⊢
  by_cases hm : (o.bufferOffs + o.topUp n) % o.blockSize ≠ 0
  · rw [hdone.mpr hm, if_pos rfl, if_pos rfl]
  have hP1 : P t1.utc := by
    rw [hu1]
    exact hP
  have hfed : o.fedLength n = ({ o with bufferOffs := o.bufferOffs + o.topUp n } :
      Operation).fedAligned (n - o.topUp n) := if_neg hm
  rw [show done = false by simpa using hdone.not.mpr hm, if_neg (by decide), if_neg (by decide)]
  rw [hfed] at hle
  have hb1 : ({ o with bufferOffs := o.bufferOffs + o.topUp n } : Operation).Blocks :=
    ⟨hb.pow, hb.two, hb.fits⟩
  have hfit1 : o.bufferOffs + o.topUp n + (n - o.topUp n) < 2 ^ 32 := by omega
  generalize o.topUp n = l at h1 hb1 hm hfit1 hle ⊢
  have hall := Operation.fedAligned_eq (o := { o with bufferOffs := o.bufferOffs + l }) (n := n - l)
  have hroom : ({ o with bufferOffs := o.bufferOffs + l } : Operation).fromBuffer (n - l) ≤ dl :=
    Operation.fromBuffer_le_fedAligned.trans hle
  refine bind_agree (feedBuffer_roomy hb1 h1.handle hfit1 hroom) ?_
  refine wlp_mono (wlp_of_wpx (feedBuffer_spec (f := f) (p := ⟨0 + l, n - l, dl, 0⟩) hb1 h1
    (Nat.dvd_of_mod_eq_zero (not_not.mp hm)) hfit1 hu hP1 hroom)) ?_
  rintro ⟨done', p⟩ t2 ⟨hg2, rfl, h2⟩
  dsimp only at h2 hall ⊢
  rcases h2 with ⟨hdone', -, -⟩ | ⟨hdone', hcase, h2⟩
  · rw [hdone', if_pos rfl, if_pos rfl]
  · rw [hall hcase] at hle
    rw [hdone', if_neg (by decide), if_neg (by decide)]
    refine bind_agree (feedSource_roomy h2.handle ?_) (wlp_mono (wlp_true _ _) fun _ _ _ => rfl)
    show ({ o with bufferOffs := o.bufferOffs + l } : Operation).fromSource (n - l) ≤ dl - _
    omega

/-! ## the end of the context -/

/-- `utee_cipher_final` puts out as many bytes as it is given, when it has room for them -/
structure Crypto.Finishes (c : Crypto) : Prop where
  length : ∀ log st d room, c.answer log (.final st d room) = teeSuccess →
    c.length log (.final st d room) = d.length
  room : ∀ log st d room, d.length ≤ room →
    c.answer log (.final st d room) ≠ teeErrorShortBuffer

/-- `TEE_CipherDoFinal` behind its checks, with these calls of the kernel -/
def finishWith (update final : UpdateFunc) (operation : Nat) (o : Operation) (src : Ptr)
    (srcLen dl : Nat) : O (Nat × Nat) := do
  if 1 < o.blockSize then do
    let r ← teeBufferUpdate update operation src srcLen dl
    if r.1 ≠ teeSuccess then pure (r.1, dl)
    else do
      let o ← opAt operation
      let data ← bufferRead o.buffer 0 o.bufferOffs
      let f ← final o.state data (dl - r.2)
      if f.1 ≠ teeSuccess then pure (f.1, dl)
      else do
        endContext operation
        pure (teeSuccess, r.2 + f.2)
  else do
    let f ← final o.state (src.bytes 0 srcLen) dl
    if f.1 ≠ teeSuccess then pure (f.1, dl)
    else do
      endContext operation
      pure (teeSuccess, f.2)

theorem finishCipher_eq : finishCipher c = finishWith (uteeCipherUpdate c) (uteeCipherFinal c) := rfl

/-- the room that `TEE_CipherDoFinal` asks for -/
def Operation.finalLength (o : Operation) (srcLen : Nat) : Nat :=
  if 1 < o.blockSize then o.bufferOffs + srcLen else srcLen

theorem Running.takes (hr : Running c h a o s) :
    Takes (fun _ => True) (uteeCipherUpdate c) (fun v => v = s.utc) o.state o.blockSize
      fun len n => len ≤ n := by
  rw [hr.seat.size]
  exact takes_cipher (fun _ _ _ => .inr trivial) hr.attached hr.setup

/-- the complete blocks before the end -/
theorem flush_spec (hr : Running c h a o s) (h1 : 1 < o.blockSize) (hsrc : src = none → n = 0)
    (hfit : o.bufferOffs + n < 2 ^ 32) (hdl : o.bufferOffs + n ≤ dl) :
    wlp (teeBufferUpdate (uteeCipherUpdate c) h src n dl) (fun r t => r.1 = teeSuccess ∧
      ∃ i, Running c h a { o with bufferOffs := i } t ∧ r.2 + i = o.bufferOffs + n) s := by
  cases src with
  | none =>
    rw [hsrc rfl]
    exact ⟨rfl, o.bufferOffs, hr, Nat.add_comm _ _⟩
  | some f =>
    obtain ⟨held, hh⟩ := hr.holds h1
    have hoffs := hh.offs
    have hle := (Operation.fedLength_le (n := n) (hr.blocks h1) hfit).1
    rw [hoffs] at hfit
    refine wlp_mono (wlp_of_wpx (teeBufferUpdate_spec (f := f) (hr.blocks h1) hh hfit hr.takes rfl
      fun i j hij => by omega)) ?_
    rintro _ t ⟨rfl, hg, ht⟩
    exact ⟨rfl, _, hr.buffered hg.utc ht, by omega⟩

theorem flush_roomy (hr : Running c h a o s) (h1 : 1 < o.blockSize)
    (hfit : o.bufferOffs + n < 2 ^ 32) (hdl : o.bufferOffs + n ≤ dl) :
    teeBufferUpdate (roomy (uteeCipherUpdate c)) h src n dl s =
      teeBufferUpdate (uteeCipherUpdate c) h src n dl s := by
  cases src with
  | none => rfl
  | some f =>
    obtain ⟨held, hh⟩ := hr.holds h1
    have hoffs := hh.offs
    have hle := (Operation.fedLength_le (n := n) (hr.blocks h1) hfit).1
    exact teeBufferUpdate_roomy (hr.blocks h1) hh (by omega) hr.takes rfl (by omega)

/-- **No call of the kernel has less room than bytes.** -/
theorem finishCipher_roomy (hr : Running c h a o s) (hsrc : src = none → n = 0)
    (hfit : o.bufferOffs + n < 2 ^ 32) (hdl : o.finalLength n ≤ dl) :
    finishWith (roomy (uteeCipherUpdate c)) (roomy (uteeCipherFinal c)) h o src n dl s =
      finishCipher c h o src n dl s := by
  rw [finishCipher_eq]
  unfold finishWith
  by_cases h1 : 1 < o.blockSize
  · have hneed : o.finalLength n = o.bufferOffs + n := if_pos h1
    rw [hneed] at hdl
    rw [if_pos h1, if_pos h1]
    refine bind_agree (flush_roomy hr h1 hfit hdl) ?_
    refine wlp_mono (flush_spec hr h1 hsrc hfit hdl) ?_
    rintro ⟨res, l⟩ t ⟨hres, i, ht, hi⟩
    dsimp only at hres hi ⊢
    rw [if_neg (not_not.mpr hres), if_neg (not_not.mpr hres)]
    rw [bind_of_ok (opAt_eq ht.handle), bind_of_ok (opAt_eq ht.handle)]
    refine bind_agree rfl (wlp_bufferRead fun data hlen => ?_)
    have hlen' : data.length = i := hlen
    rw [roomy_eq (by omega)]
  · have hneed : o.finalLength n = n := if_neg h1
    rw [hneed] at hdl
    rw [if_neg h1, if_neg h1, roomy_eq]
    have hle : (src.bytes 0 n).length ≤ n := by
      cases src with
      | none => exact Nat.zero_le _
      | some f => exact (bytes_length f 0 n).le
    exact hle.trans hdl

/-- the context of the handle has ended -/
def Idle (h : Nat) (s : Sys) : Prop :=
  ∃ o, s.heap.blocks h = some (.op o) ∧ o.has teeHandleFlagInitialized = false

theorem endContext_idle : wlp (endContext h) (fun _ t => Idle h t) s := by
  unfold endContext updateOp
  rw [wlp_bind, wlp_opAt]
  intro o ho
  exact ⟨_, store_self _, has_clearFlag_self o (by decide)⟩

/-- the last call of the library -/
theorem lastCall_spec (hf : c.Finishes) {d : List UInt8} {st room : Nat} (g : Nat → Nat)
    (hd : d.length ≤ room) :
    wlp (do
      let f ← uteeCipherFinal c st d room
      if f.1 ≠ teeSuccess then pure (f.1, dl)
      else do
        endContext h
        pure (teeSuccess, g f.2)) (fun r t => r.1 ≠ teeErrorShortBuffer ∧
      (r.1 = teeSuccess → r.2 = g d.length ∧ Idle h t)) s := by
  have hroom := hf.room s.log st d room hd
  have hlen := hf.length s.log st d room
  rw [wlp_bind]
  show wlp (if c.answer s.log (.final st d room) ≠ teeSuccess then _ else _) _ _
  by_cases hok : c.answer s.log (.final st d room) ≠ teeSuccess
  · rw [if_pos hok]
    exact ⟨hroom, fun e => absurd e hok⟩
  · rw [if_neg hok, wlp_bind]
    refine wlp_mono endContext_idle ?_
    intro _ t ht
    refine ⟨show teeSuccess ≠ teeErrorShortBuffer by decide, fun _ => ⟨?_, ht⟩⟩
    show g (c.length s.log (.final st d room)) = _
    rw [hlen (not_not.mp hok)]

theorem finishCipher_spec (hf : c.Finishes) (hr : Running c h a o s) (hsrc : src = none → n = 0)
    (hfit : o.bufferOffs + n < 2 ^ 32) (hdl : o.finalLength n ≤ dl) :
    wlp (finishCipher c h o src n dl) (fun r t => r.1 ≠ teeErrorShortBuffer ∧
      (r.1 = teeSuccess → r.2 = o.finalLength n ∧ Idle h t)) s := by
  unfold finishCipher
  by_cases h1 : 1 < o.blockSize
  · have hneed : o.finalLength n = o.bufferOffs + n := if_pos h1
    rw [hneed] at hdl ⊢
    rw [if_pos h1, wlp_bind]
    refine wlp_mono (flush_spec hr h1 hsrc hfit hdl) ?_
    rintro ⟨res, l⟩ t ⟨hres, i, ht, hi⟩
    dsimp only at hres hi ⊢
    rw [if_neg (not_not.mpr hres), wlp_bind, wlp_of_eq (opAt_eq ht.handle), wlp_bind]
    refine wlp_bufferRead fun data hlen => ?_
    have hlen' : data.length = i := hlen
    refine wlp_mono (lastCall_spec hf (l + ·) (by omega)) ?_
    rintro r v ⟨hne, hok⟩
    refine ⟨hne, fun e => ⟨?_, (hok e).2⟩⟩
    have := (hok e).1
    omega
  · have hneed : o.finalLength n = n := if_neg h1
    rw [hneed] at hdl ⊢
    have hlen : (src.bytes 0 n).length = n := by
      cases src with
      | none => rw [hsrc rfl]; rfl
      | some f => exact bytes_length f 0 n
    rw [if_neg h1]
    refine wlp_mono (lastCall_spec hf id (by omega)) ?_
    rintro r v ⟨hne, hok⟩
    refine ⟨hne, fun e => ⟨?_, (hok e).2⟩⟩
    have he : r.2 = (src.bytes 0 n).length := (hok e).1
    omega

/-! ## one call -/

/-- behind the checks of the arguments -/
theorem Running.cipherDoFinal (hr : Running c h a o s) (hsrc : src = none → n = 0)
    (hdest : dest = false → dl = 0) (hfit : o.bufferOffs + n < 2 ^ 32) :
    cipherDoFinal c h src n dest (some dl) s =
      (if o.info.algorithm ∈ teeAlgNoPad ∧ (o.bufferOffs + n) % o.blockSize ≠ 0 then
        pure (teeErrorBadParameters, dl)
      else if dl < o.finalLength n then pure (teeErrorShortBuffer, o.finalLength n)
      else finishCipher c h o src n dl : O (Nat × Nat)) s := by
  have h1 : ¬ (h = 0 ∨ (src = none ∧ n ≠ 0)) := by
    rintro (e | ⟨e, e'⟩)
    · exact hr.ne e
    · exact e' (hsrc e)
  have h2 : ¬ (dest = false ∧ dl ≠ 0) := fun e => e.2 (hdest e.1)
  unfold Oper.cipherDoFinal
  rw [if_neg h1]
  dsimp only
  rw [if_neg h2, bind_of_ok (opAt_eq hr.handle), if_neg (not_not.mpr hr.cipher),
    if_neg (by rw [hr.initialized]; decide), if_neg (not_not.mpr hr.active),
    Nat.mod_eq_of_lt hfit]
  rfl

/-- other arguments are refused -/
theorem cipherDoFinal_refused {destLen : Option Nat} (hbad : ¬ (src = none → n = 0) ∨
    ∀ dl, destLen = some dl → ¬ (dest = false → dl = 0)) :
    ∃ l, cipherDoFinal c h src n dest destLen = pure (teeErrorBadParameters, l) := by
  unfold cipherDoFinal
  by_cases h1 : h = 0 ∨ (src = none ∧ n ≠ 0)
  · exact ⟨0, if_pos h1⟩
  rw [if_neg h1]
  have hdest := hbad.resolve_left fun e => h1 (.inr (Classical.not_imp.mp e))
  cases destLen with
  | none => exact ⟨0, rfl⟩
  | some dl => exact ⟨dl, if_pos (Classical.not_imp.mp (hdest dl rfl))⟩

/-- **The end of the context puts out what is buffered and the source**, or asks for more room. -/
theorem cipherDoFinal_spec {destLen : Option Nat} (hf : c.Finishes) (hr : Running c h a o s)
    (hfit : o.bufferOffs + n < 2 ^ 32) :
    wlp (teeCipherDoFinal c h src n dest destLen) (fun r t =>
      (r.1 = teeErrorShortBuffer ∧ t = s) ∨
      (r.1 = teeSuccess ∧ r.2 = o.finalLength n ∧ Idle h t ∧ ∀ dl, destLen = some dl → r.2 ≤ dl))
      s := by
  refine wlp_of_wpx (E := fun _ => True) (wpx_leavePair ?_)
  by_cases hbad : ¬ (src = none → n = 0) ∨ ∀ dl, destLen = some dl → ¬ (dest = false → dl = 0)
  · obtain ⟨l, hl⟩ := cipherDoFinal_refused (c := c) (h := h) hbad
    rw [hl]
    exact trivial
  obtain ⟨hsrc, hdl⟩ := not_or.mp hbad
  obtain ⟨dl, rfl, hdest⟩ : ∃ dl, destLen = some dl ∧ (dest = false → dl = 0) := by
    simpa using hdl
  unfold wpx
  rw [hr.cipherDoFinal (not_not.mp hsrc) hdest hfit]
  by_cases hpad : o.info.algorithm ∈ teeAlgNoPad ∧ (o.bufferOffs + n) % o.blockSize ≠ 0
  · rw [if_pos hpad]
    exact trivial
  rw [if_neg hpad]
  by_cases hlt : dl < o.finalLength n
  · rw [if_pos hlt]
    exact .inl ⟨rfl, rfl⟩
  rw [if_neg hlt]
  show wlp (finishCipher c h o src n dl) _ s
  refine wlp_mono (finishCipher_spec hf hr (not_not.mp hsrc) hfit (Nat.not_lt.mp hlt)) ?_
  rintro r t ⟨hne, hok⟩
  by_cases hr : r.1 ∈ [teeSuccess, teeErrorShortBuffer]
  · rw [if_pos hr]
    have hr1 : r.1 = teeSuccess := by simpa [hne] using hr
    obtain ⟨hlen, hi⟩ := hok hr1
    refine .inr ⟨hr1, hlen, hi, ?_⟩
    rintro _ ⟨⟩
    omega
  · rw [if_neg hr]
    exact trivial

/-- other arguments are refused -/
theorem cipherUpdate_refused {destLen : Option Nat}
    (hbad : ∀ dl, destLen = some dl → ¬ Valid c src n dest dl) :
    ∃ l, cipherUpdate c h src n dest destLen = pure (teeErrorBadParameters, l) := by
  unfold cipherUpdate
  by_cases h1 : h = 0 ∨ (src = none ∧ n ≠ 0)
  · exact ⟨0, if_pos h1⟩
  rw [if_neg h1]
  cases destLen with
  | none => exact ⟨0, rfl⟩
  | some dl =>
    refine ⟨dl, if_pos ?_⟩
    by_contra h2
    obtain ⟨h3, h4⟩ := not_or.mp h2
    obtain ⟨h4, h5⟩ := not_or.mp h4
    refine hbad dl rfl ⟨fun e => ?_, fun e => ?_, Nat.not_lt.mp h4, Nat.not_lt.mp h5⟩
    · exact not_not.mp fun e' => h1 (.inr ⟨e, e'⟩)
    · exact not_not.mp fun e' => h3 ⟨e, e'⟩

/-- **An update puts out what it does not hold back**, or asks for more room. -/
theorem cipherUpdate_lengths {destLen : Option Nat} (hr : Running c h a o s)
    (hfit : o.bufferOffs + n < 2 ^ 32) :
    wlp (teeCipherUpdate c h src n dest destLen) (fun r t =>
      (r.1 = teeErrorShortBuffer ∧ t = s) ∨
      (r.1 = teeSuccess ∧ ∃ i, Running c h a { o with bufferOffs := i } t ∧
        i + r.2 = o.bufferOffs + n ∧ (¬ 1 < o.blockSize → i = o.bufferOffs))) s := by
  by_cases hbad : ∀ dl, destLen = some dl → ¬ Valid c src n dest dl
  · refine wlp_of_wpx (E := fun _ => True) (wpx_leavePair ?_)
    obtain ⟨l, hl⟩ := cipherUpdate_refused (h := h) hbad
    rw [hl]
    exact trivial
  obtain ⟨dl, rfl, hv⟩ : ∃ dl, destLen = some dl ∧ Valid c src n dest dl := by
    simpa using hbad
  cases src with
  | none =>
    have hn := hv.src rfl
    rw [hn] at hv ⊢
    rw [wlp_of_eq (cipherUpdate_null hr hv)]
    exact .inr ⟨rfl, o.bufferOffs, hr, rfl, fun _ => rfl⟩
  | some f =>
    by_cases hlt : dl < o.updateLength n
    · rw [wlp_of_eq (cipherUpdate_asks hr hv hlt)]
      exact .inl ⟨rfl, rfl⟩
    by_cases hout : dl < o.output n
    · refine wlp_mono (cipherUpdate_panics hr hv (fun _ => hfit) (Nat.not_lt.mp hlt) hout) ?_
      exact fun _ _ => False.elim
    refine wlp_mono (wlp_of_wpx (cipherUpdate_spec (E := fun _ => True) (fun _ _ _ => .inr trivial)
      hr hv (fun _ => hfit) (Nat.not_lt.mp hlt) (Nat.not_lt.mp hout))) ?_
    rintro r t (⟨rfl, ht⟩ | ⟨hshort, rfl, -⟩)
    · exact .inr ⟨rfl, ht⟩
    · exact .inl ⟨hshort, rfl⟩

/-- behind the end of the context a call panics -/
theorem cipherUpdate_idle {destLen : Option Nat} (hi : Idle h s) :
    wlp (teeCipherUpdate c h src n dest destLen) (fun _ _ => False) s := by
  obtain ⟨o, ho, hf⟩ := hi
  refine wlp_of_wpx (E := fun _ => True) (wpx_leavePair ?_)
  unfold cipherUpdate
  split
  · exact trivial
  cases destLen with
  | none => exact trivial
  | some dl =>
    dsimp only
    split
    · exact trivial
    rw [wpx_bind, wpx_of_eq (opAt_eq ho)]
    split
    · exact trivial
    · exact trivial

theorem cipherDoFinal_idle {destLen : Option Nat} (hi : Idle h s) :
    wlp (teeCipherDoFinal c h src n dest destLen) (fun _ _ => False) s := by
  obtain ⟨o, ho, hf⟩ := hi
  refine wlp_of_wpx (E := fun _ => True) (wpx_leavePair ?_)
  unfold cipherDoFinal
  split
  · exact trivial
  cases destLen with
  | none => exact trivial
  | some dl =>
    dsimp only
    split
    · exact trivial
    rw [wpx_bind, wpx_of_eq (opAt_eq ho)]
    split
    · exact trivial
    · exact trivial

/-- the context begins with an empty buffer -/
theorem cipherInit_running {iv : Ptr} {ivLen : Nat} (hr : ReachedAt c m k h s)
    (hclass : teeAlgGetClass m = teeOperationCipher) :
    wlp (teeCipherInit c h iv ivLen) (fun _ t => ∃ o a, Running c h a o t ∧ o.bufferOffs = 0) s := by
  have hlast : ∀ t, wlp
      (updateOp h fun o => { o.setFlag teeHandleFlagInitialized with bufferOffs := 0 }) (fun _ u => ∃ o, u.heap.blocks h = some (.op o) ∧ o.has teeHandleFlagInitialized = true ∧
        o.bufferOffs = 0) t := by
    intro t
    unfold updateOp
    rw [wlp_bind, wlp_opAt]
    intro o ho
    refine ⟨_, store_self _, (has_setFlag o _ _).trans ?_, rfl⟩
    rw [show (teeHandleFlagInitialized &&& teeHandleFlagInitialized != 0) = true by decide,
      Bool.or_true]
  have hrest : ∀ st t, wlp (do
      updateOp h fun o => { o with operationState := teeOperationStateActive }
      let res ← uteeCipherInit c st iv ivLen
      if res ≠ teeSuccess then teePanic res
      else updateOp h fun o => { o.setFlag teeHandleFlagInitialized with bufferOffs := 0 })
      (fun _ u => ∃ o, u.heap.blocks h = some (.op o) ∧ o.has teeHandleFlagInitialized = true ∧
        o.bufferOffs = 0) t := by
    intro st t
    rw [wlp_bind]
    refine wlp_mono (wlp_true _ _) fun _ t _ => ?_
    rw [wlp_bind]
    refine wlp_mono (wlp_true _ _) fun _ t _ => ?_
    split
    · exact trivial
    · exact hlast t
  have hopen : wlp (teeCipherInit c h iv ivLen) (fun _ t => ∃ o, t.heap.blocks h = some (.op o) ∧
      o.has teeHandleFlagInitialized = true ∧ o.bufferOffs = 0) s := by
    unfold teeCipherInit
    rw [wlp_bind]
    refine wlp_mono (wlp_true _ _) fun _ t _ => ?_
    split
    · exact trivial
    rw [wlp_bind]
    refine wlp_mono (wlp_true _ _) fun q t _ => ?_
    split
    · exact trivial
    split
    · exact trivial
    dsimp only
    split
    · rw [wlp_bind]
      exact wlp_mono (wlp_true _ _) fun _ t _ => hrest q.state t
    · exact hrest q.state t
  have hreach : wlp (teeCipherInit c h iv ivLen) (fun _ t => ReachedAt c m k h t) s := by
    have hx := reachedAt_step hr (.cipherInit iv ivLen)
    have hx' : wlp (teeCipherInit c h iv ivLen >>= fun _ => pure teeSuccess)
      (fun _ t => ReachedAt c m k h t) s := hx
    rw [wlp_bind] at hx'
    exact hx'
  refine wlp_mono (wlp_and hopen hreach) ?_
  rintro _ t ⟨⟨o, ho, hi, h0⟩, ht⟩
  obtain ⟨a, hrun⟩ := ht.running hclass ho hi
  exact ⟨o, a, hrun, h0⟩

/-! ## runs -/

/-- a call on an initialised operation -/
inductive Move where
  | update (src : Ptr) (srcLen : Nat) (dest : Bool) (destLen : Option Nat)
  | doFinal (src : Ptr) (srcLen : Nat) (dest : Bool) (destLen : Option Nat)

def Move.srcLen : Move → Nat
  | .update _ n _ _ => n
  | .doFinal _ n _ _ => n

def Move.last : Move → Bool
  | .update .. => false
  | .doFinal .. => true

/-- the result and `*destLen` -/
def Move.call (c : Crypto) (h : Nat) : Move → O (Nat × Nat)
  | .update p n o l => teeCipherUpdate c h p n o l
  | .doFinal p n o l => teeCipherDoFinal c h p n o l

/-- the bytes of the calls that succeeded, from the sources and to the destinations, and whether
one of these calls was the end of the context -/
structure Traffic where
  taken : Nat
  given : Nat
  ended : Bool
deriving DecidableEq, Repr

def Move.tally (x : Move) (r : Nat × Nat) (w : Traffic) : Traffic :=
  if r.1 = teeSuccess then ⟨w.taken + x.srcLen, w.given + r.2, x.last⟩ else w

/-- a call, and its bytes for the record -/
def Move.step (c : Crypto) (h : Nat) (x : Move) : Exec Stop (Sys × Traffic) (Nat × Nat) :=
  ghost (fun r _ _ => x.tally r) (x.call c h)

/-- `buffer_offs + srcLen` has 32 bits -/
def Move.Fits (h : Nat) (x : Move) (s : Sys) : Prop :=
  ∀ o, s.heap.blocks h = some (.op o) → o.bufferOffs + x.srcLen < 2 ^ 32

/-- the bytes that were taken and not put out are held back -/
def Balanced (c : Crypto) (h : Nat) (w : Sys × Traffic) : Prop :=
  (w.2.ended = false ∧ ∃ o a, Running c h a o w.1 ∧ w.2.given + o.bufferOffs = w.2.taken ∧
    (¬ 1 < o.blockSize → o.bufferOffs = 0)) ∨
  (w.2.ended = true ∧ Idle h w.1 ∧ w.2.given = w.2.taken)

theorem move_balanced {w : Sys × Traffic} (hf : c.Finishes) (hw : Balanced c h w) (x : Move)
    (hx : x.Fits h w.1) : wlp (x.step c h) (fun _ t => Balanced c h t) w := by
  unfold Move.step
  rw [wlp_ghost]
  obtain ⟨he, o, a, hr, hsum, hctr⟩ | ⟨-, hi, -⟩ := hw
  · have hfit := hx o hr.handle
    cases x with
    | update p n b l =>
      refine wlp_mono (cipherUpdate_lengths hr hfit) ?_
      rintro r t (⟨hr1, rfl⟩ | ⟨hr1, i, ht, hlen, hi⟩)
      · have hsame : (Move.update p n b l).tally r w.2 = w.2 := by
          unfold Move.tally
          rw [hr1]
          rfl
        rw [hsame]
        exact .inl ⟨he, o, a, hr, hsum, hctr⟩
      · have hnew : (Move.update p n b l).tally r w.2 = ⟨w.2.taken + n, w.2.given + r.2, false⟩ :=
          if_pos hr1
        rw [hnew]
        refine .inl ⟨rfl, _, a, ht, ?_, fun h1 => (hi h1).trans (hctr h1)⟩
        show w.2.given + r.2 + i = w.2.taken + n
        omega
    | doFinal p n b l =>
      refine wlp_mono (cipherDoFinal_spec hf hr hfit) ?_
      rintro r t (⟨hr1, rfl⟩ | ⟨hr1, hlen, hi, -⟩)
      · have hsame : (Move.doFinal p n b l).tally r w.2 = w.2 := by
          unfold Move.tally
          rw [hr1]
          rfl
        rw [hsame]
        exact .inl ⟨he, o, a, hr, hsum, hctr⟩
      · have hnew : (Move.doFinal p n b l).tally r w.2 = ⟨w.2.taken + n, w.2.given + r.2, true⟩ :=
          if_pos hr1
        rw [hnew]
        refine .inr ⟨rfl, hi, ?_⟩
        show w.2.given + r.2 = w.2.taken + n
        rw [hlen]
        unfold Operation.finalLength
        split
        · omega
        · rename_i h1
          have := hctr h1
          omega
  · cases x with
    | update p n b l => exact wlp_mono (cipherUpdate_idle hi) fun _ _ => False.elim
    | doFinal p n b l => exact wlp_mono (cipherDoFinal_idle hi) fun _ _ => False.elim

/-- What holds after some calls on an initialised operation: at the end of the context as many bytes
were put out as were taken; a call that asks for more room leaves everything as it was; at the end
of the context no call of the kernel has less room than bytes, and no more is put out than the
caller has room for. -/
structure Accounted (c : Crypto) (h : Nat) (w : Sys × Traffic) : Prop where
  ended : w.2.ended = true → w.2.given = w.2.taken
  held : w.2.ended = false → ∀ o, w.1.heap.blocks h = some (.op o) →
    w.2.given + o.bufferOffs = w.2.taken
  short : ∀ x : Move, x.Fits h w.1 →
    wlp (x.call c h) (fun r t => r.1 = teeErrorShortBuffer → t = w.1) w.1
  room : ∀ o src n dl, w.1.heap.blocks h = some (.op o) → o.has teeHandleFlagInitialized = true →
    (src = none → n = 0) → o.bufferOffs + n < 2 ^ 32 → o.finalLength n ≤ dl →
    finishWith (roomy (uteeCipherUpdate c)) (roomy (uteeCipherFinal c)) h o src n dl w.1 =
      finishCipher c h o src n dl w.1
  most : ∀ src n dest dl, (Move.doFinal src n dest (some dl)).Fits h w.1 →
    wlp (teeCipherDoFinal c h src n dest (some dl)) (fun r _ => r.1 = teeSuccess → r.2 ≤ dl) w.1

theorem Running.accounted {w : Sys × Traffic} (hf : c.Finishes) (hr : Running c h a o w.1)
    (he : w.2.ended = false) (hsum : w.2.given + o.bufferOffs = w.2.taken) : Accounted c h w where
  ended := fun e => by rw [he] at e; cases e
  held := by
    intro _ q hq
    rw [hr.handle] at hq
    cases hq
    exact hsum
  short := by
    intro x hx
    have hfit := hx o hr.handle
    cases x with
    | update p n b l =>
      refine wlp_mono (cipherUpdate_lengths hr hfit) ?_
      rintro r t (⟨-, ht⟩ | ⟨hr1, -⟩) hshort
      · exact ht
      · exact absurd (hr1.symm.trans hshort) (by decide)
    | doFinal p n b l =>
      refine wlp_mono (cipherDoFinal_spec hf hr hfit) ?_
      rintro r t (⟨-, ht⟩ | ⟨hr1, -⟩) hshort
      · exact ht
      · exact absurd (hr1.symm.trans hshort) (by decide)
  room := by
    intro q src n dl hq _ hsrc hfit hdl
    rw [hr.handle] at hq
    cases hq
    exact finishCipher_roomy hr hsrc hfit hdl
  most := by
    intro src n dest dl hx
    refine wlp_mono (cipherDoFinal_spec hf hr (hx o hr.handle)) ?_
    rintro r t (⟨hr1, -⟩ | ⟨-, -, -, hle⟩) hok
    · exact absurd (hr1.symm.trans hok) (by decide)
    · exact hle dl rfl

theorem Idle.accounted {w : Sys × Traffic} (hi : Idle h w.1) (he : w.2.ended = true)
    (hsum : w.2.given = w.2.taken) : Accounted c h w where
  ended := fun _ => hsum
  held := fun e => by rw [he] at e; cases e
  short := by
    intro x hx
    cases x with
    | update p n b l => exact wlp_mono (cipherUpdate_idle hi) fun _ _ => False.elim
    | doFinal p n b l => exact wlp_mono (cipherDoFinal_idle hi) fun _ _ => False.elim
  room := by
    intro q src n dl hq hinit
    obtain ⟨o, ho, hf⟩ := hi
    rw [ho] at hq
    cases hq
    rw [hf] at hinit
    cases hinit
  most := fun _ _ _ _ _ => wlp_mono (cipherDoFinal_idle hi) fun _ _ => False.elim

theorem Balanced.accounted {w : Sys × Traffic} (hf : c.Finishes) (hw : Balanced c h w) :
    Accounted c h w := by
  obtain ⟨he, o, a, hr, hsum, -⟩ | ⟨he, hi, hsum⟩ := hw
  · exact hr.accounted hf he hsum
  · exact hi.accounted he hsum

/-- behind the calls `l` on a new handle, `TEE_CipherInit` and the calls `moves` the property `Q`
holds of the state and of the bytes of these calls -/
def MessageAlong (c : Crypto) (s : Sys) (algorithm mode maxKeySize : Nat) (l : List Step)
    (iv : Ptr) (ivLen : Nat) (moves : List Move) (Q : Nat → Sys × Traffic → Prop) : Prop :=
  wlp (useOperation c algorithm mode maxKeySize l) (fun r t => r.1 = teeSuccess →
    wlp (teeCipherInit c r.2 iv ivLen) (fun _ u =>
      Guarded (Move.step c r.2) (fun x w => x.Fits r.2 w.1) moves (u, ⟨0, 0, false⟩) →
      wlp (run (Move.step c r.2) moves) (fun _ w => Q r.2 w) (u, ⟨0, 0, false⟩)) t) s

/-- **A message keeps its length**, and no call lacks room for it. -/
theorem lengths_run {maxKeySize : Nat} {iv : Ptr} {ivLen : Nat} (hf : c.Finishes)
    (hc : Core c.provider s.utc) (hlog : s.log = [])
    (hclass : teeAlgGetClass m = teeOperationCipher) (l : List Step) (moves : List Move) :
    MessageAlong c s m k maxKeySize l iv ivLen moves (Accounted c) := by
  refine wlp_mono (reachedAt_run hc hlog (.inl hclass) l) ?_
  intro r t ht hr
  refine wlp_mono (cipherInit_running (ht hr) hclass) ?_
  rintro _ u ⟨o, a, hu, h0⟩ hg
  have hstart : Balanced c r.2 (u, ⟨0, 0, false⟩) :=
    .inl ⟨rfl, o, a, hu, by rw [h0], fun _ => h0⟩
  refine wlp_mono (wlp_run_guarded (fun x w hw hx => move_balanced hf hw x hx) hg hstart) ?_
  exact fun _ w hw => hw.accounted hf

/-- a library that puts out what it is given -/
def measuredCrypto : Crypto where
  provider := sampleProvider
  answer := fun _ _ => teeSuccess
  ran := fun _ _ => true
  ran_success := always_ran
  ran_short := never_short
  length := fun _ e => match e with
    | .final _ d _ => d.length
    | _ => 0
  mac := fun _ _ => 0
  maxChunk := 0x400

theorem measuredCrypto_finishes : measuredCrypto.Finishes :=
  ⟨fun _ _ _ _ _ => rfl, fun _ _ _ _ _ => show teeSuccess ≠ teeErrorShortBuffer by decide⟩

/-- the bytes of a message, when no call panics -/
def messageTraffic (c : Crypto) (s : Sys) (algorithm mode maxKeySize : Nat) (l : List Step)
    (moves : List Move) : Option Traffic :=
  match useOperation c algorithm mode maxKeySize l s with
  | .error _ => none
  | .ok (r, t) =>
    match teeCipherInit c r.2 none 0 t with
    | .error _ => none
    | .ok (_, u) =>
      match run (Move.step c r.2) moves (u, ⟨0, 0, false⟩) with
      | .error _ => none
      | .ok (_, w) => some w.2

/-- 51 bytes for AES-CTS, and the second call has no room -/
def sampleMoves : List Move :=
  [.update (some fun i => UInt8.ofNat i) 33 true (some 16), .doFinal (some fun _ => 1) 18 true (some 0),
   .doFinal (some fun _ => 1) 18 true (some 51)]

theorem lengths_run_cts :
    messageTraffic measuredCrypto cipherSys teeAlgAesCts teeModeEncrypt 128 cipherStart sampleMoves =
      some ⟨51, 51, true⟩ ∧
    MessageAlong measuredCrypto cipherSys teeAlgAesCts teeModeEncrypt 128 cipherStart none 0
      sampleMoves (Accounted measuredCrypto) := by
  have hlog : cipherSys.log = [] := rfl
  have hc : Core measuredCrypto.provider cipherSys.utc := core_cipherSys
  refine ⟨by decide +kernel, ?_⟩
  generalize cipherSys = s at hlog hc ⊢
  exact lengths_run (c := measuredCrypto) measuredCrypto_finishes hc hlog (by decide) cipherStart
    sampleMoves

end MTower.Oper
