import MTower.Oper.Orderly
import MTower.Oper.Chunking

/-!
# The handles of cipher operations

* `Seated`             a handle with the block size and the buffer that its algorithm needs;
* `reachedAt_run`      in every state that a run reaches the handle is seated and in order;
* `takes_cipher`       `utee_cipher_update` then takes complete blocks for which there is room.
-/

set_option linter.unusedVariables false

namespace MTower.Oper
open Lib Kernel Cryp

variable {c : Crypto} {s t : Sys} {h k m op : Nat} {o o' : Operation} {a : Setup}

/-! ## seats -/

/-- the handle of an operation for the algorithm `m` in the mode `k` -/
structure Seat (m k : Nat) (a : Setup) (o : Operation) (s : Sys) : Prop where
  algorithm : o.info.algorithm = m
  mode : o.info.mode = k
  size : o.blockSize = a.blockSize
  two : o.bufferTwoBlocks = a.bufferTwoBlocks
  buffer : 1 < a.blockSize → ∃ d, s.heap.blocks o.buffer = some (.buffer d) ∧
    d.length = o.bufferSize ∧ o.bufferOffs ≤ d.length

def Seated (m k : Nat) (a : Setup) (h : Nat) (s : Sys) : Prop :=
  ∃ o, s.heap.blocks h = some (.op o) ∧ Seat m k a o s

/-- other contents of a block that is no buffer -/
theorem Seat.store (hs : Seat m k a o s) {q : Nat} {b : Block}
    (hq : ∀ d, s.heap.blocks q ≠ some (.buffer d)) : Seat m k a o (s.store q b) := by
  refine ⟨hs.algorithm, hs.mode, hs.size, hs.two, fun h1 => ?_⟩
  obtain ⟨d, hd, hl⟩ := hs.buffer h1
  refine ⟨d, (store_of_ne b ?_).trans hd, hl⟩
  intro e
  rw [e] at hd
  exact hq d hd

/-- another handle with the same layout -/
theorem Seat.update (hs : Seat m k a o s) (hl : o'.layout = o.layout)
    (ho : 1 < a.blockSize → ∀ d, s.heap.blocks o.buffer = some (.buffer d) →
      o'.bufferOffs ≤ d.length) : Seat m k a o' s := by
  have h1 : o'.layout.info.algorithm = o.layout.info.algorithm := by rw [hl]
  have h2 : o'.layout.info.mode = o.layout.info.mode := by rw [hl]
  have h3 : o'.layout.blockSize = o.layout.blockSize := by rw [hl]
  have h4 : o'.layout.bufferTwoBlocks = o.layout.bufferTwoBlocks := by rw [hl]
  have h5 : o'.layout.buffer = o.layout.buffer := by rw [hl]
  have h6 : o'.layout.bufferSize = o.layout.bufferSize := by rw [hl]
  refine ⟨h1.trans hs.algorithm, h2.trans hs.mode, h3.trans hs.size, h4.trans hs.two, fun h7 => ?_⟩
  obtain ⟨d, hd, hlen, -⟩ := hs.buffer h7
  refine ⟨d, ?_, hlen.trans h6.symm, ho h7 d hd⟩
  rw [show o'.buffer = o.buffer from h5]
  exact hd

instance : Stable (Seated m k a h) where
  utc := fun _ _ ⟨o, ho, hs⟩ => ⟨o, ho, hs.algorithm, hs.mode, hs.size, hs.two, hs.buffer⟩
  log := fun _ _ ⟨o, ho, hs⟩ => ⟨o, ho, hs.algorithm, hs.mode, hs.size, hs.two, hs.buffer⟩
  op := by
    rintro s q x x' hx hl hle ⟨o, ho, hs⟩
    have hq : ∀ d, s.heap.blocks q ≠ some (.buffer d) := by
      intro d hd
      rw [hx] at hd
      cases hd
    by_cases e : h = q
    · subst e
      rw [ho] at hx
      cases hx
      refine ⟨x', store_self _, (hs.update hl fun h1 d hd => ?_).store hq⟩
      obtain ⟨d', hd', -, hle'⟩ := hs.buffer h1
      rw [hd'] at hd
      cases hd
      exact hle.trans hle'
    · exact ⟨o, (store_of_ne _ e).trans ho, hs.store hq⟩
  buffer := by
    rintro s q d d' hd hl ⟨o, ho, hs⟩
    have hne : h ≠ q := by
      rintro rfl
      rw [ho] at hd
      cases hd
    refine ⟨o, (store_of_ne _ hne).trans ho, hs.algorithm, hs.mode, hs.size, hs.two, fun h1 => ?_⟩
    obtain ⟨e, he, hlen, hle⟩ := hs.buffer h1
    by_cases hq : o.buffer = q
    · rw [hq, hd] at he
      cases he
      exact ⟨d', by rw [hq]; exact store_self _, hl.trans hlen, by rw [hl]; exact hle⟩
    · exact ⟨e, (store_of_ne _ hq).trans he, hlen, hle⟩
  append := by
    rintro s q x d n hx hd hn ⟨o, ho, hs⟩
    have hq : ∀ d, s.heap.blocks q ≠ some (.buffer d) := by
      intro d hd
      rw [hx] at hd
      cases hd
    by_cases e : h = q
    · subst e
      rw [ho] at hx
      cases hx
      have hup : Seat m k a { x with bufferOffs := n } s := by
        refine hs.update rfl fun _ d' hd' => ?_
        rw [hd'] at hd
        cases hd
        exact hn
      exact ⟨_, store_self _, hup.store hq⟩
    · exact ⟨o, (store_of_ne _ e).trans ho, hs.store hq⟩

/-! ## allocation -/

theorem allocBuffer_seat (ho : s.heap.blocks op = some (.op o)) :
    wlp (allocBuffer op a) (fun res t => res = teeSuccess → ∃ b,
      t.heap.blocks op = some (.op { o with buffer := b }) ∧ (1 < a.blockSize →
        t.heap.blocks b = some (.buffer
          (List.replicate (if a.bufferTwoBlocks then a.blockSize * 2 else a.blockSize) 0)))) s := by
  unfold allocBuffer
  by_cases hsz : 1 < a.blockSize
  · rw [if_pos hsz, wlp_bind]
    refine wlp_malloc ?_ ?_
    · intro _
      rw [wlp_bind, wlp_updateOp_of (s := s.tick) ho, if_pos rfl]
      exact fun e => absurd e (by decide)
    · intro b h0 hn
      have hne : op ≠ b := by
        rintro rfl
        rw [ho] at hn
        cases hn
      rw [wlp_bind, wlp_updateOp_of ((store_of_ne (s := s.tick) _ hne).trans ho)]
      intro _
      exact ⟨b, store_self _, fun _ => (store_of_ne _ hne.symm).trans (store_self _)⟩
  · rw [if_neg hsz]
    exact fun _ => ⟨o.buffer, ho, fun e => absurd e hsz⟩

theorem prepareOperation_seated {n : Nat} (ho : s.heap.blocks op = some (.op o))
    (hm : o.info.algorithm = m) (hk : o.info.mode = k) (h0 : o.bufferOffs = 0) :
    wlp (prepareOperation c op a m k n) (fun res t => res = teeSuccess → Seated m k a op t) s := by
  refine wlp_andThen (wlp_mono (allocBuffer_seat ho) ?_)
  intro res t ht hres
  obtain ⟨b, hb, hbuf⟩ := ht hres
  refine wlp_andThen ?_
  rw [setBlockSize, wlp_bind, wlp_updateOp_of hb]
  intro _
  have hrest : Maintains (Seated m k a op) (andThen (allocKeys op a m n) <|
      andThen (allocState c op m k) <| andThen (initDigest c op m) (setInitial op)) :=
    keeps_andThen (keeps_allocKeys op a m n) <| keeps_andThen (keeps_allocState op m k) <|
    keeps_andThen (keeps_initDigest op m) (keeps_setInitial op)
  refine wlp_mono (hrest _ ⟨_, store_self _, hm, hk, rfl, rfl, fun h1 => ?_⟩) fun _ _ ht _ => ht
  have hne : b ≠ op := by
    rintro rfl
    rw [hb] at hbuf
    cases hbuf h1
  refine ⟨_, (store_of_ne _ hne).trans (hbuf h1), List.length_replicate, ?_⟩
  show o.bufferOffs ≤ _
  rw [h0]
  exact Nat.zero_le _

/-! ## runs -/

/-- a call on a handle keeps what is stable -/
theorem keeps_step {P : Sys → Prop} [Stable P] (x : Step) :
    Maintains P (Oper.entry c (x.entry h)) := by
  cases x with
  | setOperationKey k => exact keeps_teeSetOperationKey k
  | setOperationKey2 k l => exact keeps_teeSetOperationKey2 k l
  | resetOperation => exact Maintains.map _ (keeps_resetOperation h)
  | cipherInit p n => exact Maintains.map _ (keeps_cipherInit p n)
  | cipherUpdate p n o l => exact Maintains.map _ (keeps_teeCipherUpdate p n o l)
  | cipherDoFinal p n o l => exact Maintains.map _ (keeps_teeCipherDoFinal p n o l)
  | macInit => exact Maintains.map _ (keeps_macInit h)
  | macUpdate p n => exact Maintains.map _ (keeps_macUpdate p n)
  | macComputeFinal p n o l => exact Maintains.map _ (keeps_teeMacComputeFinal p n o l)
  | macCompareFinal p n m l => exact keeps_teeMacCompareFinal p n m l

/-- a handle that a run reached -/
structure ReachedAt (c : Crypto) (m k : Nat) (h : Nat) (s : Sys) : Prop where
  ne : h ≠ 0
  good : GoodAt c h s
  seat : ∃ a, setupOf m k = some a ∧ Seated m k a h s

theorem reachedAt_step (hr : ReachedAt c m k h s) (x : Step) :
    wlp (Oper.entry c (x.entry h)) (fun _ t => ReachedAt c m k h t) s := by
  obtain ⟨h0, hg, a, ha, hs⟩ := hr
  refine wlp_mono (wlp_and (step_good hg x) (keeps_step x s hs)) ?_
  exact fun _ v hv => ⟨h0, hv.1, a, ha, hv.2⟩

/-- **In every state that a run reaches the handle is seated and in order.** -/
theorem reachedAt_run {n : Nat} (hc : Core c.provider s.utc) (hlog : s.log = [])
    (hclass : teeAlgGetClass m = teeOperationCipher ∨ teeAlgGetClass m = teeOperationMac)
    (l : List Step) : wlp (useOperation c m k n l) (fun r t => r.1 = teeSuccess →
      ReachedAt c m k r.2 t) s := by
  refine useOperation_run ?_ ?_ l
  · have hseat : wlp (teeAllocateOperation c true m k n) (fun r t => r.1 = teeSuccess →
        r.2 ≠ 0 ∧ ∃ a, setupOf m k = some a ∧ Seated m k a r.2 t) s := by
      refine teeAllocateOperation_wlp (Q := fun op t => op ≠ 0 ∧ ∃ a, setupOf m k = some a ∧
        Seated m k a op t) fun a op t ha h0 hb hu hl _ => ?_
      refine wlp_mono (prepareOperation_seated hb rfl rfl rfl) ?_
      exact fun _ v hv hr => ⟨h0, a, ha, hv hr⟩
    refine wlp_mono (wlp_and (teeAllocateOperation_good hc hlog hclass) hseat) ?_
    exact fun r t ht hr => ⟨(ht.2 hr).1, ht.1 hr, (ht.2 hr).2⟩
  · exact fun h x t ht => reachedAt_step ht x

/-! ## block sizes of ciphers -/

/-- what `TEE_AllocateOperation` sets for a cipher -/
structure CipherSetup (m k : Nat) (a : Setup) : Prop where
  mode : k = teeModeEncrypt ∨ k = teeModeDecrypt
  sizes : a.blockSize = 1 ∧ m = teeAlgAesCtr ∧ a.bufferTwoBlocks = false ∨
    (a.blockSize = 8 ∨ a.blockSize = 16) ∧ teeCipherGetBlockSize m = some a.blockSize
  two : a.bufferTwoBlocks = true → a.blockSize = 16
  cts : m = teeAlgAesCts → a.bufferTwoBlocks = true

theorem cipherSetup (ha : setupOf m k = some a) (hclass : teeAlgGetClass m = teeOperationCipher) :
    CipherSetup m k a := by
  have hother : ∀ {l : List Nat}, (∀ m ∈ l, teeAlgGetClass m ≠ teeOperationCipher) → m ∉ l :=
    fun hl hm => hl m hm hclass
  have hpad : m ≠ teeAlgRsaNoPad := fun e =>
    hother (l := [teeAlgRsaNoPad]) (by decide) (List.mem_singleton.mpr e)
  have hdec : ∀ m ∈ teeAlgTwoBlocks ++ teeAlgBlocks ++ teeAlgStream,
      teeAlgGetClass m = teeOperationCipher → ∀ b, (b = if m ∈ teeAlgStream then 1
        else if teeAlgGetMainAlg m = teeMainAlgoAes then teeAesBlockSize else teeDesBlockSize) →
      (b = 1 ∧ m = teeAlgAesCtr ∧ decide (m ∈ teeAlgTwoBlocks) = false ∨
        (b = 8 ∨ b = 16) ∧ teeCipherGetBlockSize m = some b) ∧
      (decide (m ∈ teeAlgTwoBlocks) = true → b = 16) ∧
      (m = teeAlgAesCts → decide (m ∈ teeAlgTwoBlocks) = true) := by
    intro m hm hc b hb
    subst hb
    revert m
    decide
  unfold setupOf at ha
  by_cases h1 : m ∈ teeAlgTwoBlocks ++ teeAlgBlocks ++ teeAlgStream
  · rw [if_pos h1] at ha
    obtain ⟨h2, h3, h4⟩ := hdec m h1 hclass _ rfl
    dsimp only at ha
    split at ha
    · rename_i hk
      cases ha
      exact ⟨.inl hk, h2, h3, h4⟩
    split at ha
    · rename_i hk
      cases ha
      exact ⟨.inr hk, h2, h3, h4⟩
    · cases ha
  · rw [if_neg h1, if_neg (hother (by decide)), if_neg (hother (by decide)), if_neg hpad,
      if_neg (hother (by decide)), if_neg (hother (by decide)), if_neg (hother (by decide))] at ha
    cases ha

/-! ## `utee_cipher_update` -/

/-- the library takes all bytes -/
def Crypto.Feeds (c : Crypto) : Prop := ∀ log st d, c.answer log (.feed st d) = teeSuccess

/-- without room nothing happens -/
theorem uteeCipherUpdate_short {src : List UInt8} {n : Nat} (ha : Attached c o s.utc)
    (hn : n < src.length) :
    uteeCipherUpdate c o.state src n s = .ok ((teeErrorShortBuffer, src.length), s) := by
  obtain ⟨cs, hcs, hst, -⟩ := ha.stateAt
  unfold uteeCipherUpdate
  rw [bind_of_ok (sys_ok (getState_eq ha.core hst)), if_neg (not_not.mpr rfl),
    bind_of_ok (sys_ok hcs), if_pos hn]
  rfl

/-- complete blocks reach the library -/
theorem teeDoCipherUpdate_eq {cs : CrypState} {src : List UInt8}
    (hset : CipherSetup cs.algo cs.mode a) (hd : a.blockSize ∣ src.length) (st : Nat) :
    teeDoCipherUpdate c st cs src = crypto c (.feed st src) := by
  have hmode : ¬ (cs.mode ≠ teeModeEncrypt ∧ cs.mode ≠ teeModeDecrypt) := by
    rintro ⟨h1, h2⟩
    rcases hset.mode with e | e
    · exact h1 e
    · exact h2 e
  unfold teeDoCipherUpdate
  rw [if_neg hmode]
  rcases hset.sizes with ⟨-, hctr, -⟩ | ⟨-, hsize⟩
  · rw [hctr]
    exact if_neg fun e => e.2 rfl
  · rw [hsize]
    exact if_neg fun e => e.1 (Nat.mod_eq_zero_of_dvd hd)

/-- with room the call is one of the library -/
theorem uteeCipherUpdate_eq {src : List UInt8} {n : Nat} (ha : Attached c o s.utc)
    (hset : CipherSetup o.info.algorithm o.info.mode a) (hd : a.blockSize ∣ src.length)
    (hn : src.length ≤ n) : uteeCipherUpdate c o.state src n s = (do
      let res ← if src.length ≠ 0 then crypto c (.feed o.state src) else pure teeSuccess
      if res = teeSuccess ∨ res = teeErrorShortBuffer then pure (res, src.length)
      else pure (res, n) : O (Nat × Nat)) s := by
  obtain ⟨cs, hcs, hst, halgo, -, -, -, hmode⟩ := ha.stateAt
  rw [← halgo, ← hmode] at hset
  unfold uteeCipherUpdate
  rw [bind_of_ok (sys_ok (getState_eq ha.core hst)), if_neg (not_not.mpr rfl),
    bind_of_ok (sys_ok hcs), if_neg (Nat.not_lt.mpr hn), teeDoCipherUpdate_eq hset hd]

/-- a call of the library is in the log when it succeeds, and is not when it lacks room -/
theorem crypto_feed {E : Stop → Prop} {st : Nat} {d : List UInt8} {Q : Nat → Sys → Prop}
    (h1 : c.answer s.log (.feed st d) = teeSuccess →
      Q teeSuccess { s with log := .feed st d :: s.log })
    (h2 : c.answer s.log (.feed st d) ≠ teeSuccess →
      ∀ log, (c.answer s.log (.feed st d) = teeErrorShortBuffer → log = s.log) →
      Q (c.answer s.log (.feed st d)) { s with log := log }) :
    wpx E (crypto c (.feed st d)) Q s := by
  show Q (c.answer s.log (.feed st d)) { s with log := if c.ran s.log _ then _ else _ }
  by_cases hok : c.answer s.log (.feed st d) = teeSuccess
  · rw [if_pos (c.ran_success _ _ hok), hok]
    exact h1 hok
  · refine h2 hok _ fun hshort => ?_
    rw [c.ran_short _ _ hshort]
    rfl

/-- **`utee_cipher_update` takes complete blocks for which there is room, when the library does.** -/
theorem takes_cipher {E : Stop → Prop} {u : Utc} (hlib : ∀ log st d,
    c.answer log (.feed st d) = teeSuccess ∨ E (.panic (c.answer log (.feed st d))))
    (ha : Attached c o u) (hset : CipherSetup o.info.algorithm o.info.mode a) :
    Takes E (uteeCipherUpdate c) (fun v => v = u) o.state a.blockSize (fun len n => len ≤ n) where
  ok s d n hu hd hn := by
    subst hu
    unfold wpx
    rw [uteeCipherUpdate_eq ha hset hd hn]
    by_cases h0 : d.length ≠ 0
    · rw [if_pos h0]
      show wpx E (crypto c (.feed o.state d) >>= _) _ s
      rw [wpx_bind]
      refine crypto_feed (fun _ => ?_) fun hne log _ => ?_
      · exact ⟨rfl, rfl, rfl, .inl rfl⟩
      · have hE := (hlib s.log o.state d).resolve_left hne
        dsimp only
        split
        · rw [wpx_pure, if_neg hne]
          exact hE
        · rw [wpx_pure, if_neg hne]
          exact hE
    · have hnil : d = [] := List.length_eq_zero_iff.mp (not_not.mp h0)
      rw [if_neg h0]
      exact ⟨rfl, rfl, rfl, .inr ⟨hnil, rfl⟩⟩

theorem scant_cipher {u : Utc} (ha : Attached c o u) :
    Scant (uteeCipherUpdate c) (fun v => v = u) o.state := by
  intro s d n hu hlt
  subst hu
  exact uteeCipherUpdate_short ha hlt

end MTower.Oper
