import MTower.Cipher.Stealing

/-!
# The calls of an operation

* `Call`, `Call.run`     one call, in whatever memory the caller has then;
* `session`              calls with whole blocks and a last one, and the memory after each of them;
* `session_run`          what holds of each call holds of all of them;
* `cts_correct`          a message is encrypted as the comment of the function says, and decrypted.
-/

set_option linter.unusedVariables false

namespace MTower.Cipher
open Lib Lib.Cbc

/-- a call with the caller's memory, and what the arrays of the function hold before -/
structure Call where
  mem : Mem
  junk : Area → Mem
  data : Nat
  len : Nat
  dst : Nat

def Call.input (c : Call) : List UInt8 := c.mem.bytes c.data c.len

/-- what is found in the output buffer -/
def Call.output (c : Call) (m : Mem) : List UInt8 := m.bytes c.dst c.len

/-- two buffers in a 32-bit address space that lie apart -/
structure Call.Valid (c : Call) : Prop where
  data_le : c.data + c.len ≤ 2 ^ 32
  dst_le : c.dst + c.len ≤ 2 ^ 32
  apart : c.data + c.len ≤ c.dst ∨ c.dst + c.len ≤ c.data

/-- nothing but the output buffer is written -/
def Call.Kept (c : Call) (m : Mem) : Prop := ∀ a, ¬ (Range.mk c.dst c.len).Has a → m a = c.mem a

section
variable {lib : Ciphers}

def Call.enter (c : Call) (ctx : Context → lib.Ctx) : Sys lib where
  mem := fun a => if a = .caller then c.mem else c.junk a
  ctx := ctx

def Call.run (c : Call) (mode : Nat) (lastBlock : Bool) (ctx : Context → lib.Ctx) :
    Except Fault (Nat × Sys lib) :=
  teeAesCbcCtsUpdate mode lastBlock ⟨.caller, c.data⟩ c.len ⟨.caller, c.dst⟩ (c.enter ctx)

/-- the memory after each call, when every call succeeds -/
def session (mode : Nat) : List Call → Call → (Context → lib.Ctx) → Option (List Mem)
  | [], last, ctx =>
    match last.run mode true ctx with
    | .ok (rc, t) => if rc = teeSuccess then some [t.mem .caller] else none
    | .error _ => none
  | c :: calls, last, ctx =>
    match c.run mode false ctx with
    | .ok (rc, t) =>
      if rc = teeSuccess then (session mode calls last t.ctx).map (t.mem .caller :: ·) else none
    | .error _ => none

end

def inputs (calls : List Call) : List UInt8 := calls.flatMap Call.input

def outputs (calls : List Call) (ms : List Mem) : List UInt8 :=
  (List.zipWith Call.output calls ms).flatten

/-- the calls before the last one have whole blocks, and the last one has more than a block -/
structure Allowed (calls : List Call) (last : Call) : Prop where
  valid : ∀ c ∈ calls, c.Valid
  whole : ∀ c ∈ calls, 16 ∣ c.len
  last_valid : last.Valid
  last_long : 16 < last.len

section
variable {lib : Ciphers} {c last : Call} {calls : List Call} {ctx : Context → lib.Ctx} {mode : Nat}

@[simp] theorem length_input (c : Call) : c.input.length = c.len := Mem.length_bytes _ _ _

theorem enter_bytes (c : Call) (ctx : Context → lib.Ctx) :
    (c.enter ctx).bytes ⟨.caller, c.data⟩ c.len = c.input := rfl

/-- buffers that lie apart are not too long for the sum -/
theorem Call.Valid.space (h : c.Valid) : c.len + 15 < 2 ^ 32 := by
  have h1 := h.data_le
  have h2 := h.dst_le
  have h3 := h.apart
  omega

theorem long_inputs (h : Allowed calls last) : 16 < (inputs (calls ++ [last])).length := by
  have hl := h.last_long
  simp only [inputs, List.flatMap_append, List.length_append, List.flatMap_cons,
    List.flatMap_nil, List.append_nil, length_input]
  omega

/-- **All the calls.**  `ready` says which vector the contexts have, `head` and `next` what a call
with whole blocks does, and `tail` what the last call does. -/
theorem session_run (ready : (Context → lib.Ctx) → Block → Prop)
    (head tail : Block → List UInt8 → List UInt8) (next : Block → List UInt8 → Block)
    (hhead : ∀ (c : Call) (ctx : Context → lib.Ctx) iv, ready ctx iv → c.Valid → 16 ∣ c.len →
      ∃ t, c.run mode false ctx = .ok (teeSuccess, t) ∧ c.Kept (t.mem .caller) ∧
        c.output (t.mem .caller) = head iv c.input ∧ ready t.ctx (next iv c.input))
    (htail : ∀ (c : Call) (ctx : Context → lib.Ctx) iv, ready ctx iv → c.Valid → 16 < c.len →
      ∃ t, c.run mode true ctx = .ok (teeSuccess, t) ∧ c.Kept (t.mem .caller) ∧
        c.output (t.mem .caller) = tail iv c.input)
    (happend : ∀ iv q l, 16 ∣ q.length → 16 < l.length →
      tail iv (q ++ l) = head iv q ++ tail (next iv q) l)
    (h : Allowed calls last) {iv : Block} (hready : ready ctx iv) :
    ∃ ms, session mode calls last ctx = some ms ∧ List.Forall₂ Call.Kept (calls ++ [last]) ms ∧
      outputs (calls ++ [last]) ms = tail iv (inputs (calls ++ [last])) := by
  induction calls generalizing ctx iv with
  | nil =>
    obtain ⟨t, hrun, hkept, hout⟩ := htail last ctx iv hready h.last_valid h.last_long
    refine ⟨[t.mem .caller], ?_, .cons hkept .nil, ?_⟩
    · rw [session, hrun]
      exact if_pos rfl
    · simp [outputs, inputs, hout]
  | cons c calls ih =>
    have hmem : c ∈ c :: calls := List.mem_cons_self
    obtain ⟨t, hrun, hkept, hout, hnext⟩ := hhead c ctx iv hready (h.valid c hmem) (h.whole c hmem)
    have hrest : Allowed calls last :=
      ⟨fun d hd => h.valid d (List.mem_cons_of_mem _ hd),
        fun d hd => h.whole d (List.mem_cons_of_mem _ hd), h.last_valid, h.last_long⟩
    obtain ⟨ms, hms, hkepts, houts⟩ := ih hrest hnext
    have hlong := long_inputs hrest
    refine ⟨t.mem .caller :: ms, ?_, .cons hkept hkepts, ?_⟩
    · rw [session, hrun]
      exact (if_pos rfl).trans (by rw [hms]; rfl)
    · have hin : inputs (c :: calls ++ [last]) = c.input ++ inputs (calls ++ [last]) := rfl
      rw [hin, happend iv _ _ (by rw [length_input]; exact h.whole c hmem) hlong, ← houts, ← hout]
      rfl

/-! ## encryption and decryption -/

/-- a run that ends well, with `out` in the buffer -/
theorem run_of_wp {b : Bool} {out : List UInt8} {R : (Context → lib.Ctx) → Prop}
    (h : wp (teeAesCbcCtsUpdate mode b ⟨.caller, c.data⟩ c.len ⟨.caller, c.dst⟩)
      (fun rc t => rc = teeSuccess ∧ SameOutside (c.enter ctx) t c.dst c.len ∧
        t.bytes ⟨.caller, c.dst⟩ c.len = out ∧ R t.ctx) (c.enter ctx)) :
    ∃ t, c.run mode b ctx = .ok (teeSuccess, t) ∧ c.Kept (t.mem .caller) ∧
      c.output (t.mem .caller) = out ∧ R t.ctx := by
  obtain ⟨rc, t, hrun, rfl, hsame, hout, hR⟩ := wp_iff.mp h
  exact ⟨t, hrun, hsame, hout, hR⟩

/-- a call that is not the last one -/
theorem teeAesCbcCtsUpdate_head {data dst : Ptr} {len : Nat} :
    (teeAesCbcCtsUpdate mode false data len dst : O lib Nat) = cbcUpdate mode data len dst :=
  if_pos rfl

theorem put_sameOutside {s : Sys lib} {dst len : Nat} {l : List UInt8} (h : len = l.length)
    (x : lib.Ctx) : SameOutside s ((s.put ⟨.caller, dst⟩ l).setCtx .cbc x) dst len := by
  intro a ha
  rw [setCtx_mem, put_outside]
  intro _
  rw [← h]
  exact ha

/-- the contexts of an encryption -/
def Encrypts (lib : Ciphers) (K : lib.Key) (ctx : Context → lib.Ctx) (v : Block) : Prop :=
  lib.key (ctx .cbc) = K ∧ lib.iv (ctx .cbc) = v

/-- and of a decryption, which uses both -/
def Decrypts (lib : Ciphers) (K : lib.Key) (ctx : Context → lib.Ctx) (v : Block) : Prop :=
  Encrypts lib K ctx v ∧ lib.key (ctx .ecb) = K

theorem encrypt_head {K : lib.Key} {v : Block} (h : Encrypts lib K ctx v) (hlen : 16 ∣ c.len) :
    ∃ t, c.run teeModeEncrypt false ctx = .ok (teeSuccess, t) ∧ c.Kept (t.mem .caller) ∧
      c.output (t.mem .caller) = join (chained (lib.encrypt K) v c.input) ∧
      Encrypts lib K t.ctx (chain v (chained (lib.encrypt K) v c.input)) := by
  obtain ⟨rfl, rfl⟩ := h
  obtain ⟨k, hk⟩ := hlen
  rw [Nat.mul_comm] at hk
  have hcut : cut 16 c.input = cutN 16 k c.input := cut_eq (by decide) (by rw [length_input, hk])
  generalize hout : chained (lib.encrypt (lib.key (ctx .cbc))) (lib.iv (ctx .cbc)) c.input = out
  have hjoin : c.len = (join out).length := by
    rw [length_join, ← hout, length_cbcEncrypt, hcut, length_cutN, hk]
  rw [chained, hcut] at hout
  apply run_of_wp (R := fun ctx' => Encrypts lib _ ctx' (chain _ out))
  rw [teeAesCbcCtsUpdate_head]
  apply wp_cbcEncrypt hk (.inl rfl) (.inl rfl) hout.symm
  intro x hkey hiv
  refine ⟨rfl, put_sameOutside hjoin x, ?_, ?_, ?_⟩
  · rw [setCtx_bytes, bytes_put_self hjoin]
  · rw [setCtx_ctx]
    exact hkey
  · rw [setCtx_ctx]
    exact hiv

theorem decrypt_head {K : lib.Key} {v : Block} (h : Decrypts lib K ctx v) (hlen : 16 ∣ c.len) :
    ∃ t, c.run teeModeDecrypt false ctx = .ok (teeSuccess, t) ∧ c.Kept (t.mem .caller) ∧
      c.output (t.mem .caller) = join (unchained (lib.decrypt K) v c.input) ∧
      Decrypts lib K t.ctx (chain v (cut 16 c.input)) := by
  obtain ⟨⟨rfl, rfl⟩, hecb⟩ := h
  obtain ⟨k, hk⟩ := hlen
  rw [Nat.mul_comm] at hk
  have hcut : cut 16 c.input = cutN 16 k c.input := cut_eq (by decide) (by rw [length_input, hk])
  have hjoin : c.len = (join (cbcDecrypt (Vector.zipWith (· ^^^ ·))
      (lib.decrypt (lib.key (ctx .cbc))) (lib.iv (ctx .cbc)) (cutN 16 k c.input))).length := by
    rw [length_join, length_cbcDecrypt, length_cutN, hk]
  rw [unchained, hcut]
  apply run_of_wp (R := fun ctx' => Decrypts lib _ ctx' (chain _ (cutN 16 k c.input)))
  rw [teeAesCbcCtsUpdate_head]
  apply wp_cbcDecrypt hk (.inl rfl) (.inl rfl)
  intro x hkey hiv
  refine ⟨rfl, put_sameOutside hjoin x, ?_, ⟨?_, ?_⟩, ?_⟩
  · rw [setCtx_bytes]
    exact bytes_put_self hjoin
  · rw [setCtx_ctx]
    exact hkey
  · rw [setCtx_ctx]
    exact hiv
  · rw [setCtx_ctx_ne (by exact Context.noConfusion)]
    exact hecb

theorem encrypt_tail {K : lib.Key} {v : Block} (h : Encrypts lib K ctx v) (hc : c.Valid)
    (hlen : 16 < c.len) :
    ∃ t, c.run teeModeEncrypt true ctx = .ok (teeSuccess, t) ∧ c.Kept (t.mem .caller) ∧
      c.output (t.mem .caller) = steal (· ^^^ ·) (lib.encrypt K) v c.input := by
  obtain ⟨rfl, rfl⟩ := h
  obtain ⟨rc, t, hrun, rfl, hsame, hout⟩ :=
    wp_iff.mp (ctsEncrypt_run (s := c.enter ctx) hlen hc.space hc.apart)
  exact ⟨t, hrun, hsame, hout⟩

theorem decrypt_tail {K : lib.Key} {v : Block} (h : Decrypts lib K ctx v) (hc : c.Valid)
    (hlen : 16 < c.len) :
    ∃ t, c.run teeModeDecrypt true ctx = .ok (teeSuccess, t) ∧ c.Kept (t.mem .caller) ∧
      c.output (t.mem .caller) = unsteal (· ^^^ ·) (lib.decrypt K) v c.input := by
  obtain ⟨⟨rfl, rfl⟩, hecb⟩ := h
  obtain ⟨rc, t, hrun, rfl, hsame, hout⟩ :=
    wp_iff.mp (ctsDecrypt_run (s := c.enter ctx) hecb hlen hc.space hc.apart)
  exact ⟨t, hrun, hsame, hout⟩

theorem session_encrypt {K : lib.Key} {v : Block} (h : Allowed calls last)
    (hctx : Encrypts lib K ctx v) : ∃ ms, session teeModeEncrypt calls last ctx = some ms ∧
      List.Forall₂ Call.Kept (calls ++ [last]) ms ∧ outputs (calls ++ [last]) ms =
        steal (· ^^^ ·) (lib.encrypt K) v (inputs (calls ++ [last])) := by
  refine session_run (Encrypts lib K) (fun v l => join (chained (lib.encrypt K) v l))
    (steal (· ^^^ ·) (lib.encrypt K)) (fun v l => chain v (chained (lib.encrypt K) v l))
    (fun c ctx v hv hc hl => encrypt_head hv hl)
    (fun c ctx v hv hc hl => encrypt_tail hv hc hl) (fun v q l hq hl => ?_) h hctx
  obtain ⟨k, hk⟩ := hq
  rw [Nat.mul_comm] at hk
  rw [steal_append (by decide) hk hl, chained, cut_eq (by decide) hk]

theorem session_decrypt {K : lib.Key} {v : Block} (h : Allowed calls last)
    (hctx : Decrypts lib K ctx v) : ∃ ms, session teeModeDecrypt calls last ctx = some ms ∧
      List.Forall₂ Call.Kept (calls ++ [last]) ms ∧ outputs (calls ++ [last]) ms =
        unsteal (· ^^^ ·) (lib.decrypt K) v (inputs (calls ++ [last])) := by
  refine session_run (Decrypts lib K) (fun v l => join (unchained (lib.decrypt K) v l))
    (unsteal (· ^^^ ·) (lib.decrypt K)) (fun v l => chain v (cut 16 l))
    (fun c ctx v hv hc hl => decrypt_head hv hl)
    (fun c ctx v hv hc hl => decrypt_tail hv hc hl) (fun v q l hq hl => ?_) h hctx
  obtain ⟨k, hk⟩ := hq
  rw [Nat.mul_comm] at hk
  rw [unsteal_append (by decide) hk hl, unchained, cut_eq (by decide) hk]

end

/-- **Ciphertext stealing.**  However a message is cut into calls, its ciphertext is what the
comment says and no other byte is written; decryption with the same vector, cut in any way, gives
the message back. -/
theorem cts_correct (lib : Ciphers) (K : lib.Key) (v : Block) (ctx : Context → lib.Ctx)
    (calls : List Call) (last : Call) (h : Allowed calls last) (hctx : Encrypts lib K ctx v) :
    ∃ ms, session teeModeEncrypt calls last ctx = some ms ∧
      List.Forall₂ Call.Kept (calls ++ [last]) ms ∧
      outputs (calls ++ [last]) ms =
        steal (· ^^^ ·) (lib.encrypt K) v (inputs (calls ++ [last])) ∧
      ∀ (ctx' : Context → lib.Ctx) (calls' : List Call) (last' : Call), Allowed calls' last' →
        Decrypts lib K ctx' v → inputs (calls' ++ [last']) = outputs (calls ++ [last]) ms →
        ∃ ms', session teeModeDecrypt calls' last' ctx' = some ms' ∧
          List.Forall₂ Call.Kept (calls' ++ [last']) ms' ∧
          outputs (calls' ++ [last']) ms' = inputs (calls ++ [last]) := by
  obtain ⟨ms, hms, hkept, hout⟩ := session_encrypt h hctx
  refine ⟨ms, hms, hkept, hout, ?_⟩
  intro ctx' calls' last' h' hctx' hin
  obtain ⟨ms', hms', hkept', hout'⟩ := session_decrypt h' hctx'
  refine ⟨ms', hms', hkept', ?_⟩
  rw [hout', hin, hout, unsteal_steal (by decide) (lib.decrypt_encrypt K) _ _ (long_inputs h)]
  · intro x y
    rw [UInt8.xor_assoc, UInt8.xor_self, UInt8.xor_zero]
  · exact fun z => UInt8.zero_xor

/-- a cipher that adds the key to a block -/
def addKey (k v : Block) : Block := Vector.zipWith (· ^^^ ·) v k

/-- a library with this cipher; a context is a key and a vector -/
def Ciphers.addKey : Ciphers where
  Key := Block
  encrypt := Cipher.addKey
  decrypt := Cipher.addKey
  decrypt_encrypt := fun k v =>
    zipWith_back (fun x y => by rw [UInt8.xor_assoc, UInt8.xor_self, UInt8.xor_zero]) v k
  Ctx := Block × Block
  key := Prod.fst
  iv := Prod.snd
  update := fun c algo mode _ l =>
    if algo = teeAlgAesCbcNoPad ∧ mode = teeModeEncrypt then
      .ok (join (chained (Cipher.addKey c.1) c.2 l),
        (c.1, chain c.2 (chained (Cipher.addKey c.1) c.2 l)))
    else if algo = teeAlgAesCbcNoPad ∧ mode = teeModeDecrypt then
      .ok (join (unchained (Cipher.addKey c.1) c.2 l), (c.1, chain c.2 (cut 16 l)))
    else if algo = teeAlgAesEcbNoPad ∧ mode = teeModeDecrypt then
      .ok (join ((cut 16 l).map (Cipher.addKey c.1)), c)
    else .error teeErrorNotSupported
  cbc_encrypt := fun c _ l _ => ⟨_, if_pos ⟨rfl, rfl⟩, rfl, rfl⟩
  cbc_decrypt := fun c _ l _ =>
    ⟨_, (if_neg (by decide)).trans (if_pos ⟨rfl, rfl⟩), rfl, rfl⟩
  ecb_decrypt := fun c _ l _ =>
    ⟨c, (if_neg (by decide)).trans ((if_neg (by decide)).trans (if_pos ⟨rfl, rfl⟩)), rfl⟩

/-- a block, and then 17 bytes -/
def someCalls (len : Nat) : Call where
  mem := UInt8.ofNat
  junk := fun _ => UInt8.ofNat
  data := 0
  len := len
  dst := 100

theorem someCalls_allowed : Allowed [someCalls 16] (someCalls 17) where
  valid := fun c hc => List.mem_singleton.mp hc ▸ ⟨by decide, by decide, by decide⟩
  whole := fun c hc => List.mem_singleton.mp hc ▸ by decide
  last_valid := ⟨by decide, by decide, by decide⟩
  last_long := by decide

def someContexts : Context → Ciphers.addKey.Ctx := fun _ => (block 16 [1, 2], block 16 [3])

theorem cts_someCalls : ∃ ms,
    session teeModeEncrypt [someCalls 16] (someCalls 17) someContexts = some ms ∧
    (outputs [someCalls 16, someCalls 17] ms).length = 33 := by
  obtain ⟨ms, hms, -, hout, -⟩ := cts_correct Ciphers.addKey (block 16 [1, 2]) (block 16 [3])
    someContexts _ _ someCalls_allowed ⟨rfl, rfl⟩
  refine ⟨ms, hms, ?_⟩
  exact (congrArg List.length hout).trans (by decide +kernel)

end MTower.Cipher
