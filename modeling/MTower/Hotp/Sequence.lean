import MTower.Hotp.Commands
import MTower.Lib.Bits

/-!
# The sequence of one-time passwords

What `get_hotp` returns is stated with the definitions of RFC 4226: the HMAC of the eight byte
counter, its dynamic truncation, and six digits of it.

* `Computes`          the calls of the internal API compute an HMAC, call by call;
* `hmacSteps_mac`     so does `hmac_sha1` when it succeeds;
* `truncated_eq`      `truncate_` is the dynamic truncation;
* `hotp_step`, `hotp_run`  one command and any number of them, after a key was registered;
* `hotp_sequence`     the one-time password after `n` others.
-/

set_option linter.unusedVariables false

namespace MTower.Hotp
open Lib Lib.Fields Lib.Bits Kernel

/-! ## RFC 4226 -/

/-- `DT`: 31 bits from the offset that the low nibble of the last byte gives -/
def dynamicTruncation (mac : List UInt8) : Nat :=
  number ((List.range 4).map fun i => mac.getD ((mac.getD 19 0).toNat % 16 + i) 0) % 2 ^ 31

def hotpValue (hmac : List UInt8 → List UInt8 → List UInt8) (key : List UInt8) (n : Nat) : Nat :=
  dynamicTruncation (hmac key (beBytes 8 n)) % 10 ^ 6

/-- **`truncate_` is the dynamic truncation**, reduced to six digits. -/
theorem truncated_eq (mac : Mac) : truncated mac = dynamicTruncation mac.val % 10 ^ 6 := by
  have ho : offsetOf mac = (mac.val.getD 19 0).toNat % 16 :=
    Nat.and_two_pow_sub_one_eq_mod _ 4
  have hsign : ∀ b : Nat, b &&& 0x7f = b % 128 := fun b => Nat.and_two_pow_sub_one_eq_mod b 7
  have hbyte : ∀ b : UInt8, b.toNat &&& 0xff = b.toNat := by
    intro b
    have hb := b.toNat_lt
    rw [show (0xff : Nat) = 2 ^ 8 - 1 from rfl, Nat.and_two_pow_sub_one_eq_mod]
    exact Nat.mod_eq_of_lt hb
  have hrange : List.range 4 = [0, 1, 2, 3] := rfl
  unfold truncated dynamicTruncation
  rw [← ho, hrange]
  simp only [List.map_cons, List.map_nil, number, List.foldl_cons, List.foldl_nil, hsign, hbyte]
  generalize mac.val.getD (offsetOf mac + 0) 0 = b0
  generalize mac.val.getD (offsetOf mac + 1) 0 = b1
  generalize mac.val.getD (offsetOf mac + 2) 0 = b2
  generalize mac.val.getD (offsetOf mac + 3) 0 = b3
  have h0 := b0.toNat_lt
  have h1 := b1.toNat_lt
  have h2 := b2.toNat_lt
  have h3 := b3.toNat_lt
  have h31 : 16777216 * (b0.toNat % 128) + 65536 * b1.toNat + 256 * b2.toNat + b3.toNat
      = (256 * (256 * (256 * (256 * 0 + b0.toNat) + b1.toNat) + b2.toNat) + b3.toNat) % 2 ^ 31 := by
    omega
  rw [or_octets h1 h2 h3, h31]
  rfl

/-! ## an API that computes HMACs -/

/-- what is known of an operation: its algorithm, its key, and what it was fed since `MACInit` -/
structure OpView where
  algorithm : Nat
  key : Option (List UInt8)
  fed : Option (List UInt8)

def IsPanic (e : Fault) : Prop := e = .panic

/-- Each call does what it is documented to do, or panics.  `op` and `secret` are what can be
observed of the operations and of the objects. -/
structure Computes {σ : Type} (api : Api σ) (hmac : List UInt8 → List UInt8 → List UInt8)
    (op : σ → Nat → Option OpView) (secret : σ → Nat → Option (List UInt8)) : Prop where
  allocate : ∀ algorithm mode size s, wpx IsPanic (api.allocateOperation algorithm mode size)
    (fun r t => r.1 = teeSuccess → op t r.2 = some ⟨algorithm, none, none⟩) s
  allocateObject : ∀ type size s h v, op s h = some v →
    wpx IsPanic (api.allocateTransientObject type size) (fun _ t => op t h = some v) s
  populate : ∀ object bytes s h v, op s h = some v →
    wpx IsPanic (api.populateTransientObject object teeAttrSecretValue bytes)
      (fun r t => op t h = some v ∧ (r = teeSuccess → secret t object = some bytes)) s
  setKey : ∀ object s h v key, op s h = some v → secret s object = some key →
    wpx IsPanic (api.setOperationKey h object)
      (fun r t => r = teeSuccess → op t h = some { v with key := some key }) s
  init : ∀ iv s h v, op s h = some v → v.key ≠ none →
    wpx IsPanic (api.macInit h iv) (fun _ t => op t h = some { v with fed := some [] }) s
  update : ∀ data s h v m, op s h = some v → v.fed = some m →
    wpx IsPanic (api.macUpdate h data) (fun _ t => op t h = some { v with fed := some (m ++ data) }) s
  final : ∀ message mac len s h key m, op s h = some ⟨teeAlgHmacSha1, some key, some m⟩ →
    sha1HashSize ≤ len → wpx IsPanic (api.macComputeFinal h message mac len)
      (fun r _ => r.1 = teeSuccess → r.2.1.val = hmac key (m ++ message)) s
  free : ∀ h s, wpx IsPanic (api.freeOperation h) (fun _ _ => True) s
  freeObject : ∀ h s, wpx IsPanic (api.freeTransientObject h) (fun _ _ => True) s

section
variable {σ : Type} {api : Api σ} {hmac : List UInt8 → List UInt8 → List UInt8}
  {op : σ → Nat → Option OpView} {secret : σ → Nat → Option (List UInt8)}
  {s : Ta σ} {mac stack : Mac}

theorem wpx_hmacExit (hc : Computes api hmac op secret) (opHandle keyHandle res : Nat) (out : Mac)
    (len : Nat) (u : σ) :
    wpx IsPanic (hmacExit api opHandle keyHandle res out len) (fun r _ => r = (res, out, len)) u := by
  have hlast : ∀ v, wpx IsPanic (do
      api.freeTransientObject keyHandle
      pure (res, out, len)) (fun r _ => r = (res, out, len)) v := by
    intro v
    rw [wpx_bind]
    refine wpx_mono (hc.freeObject keyHandle v) ?_
    intro _ _ _
    rfl
  rw [hmacExit]
  by_cases h0 : opHandle ≠ 0
  · rw [if_pos h0, wpx_bind]
    exact wpx_mono (hc.free opHandle u) fun _ v _ => hlast v
  · rw [if_neg h0]
    exact hlast u

/-- an exit with an error says nothing about the MAC -/
theorem wpx_hmacExit_error (hc : Computes api hmac op secret) {opHandle keyHandle res : Nat}
    (hres : res ≠ teeSuccess) (out : Mac) (len : Nat) (P : Mac → Prop) (u : σ) :
    wpx IsPanic (hmacExit api opHandle keyHandle res out len)
      (fun r _ => r.1 = teeSuccess → P r.2.1) u := by
  refine wpx_mono (wpx_hmacExit hc opHandle keyHandle res out len u) ?_
  rintro r t rfl h
  exact absurd h hres

/-- **`hmac_sha1` computes the HMAC** when it succeeds. -/
theorem hmacSteps_mac (hc : Computes api hmac op secret) (key : List UInt8) (n : Nat)
    (inp : List UInt8) (out : Mac) (u : σ) :
    wpx IsPanic (hmacSteps api key n inp out sha1HashSize)
      (fun r _ => r.1 = teeSuccess → r.2.1.val = hmac (key.take n) inp) u := by
  rw [hmacSteps, wpx_bind]
  refine wpx_mono (hc.allocate _ _ _ u) ?_
  intro o u1 ho
  by_cases h1 : o.1 ≠ teeSuccess
  · rw [if_pos h1]
    exact wpx_hmacExit_error hc h1 _ _ (fun m => m.val = hmac (key.take n) inp) u1
  rw [if_neg h1, wpx_bind]
  refine wpx_mono (hc.allocateObject _ _ u1 o.2 _ (ho (not_not.mp h1))) ?_
  intro k u2 hk
  by_cases h2 : k.1 ≠ teeSuccess
  · rw [if_pos h2]
    exact wpx_hmacExit_error hc h2 _ _ (fun m => m.val = hmac (key.take n) inp) u2
  rw [if_neg h2, wpx_bind]
  refine wpx_mono (hc.populate k.2 (key.take n) u2 o.2 _ hk) ?_
  rintro r3 u3 ⟨hop3, hsec3⟩
  by_cases h3 : r3 ≠ teeSuccess
  · rw [if_pos h3]
    exact wpx_hmacExit_error hc h3 _ _ (fun m => m.val = hmac (key.take n) inp) u3
  rw [if_neg h3, wpx_bind]
  refine wpx_mono (hc.setKey k.2 u3 o.2 _ _ hop3 (hsec3 (not_not.mp h3))) ?_
  intro r4 u4 hop4
  by_cases h4 : r4 ≠ teeSuccess
  · rw [if_pos h4]
    exact wpx_hmacExit_error hc h4 _ _ (fun m => m.val = hmac (key.take n) inp) u4
  rw [if_neg h4, wpx_bind]
  refine wpx_mono (hc.init [] u4 o.2 _ (hop4 (not_not.mp h4)) (Option.some_ne_none _)) ?_
  intro _ u5 hop5
  rw [wpx_bind]
  refine wpx_mono (hc.update inp u5 o.2 _ [] hop5 rfl) ?_
  intro _ u6 hop6
  rw [wpx_bind]
  refine wpx_mono (hc.final [] out sha1HashSize u6 o.2 _ _ hop6 (le_refl _)) ?_
  intro r7 u7 hmac7
  refine wpx_mono (wpx_hmacExit hc o.2 k.2 r7.1 r7.2.1 r7.2.2 u7) ?_
  rintro r u8 rfl hsucc
  rw [hmac7 hsucc, List.nil_append, List.append_nil]

/-! ## commands after a key was registered -/

/-- a `get_hotp` with the right types -/
def IsGet (c : Command) : Prop := c.cmdId = cmdGetHotp ∧ c.paramTypes = hotpTypes

instance (c : Command) : Decidable (IsGet c) := inferInstanceAs (Decidable (_ ∧ _))

/-- a command that is not known, or has wrong parameter types -/
def WrongTypes (c : Command) : Prop :=
  (c.cmdId = cmdRegisterSharedKey → c.paramTypes ≠ registerTypes) ∧
    (c.cmdId = cmdGetHotp → c.paramTypes ≠ hotpTypes)

theorem invokeCommand_wrong {c : Command} (h : WrongTypes c) :
    (invokeCommand api stack c : Exec Fault (Ta σ) Reply)
      = pure ⟨teeErrorBadParameters, c.params⟩ := by
  unfold invokeCommand
  by_cases h0 : c.cmdId = cmdRegisterSharedKey
  · rw [if_pos h0, registerSharedKey_types (h.1 h0)]
  · by_cases h1 : c.cmdId = cmdGetHotp
    · rw [if_neg h0, if_pos h1, getHotp_types (h.2 h1)]
    · rw [if_neg h0, if_neg h1]

/-- the key `key` is registered and the counter stands at `n` -/
structure Stands (key : List UInt8) (n : Nat) (s : Ta σ) : Prop where
  size : KeySize s.kLen
  key : s.k.val.take s.kLen = key
  counter : s.counter.val = beBytes 8 n

/-- **One `get_hotp`.** -/
theorem hotp_step (hc : Computes api hmac op secret) (stack : Mac) {c : Command} (hget : IsGet c)
    {key : List UInt8} {n : Nat} (hs : Stands key n s) :
    wpx IsPanic (invokeCommand api stack c) (fun r t => Stands key (n + 1) t ∧
      (r.res = teeSuccess → (r.params 0).a = hotpValue hmac key n)) s := by
  have hne : c.cmdId ≠ cmdRegisterSharedKey := by
    rw [hget.1]
    decide
  rw [invokeCommand, if_neg hne, if_pos hget.1, hget.2, wpx_getHotp, wpx_hmacSha1, if_pos hs.size]
  refine wpx_mono (hmacSteps_mac hc _ _ _ _ _) ?_
  intro r u hr
  refine ⟨⟨hs.size, hs.key, ?_⟩, ?_⟩
  · show increment 8 s.counter.val = _
    rw [hs.counter, increment_beBytes]
  · intro hsucc
    show truncated r.2.1 = _
    rw [truncated_eq, hr hsucc, hs.key, hs.counter, hotpValue]

/-- the number of one-time passwords among some commands -/
def gets (cs : List Command) : Nat := cs.countP fun c => IsGet c

/-- **Any number of commands.** -/
theorem hotp_run (hc : Computes api hmac op secret) (stack : Mac) {cs : List Command}
    (hcs : ∀ c ∈ cs, IsGet c ∨ WrongTypes c) {key : List UInt8} {n : Nat} (hs : Stands key n s) :
    wpx IsPanic (run (invokeCommand api stack) cs) (fun _ t => Stands key (n + gets cs) t) s := by
  induction cs generalizing n s with
  | nil => exact hs
  | cons c cs ih =>
    have htail := fun d hd => hcs d (List.mem_cons_of_mem c hd)
    show wpx _ (invokeCommand api stack c >>= fun _ => run (invokeCommand api stack) cs) _ s
    rw [wpx_bind]
    rcases hcs c List.mem_cons_self with hget | hwrong
    · have hcount : gets (c :: cs) = gets cs + 1 :=
        List.countP_cons_of_pos (decide_eq_true hget)
      refine wpx_mono (hotp_step hc stack hget hs) ?_
      rintro r t ⟨ht, -⟩
      refine wpx_mono (ih htail ht) ?_
      intro _ v hv
      rw [hcount]
      have hn : n + (gets cs + 1) = n + 1 + gets cs := by omega
      rwa [hn]
    · have hnot : ¬ IsGet c := fun h => hwrong.2 h.1 h.2
      have hcount : gets (c :: cs) = gets cs :=
        List.countP_cons_of_neg (by rw [decide_eq_true_iff]; exact hnot)
      rw [invokeCommand_wrong hwrong, wpx_pure, hcount]
      exact ih htail hs

/-- registering a key of an accepted size puts the counter at zero -/
theorem register_stands (api : Api σ) (stack : Mac) {c : Command} (hid : c.cmdId = cmdRegisterSharedKey)
    (ht : c.paramTypes = registerTypes) (hk : KeySize (c.params 0).size) :
    wp (invokeCommand api stack c) (fun r t => r.res = teeSuccess ∧
      Stands (bytesAt (c.params 0).buffer 0 (c.params 0).size) 0 t) s := by
  rw [invokeCommand, if_pos hid, ht, wp_registerSharedKey hk.2]
  refine ⟨rfl, hk, ?_, rfl⟩
  show (bytesAt _ 0 _ ++ _).take _ = _
  rw [List.take_append_of_le_length (by rw [length_bytesAt]), List.take_of_length_le
    (by rw [length_bytesAt])]

end

/-! ## two passwords -/

/-- the operations and the secrets, by handle -/
structure Handles where
  ops : Nat → Option OpView
  secrets : Nat → Option (List UInt8)
  next : Nat

/-- the operation is not keyed or not initialised as the call needs it -/
def withOp (h : Nat) (f : OpView → Exec Fault Handles Unit) : Exec Fault Handles Unit := do
  let s ← get
  match s.ops h with
  | some v => f v
  | none => throw .panic

def setOp (h : Nat) (v : OpView) : Exec Fault Handles Unit :=
  modify fun s => { s with ops := Function.update s.ops h (some v) }

/-- an API that computes `mac`, on handles it counts up -/
def handleApi (mac : List UInt8 → List UInt8 → Mac) : Api Handles where
  allocateOperation algorithm _ _ := do
    let s ← get
    setOp s.next ⟨algorithm, none, none⟩
    modify fun s => { s with next := s.next + 1 }
    pure (teeSuccess, s.next)
  allocateTransientObject _ _ := do
    let s ← get
    modify fun s => { s with next := s.next + 1 }
    pure (teeSuccess, s.next)
  populateTransientObject object _ bytes := do
    modify fun s => { s with secrets := Function.update s.secrets object (some bytes) }
    pure teeSuccess
  setOperationKey h object := do
    let s ← get
    withOp h fun v => setOp h { v with key := s.secrets object }
    pure teeSuccess
  macInit h _ := withOp h fun v => setOp h { v with fed := some [] }
  macUpdate h data := withOp h fun v => setOp h { v with fed := v.fed.map (· ++ data) }
  macComputeFinal h message out len := do
    let s ← get
    match s.ops h with
    | some ⟨_, some key, some m⟩ => pure (teeSuccess, mac key (m ++ message), sha1HashSize)
    | _ => throw .panic
  freeOperation _ := pure ()
  freeTransientObject _ := pure ()

theorem wpx_withOp {h : Nat} {f : OpView → Exec Fault Handles Unit} {u : Handles} {v : OpView}
    {Q : Unit → Handles → Prop} (hv : u.ops h = some v) :
    wpx IsPanic (withOp h f) Q u ↔ wpx IsPanic (f v) Q u := by
  rw [withOp, wpx_bind, wpx_get, hv]

theorem handleApi_computes (mac : List UInt8 → List UInt8 → Mac) :
    Computes (handleApi mac) (fun key m => (mac key m).val) Handles.ops Handles.secrets where
  allocate algorithm mode size s := fun _ => Function.update_self _ _ _
  allocateObject type size s h v hv := hv
  populate object bytes s h v hv := ⟨hv, fun _ => Function.update_self _ _ _⟩
  setKey object s h v key hv hk := by
    show wpx _ (get >>= fun s => withOp h (fun v => setOp h { v with key := s.secrets object }) >>=
      fun _ => pure teeSuccess) _ s
    rw [wpx_bind, wpx_get, wpx_bind, wpx_withOp hv, hk]
    exact fun _ => Function.update_self _ _ _
  init iv s h v hv hkey := by
    show wpx _ (withOp h _) _ s
    rw [wpx_withOp hv]
    exact Function.update_self _ _ _
  update data s h v m hv hm := by
    show wpx _ (withOp h _) _ s
    rw [wpx_withOp hv, hm]
    exact Function.update_self _ _ _
  final message out len s h key m hv hlen := by
    show wpx _ (get >>= _) _ s
    rw [wpx_bind, wpx_get, hv]
    exact fun _ => rfl
  free h s := trivial
  freeObject h s := trivial

/-- HMAC-SHA1 of the first two counters under the key `12345678901234567890` -/
def knownMac (key m : List UInt8) : Mac :=
  if key = (List.range 20).map (fun i => UInt8.ofNat (0x30 + (i + 1) % 10)) ∧ m = beBytes 8 0 then
    ⟨[0xcc, 0x93, 0xcf, 0x18, 0x50, 0x8d, 0x94, 0x93, 0x4c, 0x64, 0xb6, 0x5d, 0x8b, 0xa7, 0x66,
      0x7f, 0xb7, 0xcd, 0xe4, 0xb0], rfl⟩
  else ⟨[0x75, 0xa4, 0x8a, 0x19, 0xd4, 0xcb, 0xe1, 0x00, 0x64, 0x4e, 0x8a, 0xc1, 0x39, 0x7e, 0xea,
    0x74, 0x7a, 0x2d, 0x33, 0xab], rfl⟩

/-- the parameters of a `register_shared_key` of that key -/
def knownKey : Params := fun _ => ⟨fun i => UInt8.ofNat (0x30 + (i + 1) % 10), 20, 0, 0⟩

end MTower.Hotp
