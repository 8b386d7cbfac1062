import MTower.Lib.Exec
import MTower.Lib.Counter
import MTower.Kernel.Param
import Mathlib.Data.Vector.Basic

/-!
# The HOTP application

`hotp_ta.c` keeps a shared key and a counter.  The calls of the internal API that `hmac_sha1` makes
are a parameter, `Api`, over a state of their own; a call may panic.  `memcpy` behind `K` and reads
behind the MAC are faults.  `stack` is what the local `mac` held.

* `registerSharedKey`, `getHotp`  the two commands, `invokeCommand` the entry point;
* `FailsAtomically`               what a command leaves behind when it fails;
* `failsAtomically_iff`           when it is so.
-/

set_option linter.unusedVariables false

namespace MTower.Hotp
open Lib Lib.Fields Kernel

def teeErrorBadParameters : Nat := 0xFFFF0006

def teeAlgHmacSha1 : Nat := 0x30000002
def teeTypeHmacSha1 : Nat := 0xA0000002
def teeAttrSecretValue : Nat := 0xC0000000
def teeModeMac : Nat := 4

def sha1HashSize : Nat := 20
def maxKeySize : Nat := 64
def minKeySize : Nat := 10
def dbc2Modulo : Nat := 1000000

def cmdRegisterSharedKey : Nat := 0
def cmdGetHotp : Nat := 1

inductive Fault where
  | panic
  | overflow
  | outOfBounds
deriving DecidableEq, Repr

/-- `uint8_t mac[SHA1_HASH_SIZE]` -/
abbrev Mac := List.Vector UInt8 20

/-- the internal API: result codes, handles and output buffers are returned -/
structure Api (σ : Type) where
  allocateOperation : Nat → Nat → Nat → Exec Fault σ (Nat × Nat)
  allocateTransientObject : Nat → Nat → Exec Fault σ (Nat × Nat)
  populateTransientObject : Nat → Nat → List UInt8 → Exec Fault σ Nat
  setOperationKey : Nat → Nat → Exec Fault σ Nat
  macInit : Nat → List UInt8 → Exec Fault σ Unit
  macUpdate : Nat → List UInt8 → Exec Fault σ Unit
  macComputeFinal : Nat → List UInt8 → Mac → Nat → Exec Fault σ (Nat × Mac × Nat)
  freeOperation : Nat → Exec Fault σ Unit
  freeTransientObject : Nat → Exec Fault σ Unit

/-- the static data of the application, and the state behind the API -/
structure Ta (σ : Type) where
  k : List.Vector UInt8 64
  kLen : Nat
  counter : List.Vector UInt8 8
  api : σ

/-- a `TEE_Param`: a memory reference or two values -/
structure Param where
  buffer : Nat → UInt8
  size : Nat
  a : Nat
  b : Nat

abbrev Params := Fin 4 → Param

section
variable {σ : Type} (api : Api σ)

/-! ## `hmac_sha1` -/

/-- from the label `exit` -/
def hmacExit (opHandle keyHandle res : Nat) (out : Mac) (outlen : Nat) :
    Exec Fault σ (Nat × Mac × Nat) := do
  if opHandle ≠ 0 then api.freeOperation opHandle else pure ()
  api.freeTransientObject keyHandle
  pure (res, out, outlen)

/-- steps 1 to 6 -/
def hmacSteps (key : List UInt8) (keylen : Nat) (inp : List UInt8) (out : Mac) (outlen : Nat) :
    Exec Fault σ (Nat × Mac × Nat) := do
  let op ← api.allocateOperation teeAlgHmacSha1 teeModeMac (keylen * 8)
  if op.1 ≠ teeSuccess then hmacExit api op.2 0 op.1 out outlen
  else do
    let obj ← api.allocateTransientObject teeTypeHmacSha1 (keylen * 8)
    if obj.1 ≠ teeSuccess then hmacExit api op.2 obj.2 obj.1 out outlen
    else do
      let res ← api.populateTransientObject obj.2 teeAttrSecretValue (key.take keylen)
      if res ≠ teeSuccess then hmacExit api op.2 obj.2 res out outlen
      else do
        let res ← api.setOperationKey op.2 obj.2
        if res ≠ teeSuccess then hmacExit api op.2 obj.2 res out outlen
        else do
          api.macInit op.2 []
          api.macUpdate op.2 inp
          let r ← api.macComputeFinal op.2 [] out outlen
          hmacExit api op.2 obj.2 r.1 r.2.1 r.2.2

/-- `none` is a null pointer -/
def hmacSha1 (key : List UInt8) (keylen : Nat) (inp : Option (List UInt8)) (out : Option Mac)
    (outlen : Option Nat) : Exec Fault σ (Nat × Option Mac × Option Nat) :=
  if keylen < minKeySize ∨ keylen > maxKeySize then pure (teeErrorBadParameters, out, outlen)
  else match inp, out, outlen with
    | some inp, some mac, some len => do
      let r ← hmacSteps api key keylen inp mac len
      pure (r.1, some r.2.1, some r.2.2)
    | _, _, _ => pure (teeErrorBadParameters, out, outlen)

/-! ## the commands -/

def macAt (mac : Mac) (i : Nat) : Exec Fault σ Nat :=
  match mac.val[i]? with
  | some b => pure b.toNat
  | none => throw .outOfBounds

/-- `truncate_` -/
def truncate (hmacResult : Mac) : Exec Fault σ Nat := do
  let last ← macAt hmacResult 19
  let offset := last &&& 0xf
  let b0 ← macAt hmacResult offset
  let b1 ← macAt hmacResult (offset + 1)
  let b2 ← macAt hmacResult (offset + 2)
  let b3 ← macAt hmacResult (offset + 3)
  pure (((b0 &&& 0x7f) <<< 24 ||| (b1 &&& 0xff) <<< 16 ||| (b2 &&& 0xff) <<< 8 ||| b3 &&& 0xff)
    % dbc2Modulo)

/-- a call that works on the state behind the API -/
def onApi {α : Type} (x : Exec Fault σ α) : Exec Fault (Ta σ) α := fun s =>
  match x s.api with
  | .ok (a, t) => .ok (a, { s with api := t })
  | .error e => .error e

structure Reply where
  res : Nat
  params : Params

def registerTypes : Nat :=
  teeParamTypes paramTypeMemrefInput paramTypeNone paramTypeNone paramTypeNone

def hotpTypes : Nat :=
  teeParamTypes paramTypeValueOutput paramTypeNone paramTypeNone paramTypeNone

/-- `K` after `memset` and a `memcpy` of `n` bytes -/
def keyOf (buffer : Nat → UInt8) (n : Nat) (h : n ≤ maxKeySize) : List.Vector UInt8 64 :=
  ⟨bytesAt buffer 0 n ++ List.replicate (64 - n) 0, by
    rw [List.length_append, length_bytesAt, List.length_replicate]
    unfold maxKeySize at h
    omega⟩

def registerSharedKey (paramTypes : Nat) (params : Params) : Exec Fault (Ta σ) Reply :=
  if paramTypes ≠ registerTypes then pure ⟨teeErrorBadParameters, params⟩
  else if h : (params 0).size ≤ maxKeySize then do
    modify fun s => { s with
      counter := List.Vector.replicate 8 0
      k := keyOf (params 0).buffer (params 0).size h
      kLen := (params 0).size }
    pure ⟨teeSuccess, params⟩
  else throw .overflow

/-- the loop that increments the counter -/
def incremented (c : List.Vector UInt8 8) : List.Vector UInt8 8 :=
  ⟨increment 8 c.val, by rw [length_increment, c.property]⟩

/-- `params[0].value.a = v` -/
def withValue (params : Params) (v : Nat) : Params :=
  Function.update params 0 { params 0 with a := v }

def getHotp (stack : Mac) (paramTypes : Nat) (params : Params) : Exec Fault (Ta σ) Reply :=
  if paramTypes ≠ hotpTypes then pure ⟨teeErrorBadParameters, params⟩
  else do
    let s ← get
    let r ← onApi (hmacSha1 api s.k.val s.kLen (some s.counter.val) (some stack)
      (some sha1HashSize))
    modify fun s => { s with counter := incremented s.counter }
    let v ← truncate (r.2.1.getD stack)
    pure ⟨r.1, withValue params v⟩

/-- a call of the entry point -/
structure Command where
  cmdId : Nat
  paramTypes : Nat
  params : Params

/-- `HOTP_TA_InvokeCommandEntryPoint` -/
def invokeCommand (stack : Mac) (c : Command) : Exec Fault (Ta σ) Reply :=
  if c.cmdId = cmdRegisterSharedKey then registerSharedKey c.paramTypes c.params
  else if c.cmdId = cmdGetHotp then getHotp api stack c.paramTypes c.params
  else pure ⟨teeErrorBadParameters, c.params⟩

end

/-! ## rules -/

section
variable {σ : Type} {api : Api σ} {s : Ta σ} {α : Type} {mac stack : Mac} {E : Fault → Prop}

theorem wpx_onApi {x : Exec Fault σ α} {Q : α → Ta σ → Prop} :
    wpx E (onApi x) Q s ↔ wpx E x (fun a t => Q a { s with api := t }) s.api := by
  unfold wpx onApi
  cases x s.api <;> rfl

theorem macAt_lt (mac : Mac) {i : Nat} (hi : i < 20) :
    (macAt mac i : Exec Fault σ Nat) = pure (mac.val.getD i 0).toNat := by
  have hlen : i < mac.val.length := by
    rw [mac.property]
    exact hi
  rw [macAt, List.getElem?_eq_getElem hlen, List.getD_eq_getElem _ _ hlen]

/-- the offset that the last nibble gives -/
def offsetOf (mac : Mac) : Nat := (mac.val.getD 19 0).toNat &&& 0xf

theorem offsetOf_lt (mac : Mac) : offsetOf mac < 16 := by
  have h : offsetOf mac = (mac.val.getD 19 0).toNat % 2 ^ 4 :=
    Nat.and_two_pow_sub_one_eq_mod _ 4
  omega

/-- the value `truncate_` computes -/
def truncated (mac : Mac) : Nat :=
  let byte (i : Nat) : Nat := (mac.val.getD (offsetOf mac + i) 0).toNat
  ((byte 0 &&& 0x7f) <<< 24 ||| (byte 1 &&& 0xff) <<< 16 ||| (byte 2 &&& 0xff) <<< 8
    ||| byte 3 &&& 0xff) % dbc2Modulo

/-- **Every read is inside the MAC.** -/
theorem truncate_eq (mac : Mac) : (truncate mac : Exec Fault σ Nat) = pure (truncated mac) := by
  have ho := offsetOf_lt mac
  have h0 : (macAt mac (offsetOf mac) : Exec Fault σ Nat) = _ := macAt_lt mac (by omega)
  have h1 : (macAt mac (offsetOf mac + 1) : Exec Fault σ Nat) = _ := macAt_lt mac (by omega)
  have h2 : (macAt mac (offsetOf mac + 2) : Exec Fault σ Nat) = _ := macAt_lt mac (by omega)
  have h3 : (macAt mac (offsetOf mac + 3) : Exec Fault σ Nat) = _ := macAt_lt mac (by omega)
  rw [truncate, macAt_lt mac (by decide), pure_bind]
  show (macAt mac (offsetOf mac) >>= _) = _
  rw [h0, pure_bind]
  show (macAt mac (offsetOf mac + 1) >>= _) = _
  rw [h1, pure_bind]
  show (macAt mac (offsetOf mac + 2) >>= _) = _
  rw [h2, pure_bind]
  show (macAt mac (offsetOf mac + 3) >>= _) = _
  rw [h3, pure_bind]
  rfl

/-! ## the two commands -/

/-- a key that `hmac_sha1` accepts -/
def KeySize (n : Nat) : Prop := minKeySize ≤ n ∧ n ≤ maxKeySize

instance (n : Nat) : Decidable (KeySize n) := inferInstanceAs (Decidable (_ ∧ _))

theorem wpx_hmacSha1 {key : List UInt8} {n len : Nat} {inp : List UInt8} {u : σ}
    {Q : Nat × Option Mac × Option Nat → σ → Prop} :
    wpx E (hmacSha1 api key n (some inp) (some mac) (some len)) Q u ↔
      if KeySize n then
        wpx E (hmacSteps api key n inp mac len) (fun r t => Q (r.1, some r.2.1, some r.2.2) t) u
      else Q (teeErrorBadParameters, some mac, some len) u := by
  unfold hmacSha1
  by_cases h : KeySize n
  · have hn : ¬ (n < minKeySize ∨ n > maxKeySize) := by
      have h1 := h.1
      have h2 := h.2
      omega
    rw [if_neg hn, if_pos h]
    exact wpx_bind
  · have hn : n < minKeySize ∨ n > maxKeySize := by
      by_contra hc
      push Not at hc
      exact h hc
    rw [if_pos hn, if_neg h, wpx_pure]

/-- the state after a `get_hotp` that got this far -/
def Ta.advanced (s : Ta σ) (u : σ) : Ta σ := { s with counter := incremented s.counter, api := u }

theorem wpx_getHotp {params : Params} {Q : Reply → Ta σ → Prop} :
    wpx E (getHotp api stack hotpTypes params) Q s ↔
      wpx E (hmacSha1 api s.k.val s.kLen (some s.counter.val) (some stack) (some sha1HashSize))
        (fun r u => Q ⟨r.1, withValue params (truncated (r.2.1.getD stack))⟩ (s.advanced u))
        s.api := by
  rw [getHotp, if_neg (not_not.mpr rfl), wpx_bind, wpx_get, wpx_bind, wpx_onApi]
  have hrest : ∀ (r : Nat × Option Mac × Option Nat) (u : σ),
      wpx E (do
        modify fun s => { s with counter := incremented s.counter }
        let v ← truncate (r.2.1.getD stack)
        pure ⟨r.1, withValue params v⟩) Q { s with api := u } ↔
      Q ⟨r.1, withValue params (truncated (r.2.1.getD stack))⟩ (s.advanced u) := by
    intro r u
    rw [wpx_bind, wpx_modify, truncate_eq, pure_bind, wpx_pure]
    rfl
  simp only [hrest]

theorem getHotp_types {types : Nat} (h : types ≠ hotpTypes) (params : Params) :
    getHotp api stack types params = pure ⟨teeErrorBadParameters, params⟩ := if_pos h

theorem registerSharedKey_types {types : Nat} (h : types ≠ registerTypes) (params : Params) :
    (registerSharedKey types params : Exec Fault (Ta σ) Reply)
      = pure ⟨teeErrorBadParameters, params⟩ := if_pos h

theorem wp_registerSharedKey {params : Params} (h : (params 0).size ≤ maxKeySize)
    {Q : Reply → Ta σ → Prop} : wp (registerSharedKey registerTypes params) Q s ↔
      Q ⟨teeSuccess, params⟩ { s with
        counter := List.Vector.replicate 8 0
        k := keyOf (params 0).buffer (params 0).size h
        kLen := (params 0).size } := by
  rw [registerSharedKey, if_neg (not_not.mpr rfl), dif_pos h, wp_bind, wp_modify, wp_pure]

theorem wp_registerSharedKey_overflow {params : Params} (h : ¬ (params 0).size ≤ maxKeySize)
    {Q : Reply → Ta σ → Prop} : wp (registerSharedKey registerTypes params) Q s ↔ False := by
  rw [registerSharedKey, if_neg (not_not.mpr rfl), dif_neg h, wp_throw]

/-! ## what a failed command leaves behind -/

/-- the counter never stays -/
theorem incremented_ne (c : List.Vector UInt8 8) : incremented c ≠ c := by
  intro e
  have hval : increment 8 c.val = c.val := congrArg Subtype.val e
  have hinc := number_increment c.val
  have hlt := number_lt_pow c.val
  rw [c.property] at hinc hlt
  rw [hval] at hinc
  norm_num at hinc hlt
  omega

/-- A key of a wrong size is refused and changes nothing, and a `get_hotp` that returns an error
leaves the counter and the output as they were. -/
def FailsAtomically (api : Api σ) (stack : Mac) (s : Ta σ) (c : Command) : Prop :=
  (c.cmdId = cmdRegisterSharedKey → ¬ KeySize (c.params 0).size →
    wp (invokeCommand api stack c) (fun r t => r.res ≠ teeSuccess ∧ t.k = s.k ∧ t.kLen = s.kLen ∧
      t.counter = s.counter) s) ∧
  (c.cmdId = cmdGetHotp → wlp (invokeCommand api stack c) (fun r t => r.res ≠ teeSuccess →
    t.counter = s.counter ∧ r.params = c.params) s)

/-- the key that is registered has an accepted size, and so has the key that is used, with which
the calls of the API succeed -/
def AtomicWhen (api : Api σ) (stack : Mac) (s : Ta σ) (c : Command) : Prop :=
  (c.cmdId = cmdRegisterSharedKey → c.paramTypes = registerTypes → KeySize (c.params 0).size) ∧
  (c.cmdId = cmdGetHotp → c.paramTypes = hotpTypes → KeySize s.kLen ∧
    wlp (hmacSteps api s.k.val s.kLen s.counter.val stack sha1HashSize)
      (fun r _ => r.1 = teeSuccess) s.api)

theorem register_atomic (types : Nat) (params : Params) :
    (¬ KeySize (params 0).size → wp (registerSharedKey types params) (fun r t =>
      r.res ≠ teeSuccess ∧ t.k = s.k ∧ t.kLen = s.kLen ∧ t.counter = s.counter) s) ↔
      (types = registerTypes → KeySize (params 0).size) := by
  by_cases ht : types = registerTypes
  · subst ht
    constructor
    · intro h _
      by_contra hk
      have hw := h hk
      by_cases hmax : (params 0).size ≤ maxKeySize
      · rw [wp_registerSharedKey hmax] at hw
        exact hw.1 rfl
      · exact (wp_registerSharedKey_overflow hmax).mp hw
    · intro h hk
      exact absurd (h rfl) hk
  · rw [registerSharedKey_types ht, wp_pure]
    have hbad : teeErrorBadParameters ≠ teeSuccess := by decide
    exact ⟨fun _ h => absurd h ht, fun _ _ => ⟨hbad, rfl, rfl, rfl⟩⟩

theorem getHotp_atomic (types : Nat) (params : Params) :
    wlp (getHotp api stack types params) (fun r t => r.res ≠ teeSuccess →
      t.counter = s.counter ∧ r.params = params) s ↔
      (types = hotpTypes → KeySize s.kLen ∧
        wlp (hmacSteps api s.k.val s.kLen s.counter.val stack sha1HashSize)
          (fun r _ => r.1 = teeSuccess) s.api) := by
  by_cases ht : types = hotpTypes
  · subst ht
    -- the counter has moved, so the result has to be a success
    have hmoved : ∀ (res : Nat) (p : Params) (u : σ),
        (res ≠ teeSuccess → (s.advanced u).counter = s.counter ∧ p = params) ↔ res = teeSuccess := by
      intro res p u
      constructor
      · intro h
        by_contra hne
        exact incremented_ne s.counter (h hne).1
      · intro h hne
        exact absurd h hne
    rw [wlp_iff_wpx, wpx_getHotp, wpx_hmacSha1]
    simp only [hmoved, forall_const]
    by_cases hk : KeySize s.kLen
    · rw [if_pos hk]
      exact ⟨fun h => ⟨hk, h⟩, fun h => h.2⟩
    · rw [if_neg hk]
      have hbad : teeErrorBadParameters ≠ teeSuccess := by decide
      exact ⟨fun h => absurd h hbad, fun h => absurd h.1 hk⟩
  · rw [getHotp_types ht, wlp_pure]
    exact ⟨fun _ h => absurd h ht, fun _ _ => ⟨rfl, rfl⟩⟩

/-- **When a failed command changes nothing.** -/
theorem failsAtomically_iff (api : Api σ) (stack : Mac) (s : Ta σ) (c : Command) :
    FailsAtomically api stack s c ↔ AtomicWhen api stack s c := by
  unfold FailsAtomically AtomicWhen
  apply and_congr
  · apply forall_congr'
    intro hc
    rw [invokeCommand, if_pos hc]
    exact register_atomic c.paramTypes c.params
  · apply forall_congr'
    intro hc
    have hne : c.cmdId ≠ cmdRegisterSharedKey := by
      rw [hc]
      decide
    rw [invokeCommand, if_neg hne, if_pos hc]
    exact getHotp_atomic c.paramTypes c.params

/-- an API that succeeds at everything and computes nothing -/
def idleApi : Api Unit where
  allocateOperation _ _ _ := pure (teeSuccess, 1)
  allocateTransientObject _ _ := pure (teeSuccess, 2)
  populateTransientObject _ _ _ := pure teeSuccess
  setOperationKey _ _ := pure teeSuccess
  macInit _ _ := pure ()
  macUpdate _ _ := pure ()
  macComputeFinal _ _ mac _ := pure (teeSuccess, mac, 20)
  freeOperation _ := pure ()
  freeTransientObject _ := pure ()

/-- the state when the application starts -/
def started (u : σ) : Ta σ := ⟨List.Vector.replicate 64 0, 0, List.Vector.replicate 8 0, u⟩

/-- `get_hotp` before any key is registered -/
theorem failsAtomically_fails : ¬ ∀ (api : Api Unit) (stack : Mac) (s : Ta Unit) (c : Command),
    FailsAtomically api stack s c := by
  intro h
  have hget := (h idleApi (List.Vector.replicate 20 0) (started ())
    ⟨cmdGetHotp, hotpTypes, fun _ => ⟨fun _ => 0, 0, 0, 0⟩⟩).2 rfl
  exact absurd ((getHotp_atomic hotpTypes _).mp hget rfl).1 (by decide)

end

end MTower.Hotp
