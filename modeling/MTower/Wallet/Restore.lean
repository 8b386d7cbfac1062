import MTower.Wallet.Sizes

/-!
# Backup and restore

`mnemonic_to_masterkey` copies 240 bytes and takes the string in front of the first null, so the
byte behind the mnemonic decides whether the stored key comes back.

* `cString_iff`                   the string in front of the first null;
* `generate_end`, `restore_end`   what the two commands leave behind;
* `backup_iff`                    when a restored key is the generated one.
-/

set_option linter.unusedVariables false

namespace MTower.Wallet.Ta
open Lib Lib.Fields

section
variable {e : Env} {d : Draw} {s s' t : Sys} {l m rest : List UInt8} {x : UInt8}

/-! ## strings -/

/-- the string `m` ends where there is a null -/
theorem cString_iff (hm : 0 ∉ m) : cString (m ++ x :: rest) = some m ↔ x = 0 := by
  have hall : ∀ a ∈ m, decide (a ≠ 0) = true := by
    intro a ha
    rw [decide_eq_true_iff]
    rintro rfl
    exact hm ha
  constructor
  · intro h
    by_contra hx
    rw [cString] at h
    by_cases h0 : (0 : UInt8) ∈ m ++ x :: rest
    · rw [if_pos h0, List.takeWhile_append_of_pos hall,
        List.takeWhile_cons_of_pos (by simpa using hx), Option.some.injEq,
        List.append_right_eq_self] at h
      cases h
    · rw [if_neg h0] at h
      cases h
  · rintro rfl
    rw [cString, if_pos (List.mem_append_right m List.mem_cons_self),
      List.takeWhile_append_of_pos hall, List.takeWhile_cons_of_neg (by simp), List.append_nil]

/-! ## what is stored -/

/-- the keys after `from_mnemonic_to_masterkey` -/
def stored (e : Env) (l : List UInt8) (objects : List (List UInt8)) : List (List UInt8) :=
  match cString l with
  | none => objects
  | some text => masterkeyExt e text :: objects

theorem stored_of_none {objects : List (List UInt8)} (h : cString l = none) :
    stored e l objects = objects := by
  rw [stored, h]

theorem stored_of_some {objects : List (List UInt8)} (h : cString l = some m) :
    stored e l objects = masterkeyExt e m :: objects := by
  rw [stored, h]

theorem storeMasterkey_end :
    endState (storeMasterkey d l s) = { s with objects := l :: s.objects } := by
  rw [storeMasterkey, bind_of_ok rfl]
  by_cases hcloses : d.closes = true
  · rw [if_pos hcloses]
    rfl
  · rw [if_neg hcloses]
    rfl

theorem fromMnemonicToMasterkey_end : endState (fromMnemonicToMasterkey e d l s) =
    { s with objects := stored e l s.objects } := by
  rw [fromMnemonicToMasterkey, stored]
  cases cString l with
  | none => rfl
  | some text => exact storeMasterkey_end

theorem restore_end (hpin : (s.params 0).a = 1234) :
    (endState (mnemonicToMasterkey e d restoreTypes s)).objects =
      stored e (s.mem.bytes (s.params 1).buffer mnemonicLength) s.objects := by
  rw [mnemonicToMasterkey, checked_body rfl hpin, restoreBody, endState_bind_of_ok rfl,
    endState_bind_pure, fromMnemonicToMasterkey_end]
  rfl

theorem generate_end (hpin : (s.params 0).a = 1234)
    (h : getRandomMnemonic e.sha256 256 (d.entropy.toList ++ [d.behind]) d.junk = some l) :
    (endState (generateNewMasterkey e d generateTypes s)).objects = stored e l s.objects ∧
      (endState (generateNewMasterkey e d generateTypes s)).mem =
        s.mem.write (s.params 1).buffer l := by
  have hend : endState (generateNewMasterkey e d generateTypes s) =
      { s.touch 1 l.length with mem := s.mem.write (s.params 1).buffer l
                                objects := stored e l s.objects } := by
    rw [generateNewMasterkey, checked_body rfl hpin, generateBody, h, endState_bind_of_ok rfl,
      endState_bind_of_ok rfl, endState_bind_pure, fromMnemonicToMasterkey_end]
    rfl
  rw [hend]
  exact ⟨rfl, rfl⟩

/-! ## the two runs -/

/-- other libraries for the hashes of a key -/
def Env.hashed (e : Env) (kdf : List UInt8 → List UInt8 → Nat → List.Vector UInt8 64)
    (mac : Hmac512) : Env := { e with pbkdf2 := kdf, hmac := mac }

/-- the mnemonic that a client is given -/
def Given (e : Env) (d : Draw) (s : Sys) (m : List UInt8) : Prop :=
  cString ((endState (generateNewMasterkey e d generateTypes s)).mem.bytes (s.params 1).buffer
    mnemonicLength) = some m

/-- a key is generated from `s`, and a restore from `s'` stores it -/
def SameKey (e : Env) (d d' : Draw) (s s' : Sys) : Prop :=
  ∃ key, (endState (generateNewMasterkey e d generateTypes s)).objects = key :: s.objects ∧
    (endState (mnemonicToMasterkey e d' restoreTypes s')).objects = key :: s'.objects

/-- the first octet tells whether the password is `m` -/
def telling (m password : List UInt8) (salt : List UInt8) (rounds : Nat) : List.Vector UInt8 64 :=
  List.Vector.replicate 64 (if password = m then 0 else 1)

/-- a code that repeats the first octet -/
def repeating : Hmac512 := fun _ message => List.Vector.replicate 64 (message.headD 0)

theorem masterkeyExt_telling : masterkeyExt (e.hashed (telling m) repeating) l =
    List.replicate 64 (if l = m then 0 else 1) := by
  by_cases h : l = m
  · rw [if_pos h, masterkeyExt, fromMnemonicToSeed, hdnodeFromSeed]
    simp only [Env.hashed, telling, if_pos h]
    rfl
  · rw [if_neg h, masterkeyExt, fromMnemonicToSeed, hdnodeFromSeed]
    simp only [Env.hashed, telling, if_neg h]
    rfl

/-- **A restored key** is the generated one, whatever the hashes, just when the byte behind the
mnemonic is a null. -/
theorem backup_iff (e : Env) (d : Draw) (s : Sys) (hpin : (s.params 0).a = 1234) :
    ∃ m, Given e d s m ∧ ∀ (d' : Draw) (s' : Sys), (s'.params 0).a = 1234 →
      s'.mem.bytes (s'.params 1).buffer m.length = m →
      ((∀ kdf mac, SameKey (e.hashed kdf mac) d d' s s') ↔
        s'.mem ((s'.params 1).buffer + m.length) = 0) := by
  obtain ⟨rest, hrun, hlen⟩ := getRandomMnemonic_phrase e.sha256 d.entropy d.behind d.junk
  generalize hm : phrase (d.entropy.toList ++ [(e.sha256 d.entropy.toList).head]) = m at hrun hlen
  have hnull : 0 ∉ m := by
    rw [← hm]
    exact null_not_mem_phrase _
  have hshort : m.length + 1 ≤ mnemonicLength := by
    rw [← hlen, List.length_append, List.length_cons]
    omega
  refine ⟨m, ?_, ?_⟩
  · have hread := Mem.bytes_write_part (m := s.mem) (a := (s.params 1).buffer) (i := 0)
      (n := mnemonicLength) (l := m ++ 0 :: rest) (by omega)
    rw [Nat.add_zero, List.drop_zero, List.take_of_length_le (by omega)] at hread
    rw [Given, (generate_end hpin hrun).2, hread]
    exact (cString_iff hnull).mpr rfl
  intro d' s' hpin' hs'
  -- the bytes that are copied, with the one behind the mnemonic
  obtain ⟨rest', hbytes⟩ : ∃ rest', s'.mem.bytes (s'.params 1).buffer mnemonicLength =
      m ++ s'.mem ((s'.params 1).buffer + m.length) :: rest' := by
    obtain ⟨k, hk⟩ := Nat.exists_eq_add_of_le hshort
    refine ⟨s'.mem.bytes ((s'.params 1).buffer + (m.length + 1)) k, ?_⟩
    rw [hk, Mem.bytes_append, Mem.bytes_append, hs', List.append_assoc]
    rfl
  have hgen : ∀ kdf mac, (endState (generateNewMasterkey (e.hashed kdf mac) d generateTypes
      s)).objects = masterkeyExt (e.hashed kdf mac) m :: s.objects := by
    intro kdf mac
    rw [(generate_end (e := e.hashed kdf mac) hpin hrun).1,
      stored_of_some ((cString_iff hnull).mpr rfl)]
  have hres : ∀ kdf mac, (endState (mnemonicToMasterkey (e.hashed kdf mac) d' restoreTypes
      s')).objects = stored (e.hashed kdf mac)
        (m ++ s'.mem ((s'.params 1).buffer + m.length) :: rest') s'.objects := by
    intro kdf mac
    rw [restore_end hpin', hbytes]
  have hnext : cString (m ++ s'.mem ((s'.params 1).buffer + m.length) :: rest') = some m ↔
      s'.mem ((s'.params 1).buffer + m.length) = 0 := cString_iff hnull
  rw [← hnext]
  constructor
  · intro h
    obtain ⟨key, hkey, hkey'⟩ := h (telling m) repeating
    rw [hgen, masterkeyExt_telling, if_pos rfl] at hkey
    rw [hres] at hkey'
    cases htext : cString (m ++ s'.mem ((s'.params 1).buffer + m.length) :: rest') with
    | none =>
      rw [stored_of_none htext] at hkey'
      exact absurd hkey' (List.ne_cons_self)
    | some text =>
      by_cases ht : text = m
      · rw [ht]
      · rw [stored_of_some htext, masterkeyExt_telling, if_neg ht] at hkey'
        have heq := (List.cons.inj hkey').1.trans (List.cons.inj hkey).1.symm
        exact absurd heq (by decide)
  · intro h kdf mac
    refine ⟨masterkeyExt (e.hashed kdf mac) m, hgen kdf mac, ?_⟩
    rw [hres, stored_of_some h]

/-- a backup and a restore of one memory -/
theorem backup_blank : ∃ m, Given someEnv someDraw (someSys (fun _ => 0) 240) m ∧
    ∀ (d' : Draw) (s' : Sys), (s'.params 0).a = 1234 →
      s'.mem.bytes (s'.params 1).buffer m.length = m →
      ((∀ kdf mac, SameKey (someEnv.hashed kdf mac) someDraw d' (someSys (fun _ => 0) 240) s') ↔
        s'.mem ((s'.params 1).buffer + m.length) = 0) :=
  backup_iff someEnv someDraw (someSys (fun _ => 0) 240) rfl

/-- the mnemonic of no entropy -/
def someMnemonic : List UInt8 := (List.replicate 23 (octets "abandon ")).flatten ++ octets "abandon"

/-- a letter stands behind the mnemonic -/
theorem restore_other_key : ¬ ∀ (e : Env) (d d' : Draw) (s s' : Sys) (m : List UInt8),
    (s.params 0).a = 1234 → (s'.params 0).a = 1234 → Given e d s m →
    (s'.params 1).size = m.length → s'.mem.bytes (s'.params 1).buffer m.length = m →
    SameKey e d d' s s' := by
  intro h
  have hgiven : Given someEnv someDraw (someSys (fun _ => 0) 240) someMnemonic := by
    rw [Given]
    decide +kernel
  obtain ⟨key, hkey, hkey'⟩ := h someEnv someDraw someDraw (someSys (fun _ => 0) 240)
    (someSys (Mem.write (fun _ => 0) 64 (someMnemonic ++ octets "x")) 191) someMnemonic rfl rfl
    hgiven (by decide +kernel) (by decide +kernel)
  have hgenerate : (endState (generateNewMasterkey someEnv someDraw generateTypes
      (someSys (fun _ => 0) 240))).objects = [List.replicate 64 191] := by decide +kernel
  have hrestore : (endState (mnemonicToMasterkey someEnv someDraw restoreTypes
      (someSys (Mem.write (fun _ => 0) 64 (someMnemonic ++ octets "x")) 191))).objects =
        [List.replicate 64 192] := by decide +kernel
  rw [hgenerate] at hkey
  rw [hrestore] at hkey'
  have heq := (List.cons.inj hkey).1.trans (List.cons.inj hkey').1.symm
  exact absurd heq (by decide)

end

end MTower.Wallet.Ta
