import MTower.Lib.BigEndian

/-!
# The key file and the signature of the firmware

`ecdsa_keygen` writes a key pair to a file, and `fwinfogen` reads it and signs a description of the
firmware with it.  A number goes into its field with `BN_bn2bin`, which writes as many bytes as the
number has, and comes out of a field with `BN_bin2bn`, which reads all of them.

* `keygen`          the structure that `ecdsa_keygen` fills and writes;
* `signPFwInfo`     `fwinfogen` reads the key and fills the signature;
* `FieldsExact`     every field holds its number, whatever the memory held;
* `fieldsExact_iff` for which numbers.
-/

set_option linter.unusedVariables false

namespace MTower.Tools
open Lib Lib.Fields

/-! ## numbers and fields -/

def bnBn2bin (mem : Nat → UInt8) (offs n : Nat) : Nat → UInt8 := blit mem offs (bigEndian n)

def bnBin2bn (mem : Nat → UInt8) (offs len : Nat) : Nat := number (bytesAt mem offs len)

/-- the size of each of the fields in question -/
def fieldSize : Nat := 32

/-! ## `ECC_KEY_T` -/

def eccKeyQx : Nat := 0
def eccKeyQy : Nat := 32
def eccKeyD : Nat := 64
def sizeofEccKey : Nat := 96

/-- `ecc_ecdsa_key`; `mem` is what the stack held -/
def keygen (mem : Nat → UInt8) (d x y : Nat) : Nat → UInt8 :=
  let key := bnBn2bin mem eccKeyD d
  let key := bnBn2bin key eccKeyQx x
  bnBn2bin key eccKeyQy y

/-! ## `FW_INFO_T` -/

def fwInfoKey0 : Nat := 0
def fwInfoKey1 : Nat := 32
def fwInfoAuthCFGs : Nat := 64
def fwInfoRegionLen : Nat := 68
def fwInfoRegionStart : Nat := 72
def fwInfoRegionSize : Nat := 76
def fwInfoExtInfoLen : Nat := 80
def fwInfoExtInfo : Nat := 84
def fwInfoHash : Nat := 96
def fwInfoR : Nat := 128
def fwInfoS : Nat := 160
def sizeofFwInfo : Nat := 192
def sizeofSign : Nat := 64

/-- what is used of the cryptographic library -/
structure OpenSsl where
  sha256 : List UInt8 → List UInt8
  sha256_length : ∀ l, (sha256 l).length = 32
  /-- `EC_KEY_set_private_key` -/
  setPrivateKey : Nat → Bool
  /-- `EC_KEY_set_public_key_affine_coordinates` -/
  setPublicKey : Nat → Nat → Bool
  /-- `ECDSA_do_sign` with the private key -/
  sign : Nat → List UInt8 → Option (Nat × Nat)
  /-- a signature is a pair of numbers below the order of the group -/
  sign_lt : ∀ d h r s, sign d h = some (r, s) → r < 256 ^ fieldSize ∧ s < 256 ^ fieldSize
  /-- `ECDSA_do_verify` with the public key -/
  verify : Nat × Nat → List UInt8 → Nat × Nat → Bool

/-- the structure after the call and its result -/
def signPFwInfo (lib : OpenSsl) (fw key : Nat → UInt8) : (Nat → UInt8) × Int :=
  let fw := blit fw fwInfoKey0 (bytesAt key eccKeyQx fieldSize)
  let fw := blit fw fwInfoKey1 (bytesAt key eccKeyQy fieldSize)
  let x := bnBin2bn key eccKeyQx fieldSize
  let y := bnBin2bn key eccKeyQy fieldSize
  let d := bnBin2bn key eccKeyD fieldSize
  if !lib.setPrivateKey d then (fw, -1)
  else if !lib.setPublicKey x y then (fw, -1)
  else
    let headHash := lib.sha256 (bytesAt fw 0 (sizeofFwInfo - sizeofSign))
    match lib.sign d headHash with
    | none => (fw, 0)
    | some (r, s) =>
      if !lib.verify (x, y) headHash (r, s) then (fw, 0)
      else (bnBn2bin (bnBn2bin fw fwInfoR r) fwInfoS s, 0)

/-- the structure without its signature -/
def withPubkey (fw key : Nat → UInt8) : Nat → UInt8 :=
  blit (blit fw fwInfoKey0 (bytesAt key eccKeyQx fieldSize)) fwInfoKey1
    (bytesAt key eccKeyQy fieldSize)

/-- the library signs the structure with `r` and `s` -/
structure Signed (lib : OpenSsl) (fw key : Nat → UInt8) (r s : Nat) : Prop where
  privateKey : lib.setPrivateKey (bnBin2bn key eccKeyD fieldSize) = true
  publicKey : lib.setPublicKey (bnBin2bn key eccKeyQx fieldSize)
    (bnBin2bn key eccKeyQy fieldSize) = true
  sign : lib.sign (bnBin2bn key eccKeyD fieldSize)
    (lib.sha256 (bytesAt (withPubkey fw key) 0 (sizeofFwInfo - sizeofSign))) = some (r, s)
  verify : lib.verify (bnBin2bn key eccKeyQx fieldSize, bnBin2bn key eccKeyQy fieldSize)
    (lib.sha256 (bytesAt (withPubkey fw key) 0 (sizeofFwInfo - sizeofSign))) (r, s) = true

section
variable {lib : OpenSsl} {fw key mem : Nat → UInt8} {d x y r s n offs : Nat}

theorem signPFwInfo_signed (h : Signed lib fw key r s) : signPFwInfo lib fw key =
    (bnBn2bin (bnBn2bin (withPubkey fw key) fwInfoR r) fwInfoS s, 0) := by
  have hsign := h.sign
  have hverify := h.verify
  unfold withPubkey at hsign hverify
  simp only [signPFwInfo, h.privateKey, h.publicKey, hsign, hverify]
  rfl

/-- the structure gets the public key, and a signature when there is one -/
theorem signPFwInfo_cases (lib : OpenSsl) (fw key : Nat → UInt8) :
    (signPFwInfo lib fw key).1 = withPubkey fw key ∨ ∃ r s, (signPFwInfo lib fw key).1 =
      bnBn2bin (bnBn2bin (withPubkey fw key) fwInfoR r) fwInfoS s := by
  simp only [signPFwInfo]
  split
  · exact .inl rfl
  · split
    · exact .inl rfl
    · split
      · exact .inl rfl
      · split
        · exact .inl rfl
        · exact .inr ⟨_, _, rfl⟩

/-! ## the fields -/

/-- a piece that is written elsewhere leaves the bytes of a field -/
theorem bytesAt_other {l : List UInt8} {q len : Nat}
    (h : q + l.length ≤ offs ∨ offs + len ≤ q) :
    bytesAt (blit mem q l) offs len = bytesAt mem offs len := by
  refine bytesAt_congr fun i h1 h2 => blit_out ?_
  omega

/-- a number that is written over other pieces -/
theorem field_other {l : List UInt8} {q : Nat} (hn : n < 256 ^ fieldSize)
    (h : q + l.length ≤ offs ∨ offs + fieldSize ≤ q) :
    bytesAt (bnBn2bin (blit mem q l) offs n) offs fieldSize =
      bytesAt (bnBn2bin mem offs n) offs fieldSize := by
  have hle := bigEndian_length_le.mpr hn
  rw [bnBn2bin, bnBn2bin, bytesAt_blit hle, bytesAt_blit hle]
  refine congrArg (_ ++ ·) (bytesAt_other ?_)
  omega

/-- the fields of the key that `ecdsa_keygen` writes -/
theorem keygen_fields (hd : d < 256 ^ fieldSize) (hx : x < 256 ^ fieldSize)
    (hy : y < 256 ^ fieldSize) (mem : Nat → UInt8) :
    bytesAt (keygen mem d x y) eccKeyD fieldSize =
      bytesAt (bnBn2bin mem eccKeyD d) eccKeyD fieldSize ∧
    bytesAt (keygen mem d x y) eccKeyQx fieldSize =
      bytesAt (bnBn2bin mem eccKeyQx x) eccKeyQx fieldSize ∧
    bytesAt (keygen mem d x y) eccKeyQy fieldSize =
      bytesAt (bnBn2bin mem eccKeyQy y) eccKeyQy fieldSize := by
  have hdl := bigEndian_length_le.mpr hd
  have hxl := bigEndian_length_le.mpr hx
  have hyl := bigEndian_length_le.mpr hy
  simp only [fieldSize] at hdl hxl hyl
  refine ⟨?_, ?_, ?_⟩
  · have h1 : eccKeyQy + (bigEndian y).length ≤ eccKeyD := by simp only [eccKeyQy, eccKeyD]; omega
    have h2 : eccKeyQx + (bigEndian x).length ≤ eccKeyD := by simp only [eccKeyQx, eccKeyD]; omega
    exact (bytesAt_other (.inl h1)).trans (bytesAt_other (.inl h2))
  · exact (bytesAt_other (.inr (by decide))).trans (field_other hx (.inr (by decide)))
  · have h1 : eccKeyQx + (bigEndian x).length ≤ eccKeyQy := by simp only [eccKeyQx, eccKeyQy]; omega
    exact (field_other hy (.inl h1)).trans (field_other hy (.inr (by decide)))

/-- the fields of a signature -/
theorem sign_fields (h : Signed lib fw key r s) :
    bytesAt (signPFwInfo lib fw key).1 fwInfoR fieldSize =
      bytesAt (bnBn2bin fw fwInfoR r) fwInfoR fieldSize ∧
    bytesAt (signPFwInfo lib fw key).1 fwInfoS fieldSize =
      bytesAt (bnBn2bin fw fwInfoS s) fwInfoS fieldSize := by
  obtain ⟨hr, hs⟩ := lib.sign_lt _ _ _ _ h.sign
  have hrl := bigEndian_length_le.mpr hr
  have h1 : fwInfoR + (bigEndian r).length ≤ fwInfoS := by
    simp only [fieldSize, fwInfoR, fwInfoS] at hrl ⊢
    omega
  have h2 : fwInfoKey0 + (bytesAt key eccKeyQx fieldSize).length ≤ fwInfoR := by
    rw [length_bytesAt]
    decide
  have h3 : fwInfoKey1 + (bytesAt key eccKeyQy fieldSize).length ≤ fwInfoR := by
    rw [length_bytesAt]
    decide
  have h4 : fwInfoKey0 + (bytesAt key eccKeyQx fieldSize).length ≤ fwInfoS := by
    rw [length_bytesAt]
    decide
  have h5 : fwInfoKey1 + (bytesAt key eccKeyQy fieldSize).length ≤ fwInfoS := by
    rw [length_bytesAt]
    decide
  rw [signPFwInfo_signed h]
  constructor
  · exact (bytesAt_other (.inr (by decide))).trans
      ((field_other hr (.inl h3)).trans (field_other hr (.inl h2)))
  · exact (field_other hs (.inl h1)).trans ((field_other hs (.inl h5)).trans (field_other hs (.inl h4)))

end

/-- the fields of the key file hold their numbers, and nothing of what the memory held before -/
def KeyExact (d x y : Nat) : Prop := ∀ mem mem',
  bnBin2bn (keygen mem d x y) eccKeyD fieldSize = d ∧
  bnBin2bn (keygen mem d x y) eccKeyQx fieldSize = x ∧
  bnBin2bn (keygen mem d x y) eccKeyQy fieldSize = y ∧
  ∀ offs ∈ [eccKeyD, eccKeyQx, eccKeyQy], bytesAt (keygen mem d x y) offs fieldSize =
    bytesAt (keygen mem' d x y) offs fieldSize

/-- the fields of a signature, likewise -/
def SignExact (r s : Nat) : Prop := ∀ lib lib' fw fw' key key',
  Signed lib fw key r s → Signed lib' fw' key' r s →
    bnBin2bn (signPFwInfo lib fw key).1 fwInfoR fieldSize = r ∧
    bnBin2bn (signPFwInfo lib fw key).1 fwInfoS fieldSize = s ∧
    ∀ offs ∈ [fwInfoR, fwInfoS], bytesAt (signPFwInfo lib fw key).1 offs fieldSize =
      bytesAt (signPFwInfo lib' fw' key').1 offs fieldSize

structure FieldsExact (d x y r s : Nat) : Prop where
  key : KeyExact d x y
  sign : SignExact r s

/-- a number has no leading zero byte in a field -/
def FillsField (n : Nat) : Prop := 256 ^ (fieldSize - 1) ≤ n

section
variable {d x y r s n : Nat}

theorem bnBn2bin_exact (hn : n < 256 ^ fieldSize) (offs : Nat) :
    (∀ mem mem', bnBin2bn (bnBn2bin mem offs n) offs fieldSize = n ∧
      bytesAt (bnBn2bin mem offs n) offs fieldSize =
        bytesAt (bnBn2bin mem' offs n) offs fieldSize) ↔ FillsField n :=
  field_iff (by decide) hn offs

theorem keyExact_iff (hd : d < 256 ^ fieldSize) (hx : x < 256 ^ fieldSize)
    (hy : y < 256 ^ fieldSize) :
    KeyExact d x y ↔ FillsField d ∧ FillsField x ∧ FillsField y := by
  rw [← bnBn2bin_exact hd eccKeyD, ← bnBn2bin_exact hx eccKeyQx, ← bnBn2bin_exact hy eccKeyQy]
  simp only [KeyExact, bnBin2bn, List.forall_mem_cons, List.not_mem_nil, false_imp_iff,
    implies_true, and_true, (keygen_fields hd hx hy _).1, (keygen_fields hd hx hy _).2.1,
    (keygen_fields hd hx hy _).2.2]
  constructor
  · intro h
    exact ⟨fun mem mem' => ⟨(h mem mem').1, (h mem mem').2.2.2.1⟩,
      fun mem mem' => ⟨(h mem mem').2.1, (h mem mem').2.2.2.2.1⟩,
      fun mem mem' => ⟨(h mem mem').2.2.1, (h mem mem').2.2.2.2.2⟩⟩
  · intro ⟨h1, h2, h3⟩ mem mem'
    exact ⟨(h1 mem mem').1, (h2 mem mem').1, (h3 mem mem').1, (h1 mem mem').2, (h2 mem mem').2,
      (h3 mem mem').2⟩

/-- a library that gives one signature -/
def fixedSign (hr : r < 256 ^ fieldSize) (hs : s < 256 ^ fieldSize) : OpenSsl where
  sha256 := fun _ => List.replicate 32 0
  sha256_length := fun _ => List.length_replicate
  setPrivateKey := fun _ => true
  setPublicKey := fun _ _ => true
  sign := fun _ _ => some (r, s)
  sign_lt := by
    intro _ _ r' s' h
    cases h
    exact ⟨hr, hs⟩
  verify := fun _ _ _ => true

theorem fixedSign_signed (hr : r < 256 ^ fieldSize) (hs : s < 256 ^ fieldSize)
    (fw key : Nat → UInt8) : Signed (fixedSign hr hs) fw key r s :=
  ⟨rfl, rfl, rfl, rfl⟩

theorem signExact_iff (hr : r < 256 ^ fieldSize) (hs : s < 256 ^ fieldSize) :
    SignExact r s ↔ FillsField r ∧ FillsField s := by
  rw [← bnBn2bin_exact hr fwInfoR, ← bnBn2bin_exact hs fwInfoS]
  constructor
  · intro h
    have key : Nat → UInt8 := fun _ => 0
    have hfixed : ∀ fw fw', _ := fun fw fw' => h _ _ fw fw' key key
      (fixedSign_signed hr hs fw key) (fixedSign_signed hr hs fw' key)
    simp only [bnBin2bn, List.forall_mem_cons, (sign_fields (fixedSign_signed hr hs _ key)).1,
      (sign_fields (fixedSign_signed hr hs _ key)).2] at hfixed
    exact ⟨fun fw fw' => ⟨(hfixed fw fw').1, (hfixed fw fw').2.2.1⟩,
      fun fw fw' => ⟨(hfixed fw fw').2.1, (hfixed fw fw').2.2.2.1⟩⟩
  · intro ⟨h1, h2⟩ lib lib' fw fw' key key' hl hl'
    obtain ⟨e1, e2⟩ := sign_fields hl
    obtain ⟨e1', e2'⟩ := sign_fields hl'
    simp only [bnBin2bn, List.forall_mem_cons, List.not_mem_nil, false_imp_iff, implies_true,
      and_true, e1, e2, e1', e2']
    exact ⟨(h1 fw fw').1, (h2 fw fw').1, (h1 fw fw').2, (h2 fw fw').2⟩

theorem fieldsExact_bounds (hd : d < 256 ^ fieldSize) (hx : x < 256 ^ fieldSize)
    (hy : y < 256 ^ fieldSize) (hr : r < 256 ^ fieldSize) (hs : s < 256 ^ fieldSize) :
    FieldsExact d x y r s ↔
      (FillsField d ∧ FillsField x ∧ FillsField y) ∧ FillsField r ∧ FillsField s := by
  rw [← keyExact_iff hd hx hy, ← signExact_iff hr hs]
  exact ⟨fun h => ⟨h.key, h.sign⟩, fun h => ⟨h.1, h.2⟩⟩

/-- **The fields hold their numbers** when each of the five has all its bytes, and only then. -/
theorem fieldsExact_iff (hd : d < 2 ^ 256) (hx : x < 2 ^ 256) (hy : y < 2 ^ 256)
    (hr : r < 2 ^ 256) (hs : s < 2 ^ 256) : FieldsExact d x y r s ↔
      2 ^ 248 ≤ d ∧ 2 ^ 248 ≤ x ∧ 2 ^ 248 ≤ y ∧ 2 ^ 248 ≤ r ∧ 2 ^ 248 ≤ s := by
  have hsize : 256 ^ fieldSize = 2 ^ 256 := by decide
  have hfills : ∀ n, FillsField n ↔ 2 ^ 248 ≤ n := by
    intro n
    rw [FillsField, show 256 ^ (fieldSize - 1) = 2 ^ 248 by decide]
  rw [← hsize] at hd hx hy hr hs
  rw [fieldsExact_bounds hd hx hy hr hs]
  simp only [hfills, and_assoc]

end

theorem fieldsExact_iff_top : FieldsExact (2 ^ 255) (2 ^ 248) (2 ^ 249) (2 ^ 250) (2 ^ 251) ↔
    2 ^ 248 ≤ 2 ^ 255 ∧ 2 ^ 248 ≤ 2 ^ 248 ∧ 2 ^ 248 ≤ 2 ^ 249 ∧ 2 ^ 248 ≤ 2 ^ 250 ∧
      2 ^ 248 ≤ 2 ^ 251 :=
  fieldsExact_iff (by decide) (by decide) (by decide) (by decide) (by decide)

/-- a private key whose first byte is zero -/
theorem fieldsExact_short :
    ¬ ∀ d x y r s, d < 2 ^ 256 → x < 2 ^ 256 → y < 2 ^ 256 → r < 2 ^ 256 → s < 2 ^ 256 →
      FieldsExact d x y r s := by
  intro h
  have hsmall := h (2 ^ 248 - 1) (2 ^ 255) (2 ^ 255) (2 ^ 255) (2 ^ 255) (by decide) (by decide)
    (by decide) (by decide) (by decide)
  have hfills := ((fieldsExact_bounds (by decide) (by decide) (by decide) (by decide)
    (by decide)).mp hsmall).1.1
  exact absurd hfills (by rw [FillsField]; decide)

end MTower.Tools
