import MTower.Lib.Loop
import MTower.Lib.Memory
import MTower.Tools.KeyFile

/-!
# The images of the firmware

`fwinfogen` builds two images in a buffer of 256 KiB.  The secure one holds BL2 from the start, BL32
from its configured address and a signed description of BL32; the non-secure one holds BL33 and a
description of it.  A description records the place, the size and the hash of what it describes.

* `main`           `fwinfogen` with its three parts configured;
* `Fits`           the files have room in the images;
* `Verifies`       what a description records is what its image holds;
* `Packed`         what the tool is for;
* `packed_iff`     for which files it does it.
-/

set_option linter.unusedVariables false

namespace MTower.Tools
open Lib Lib.Fields

/-! ## the tool -/

inductive Fault
  | outOfBounds
  | doubleFree
  | nullPointer
deriving DecidableEq, Repr

/-- how `main` ends early -/
inductive Stop
  | ret (code : Int)
  | fault (f : Fault)
deriving DecidableEq, Repr

abbrev Main := Except Stop

/-- an image file: `fopen` fails, `fwrite` fails, or neither does -/
inductive Output
  | closed
  | full
  | good
deriving DecidableEq, Repr

/-- the configured addresses, `int` constants -/
structure Config where
  startAddressBL32 : Nat
  startAddressBL33 : Nat
  bl32_lt : startAddressBL32 < 2 ^ 31
  bl33_lt : startAddressBL33 < 2 ^ 31

/-- what the tool is given; a missing file is `none` -/
structure Env where
  malloc : Bool
  bl2 : Option (List UInt8)
  bl32 : Option (List UInt8)
  mtowerS : Output
  ecdsaKeys : Option (List UInt8)
  bl33 : Option (List UInt8)
  mtowerNs : Output

def bufSize : Nat := 1024 * 256
/-- where the secure image has its `FW_INFO_T` -/
def fwInfoAddress : Nat := 0x3fb00

def Config.bl33MetadataAddress (cfg : Config) : Int := 0x10080000 - cfg.startAddressBL33 - 0x8000

/-- `ftell` into an `int` -/
def getFileSize : Option (List UInt8) → Int
  | none => -1
  | some l => Int.bmod l.length (2 ^ 32)

/-- a write to the buffer; nothing is accessed when there is nothing to write -/
def place (buf : Mem) (offs : Int) (l : List UInt8) : Main Mem :=
  if l = [] ∨ 0 ≤ offs ∧ offs + l.length ≤ bufSize then .ok (blit buf offs.toNat l)
  else .error (.fault .outOfBounds)

/-- the size is taken, the file is opened and read to `start`; `notOpened` and `notRead` are how
`main` ends when that fails -/
def loadFile (notOpened notRead : Stop) (start : Nat) (file : Option (List UInt8)) (buf : Mem) :
    Main (Mem × Nat) := do
  let size := getFileSize file
  if size < 0 then .error (.ret (-1))
  else match file with
    | none => .error notOpened
    | some l =>
      let data := l.take size.toNat
      let buf ← place buf start data
      if data.length ≠ size.toNat then .error notRead else .ok (buf, size.toNat)

/-- the file is opened and the image is written -/
def writeFile (notWritten : Stop) : Output → Main Unit
  | .closed => .error (.fault .nullPointer)
  | .full => .error notWritten
  | .good => .ok ()

def initFwInfo (cfg : Config) (dateCompile : Nat) (mem : Mem) : Mem :=
  let fw := mem.store32 fwInfoAuthCFGs 1
  let fw := fw.store32 fwInfoRegionLen 8
  let fw := fw.store32 fwInfoRegionStart cfg.startAddressBL32
  let fw := fw.store32 fwInfoRegionSize 0
  let fw := fw.store32 fwInfoExtInfoLen 0xc
  let fw := fw.store32 fwInfoExtInfo dateCompile
  let fw := fw.store32 (fwInfoExtInfo + 4) 0x1111
  fw.store32 (fwInfoExtInfo + 8) 0x22223333

def readKey (key : Mem) : Option (List UInt8) → Main Mem
  | none => .error (.fault .nullPointer)
  | some l => if (l.take sizeofEccKey).length ≠ sizeofEccKey then .error (.ret (-1))
    else .ok (blit key 0 (l.take sizeofEccKey))

/-- `mtower_s.bin`; the key and the description are used again -/
def secureImage (cfg : Config) (lib : OpenSsl) (fw key : Mem) (env : Env) :
    Main (List UInt8 × Mem × Mem) := do
  let buf : Mem := fun _ => 0
  let (buf, _) ← loadFile (.ret (-1)) (.fault .doubleFree) 0 env.bl2 buf
  let (buf, size) ← loadFile (.fault .nullPointer) (.fault .doubleFree) cfg.startAddressBL32
    env.bl32 buf
  let fw := blit fw fwInfoHash (lib.sha256 (bytesAt buf cfg.startAddressBL32 size))
  let fw := Mem.store32 fw fwInfoRegionSize size
  let key ← readKey key env.ecdsaKeys
  let fw := (signPFwInfo lib fw key).1
  let buf ← place buf fwInfoAddress (bytesAt fw 0 sizeofFwInfo)
  writeFile (.fault .doubleFree) env.mtowerS
  pure (bytesAt buf 0 (fwInfoAddress + sizeofFwInfo), fw, key)

/-- `mtower_ns.bin` -/
def nonsecureImage (cfg : Config) (lib : OpenSsl) (fw key : Mem) (env : Env) :
    Main (List UInt8) := do
  let buf : Mem := fun _ => 0
  let (buf, size) ← loadFile (.fault .nullPointer) (.ret (-1)) 0 env.bl33 buf
  let fw := blit fw fwInfoHash (lib.sha256 (bytesAt buf 0 size))
  let fw := Mem.store32 fw fwInfoRegionStart cfg.startAddressBL33
  let fw := Mem.store32 fw fwInfoRegionSize size
  let fw := (signPFwInfo lib fw key).1
  let buf ← place buf cfg.bl33MetadataAddress (bytesAt fw 0 sizeofFwInfo)
  writeFile (.ret (-1)) env.mtowerNs
  pure (bytesAt buf 0 (cfg.bl33MetadataAddress + sizeofFwInfo).toNat)

/-- the two images when the exit code is 0; `fwInfo` and `key` are what the stack held -/
def main (cfg : Config) (lib : OpenSsl) (dateCompile : Nat) (fwInfo key : Mem) (env : Env) :
    Main (List UInt8 × List UInt8) := do
  if !env.malloc then .error (.fault .nullPointer)
  else
    let (mtowerS, fw, key) ← secureImage cfg lib (initFwInfo cfg dateCompile fwInfo) key env
    let mtowerNs ← nonsecureImage cfg lib fw key env
    pure (mtowerS, mtowerNs)

/-! ## what it is for -/

/-- the bytes of a file -/
def fileLen : Option (List UInt8) → Nat
  | none => 0
  | some l => l.length

/-- no address is in both -/
def Apart (r s : Range) : Prop := ∀ a, ¬ (r.Has a ∧ s.Has a)

/-- the pieces lie in an image of `size` bytes, apart from each other -/
def LaidOut (size : Nat) (l : List Range) : Prop :=
  l.Pairwise Apart ∧ ∀ r ∈ l, ∀ a, r.Has a → a < size

/-- the two images with their pieces fit into the buffer -/
def Fits (cfg : Config) (env : Env) : Prop :=
  LaidOut (fwInfoAddress + sizeofFwInfo) [⟨0, fileLen env.bl2⟩,
    ⟨cfg.startAddressBL32, fileLen env.bl32⟩, ⟨fwInfoAddress, sizeofFwInfo⟩] ∧
  0 ≤ cfg.bl33MetadataAddress ∧ cfg.bl33MetadataAddress + sizeofFwInfo ≤ bufSize ∧
  LaidOut (cfg.bl33MetadataAddress.toNat + sizeofFwInfo) [⟨0, fileLen env.bl33⟩,
    ⟨cfg.bl33MetadataAddress.toNat, sizeofFwInfo⟩]

/-- the `FW_INFO_T` at `addr` of an image -/
def infoAt (image : List UInt8) (addr : Nat) : Mem := fun i => image.getD (addr + i) 0

/-- the recorded region of an image that lies at `base` has the recorded hash -/
structure Verifies (lib : OpenSsl) (image : List UInt8) (addr base : Nat) : Prop where
  start : base ≤ (infoAt image addr).load32 fwInfoRegionStart
  size : ((image.drop ((infoAt image addr).load32 fwInfoRegionStart - base)).take
    ((infoAt image addr).load32 fwInfoRegionSize)).length =
      (infoAt image addr).load32 fwInfoRegionSize
  hash : bytesAt (infoAt image addr) fwInfoHash 32 =
    lib.sha256 ((image.drop ((infoAt image addr).load32 fwInfoRegionStart - base)).take
      ((infoAt image addr).load32 fwInfoRegionSize))

/-- **What the tool is for**: it writes nowhere else, what does not fit is rejected, and the images
it leaves verify. -/
def Packed (cfg : Config) (lib : OpenSsl) (env : Env) : Main (List UInt8 × List UInt8) → Prop :=
  post (fun e => e ≠ .fault .outOfBounds ∧ (¬ Fits cfg env → ∃ code, code ≠ 0 ∧ e = .ret code))
    fun images => Fits cfg env ∧ Verifies lib images.1 fwInfoAddress 0 ∧
      Verifies lib images.2 cfg.bl33MetadataAddress.toNat cfg.startAddressBL33

/-! ## the descriptions -/

section
variable {lib : OpenSsl} {buf fw key : Mem} {addr base offs size n : Nat}

/-- a piece of an image -/
theorem piece_bytesAt (h : offs + size ≤ n) :
    ((bytesAt buf 0 n).drop offs).take size = bytesAt buf offs size := by
  obtain ⟨m, rfl⟩ := Nat.exists_eq_add_of_le h
  have hoffs := length_bytesAt buf 0 offs
  have hsize := length_bytesAt buf offs size
  rw [bytesAt_add, bytesAt_add, List.append_assoc, Nat.zero_add, List.drop_left' hoffs,
    List.take_left' hsize]

/-- signing leaves the description of the firmware -/
theorem signPFwInfo_frame {i : Nat} (h1 : fwInfoAuthCFGs ≤ i) (h2 : i < fwInfoR) :
    (signPFwInfo lib fw key).1 i = fw i := by
  have hkey : withPubkey fw key i = fw i := by
    rw [withPubkey, blit_out, blit_out]
    · rw [length_bytesAt]
      exact .inr (le_trans (by decide) h1)
    · rw [length_bytesAt]
      exact .inr (le_trans (by decide) h1)
  obtain h | ⟨r, s, h⟩ := signPFwInfo_cases lib fw key
  · rw [h, hkey]
  · have hS : i < fwInfoS := lt_trans h2 (by decide)
    rw [h, bnBn2bin, blit_out (.inl hS), bnBn2bin, blit_out (.inl h2), hkey]

/-- an image whose description is right when it is written -/
theorem verifies_image (offs : Nat) (hstart : fw.load32 fwInfoRegionStart = base + offs)
    (hsize : fw.load32 fwInfoRegionSize = size)
    (hhash : bytesAt fw fwInfoHash 32 = lib.sha256 (bytesAt buf offs size))
    (hroom : size = 0 ∨ offs + size ≤ addr) :
    Verifies lib (bytesAt (blit buf addr (bytesAt fw 0 sizeofFwInfo)) 0 (addr + sizeofFwInfo))
      addr base := by
  have hinfo : ∀ i < sizeofFwInfo,
      infoAt (bytesAt (blit buf addr (bytesAt fw 0 sizeofFwInfo)) 0 (addr + sizeofFwInfo)) addr i =
        fw i := by
    intro i hi
    simp [infoAt, bytesAt, blit, hi, List.getD_eq_getElem?_getD]
  have hword : ∀ p, p + 4 ≤ sizeofFwInfo → Mem.load32 (infoAt
      (bytesAt (blit buf addr (bytesAt fw 0 sizeofFwInfo)) 0 (addr + sizeofFwInfo)) addr) p =
        fw.load32 p := by
    intro p hp
    refine Mem.load32_congr fun a ha => hinfo a ?_
    have hlt := ha.2
    simp only at hlt
    omega
  have hpiece : ((bytesAt (blit buf addr (bytesAt fw 0 sizeofFwInfo)) 0
      (addr + sizeofFwInfo)).drop offs).take size = bytesAt buf offs size := by
    cases hroom with
    | inl h => rw [h, List.take_zero]; rfl
    | inr h =>
      rw [piece_bytesAt (by omega)]
      exact bytesAt_congr fun i _ hi => blit_out (.inl (by omega))
  have hstart' := (hword fwInfoRegionStart (by decide)).trans hstart
  have hsize' := (hword fwInfoRegionSize (by decide)).trans hsize
  refine ⟨?_, ?_, ?_⟩
  · rw [hstart']
    exact Nat.le_add_right _ _
  · rw [hstart', hsize', Nat.add_sub_cancel_left, hpiece, length_bytesAt]
  · rw [hstart', hsize', Nat.add_sub_cancel_left, hpiece, ← hhash]
    refine bytesAt_congr fun i _ hi => hinfo i (lt_of_lt_of_le hi (by decide))

end

/-! ## the files -/

/-- the bytes that are read of a file -/
def contents (file : Option (List UInt8)) : List UInt8 :=
  (file.getD []).take (getFileSize file).toNat

/-- a write of so many bytes stays in the buffer -/
def InBuffer (start size : Nat) : Prop := size = 0 ∨ start + size ≤ bufSize

instance (start size : Nat) : Decidable (InBuffer start size) :=
  inferInstanceAs (Decidable (_ ∨ _))

section
variable {file : Option (List UInt8)} {notOpened notRead notWritten : Stop} {start : Nat}
  {buf : Mem} {o : Output} {α β : Type} {l : List UInt8}

theorem place_eq (offs : Nat) : place buf offs l =
    if InBuffer offs l.length then .ok (blit buf offs l) else .error (.fault .outOfBounds) := by
  have hiff : (l = [] ∨ 0 ≤ (offs : Int) ∧ (offs : Int) + l.length ≤ bufSize) ↔
      InBuffer offs l.length := by
    rw [InBuffer, List.length_eq_zero_iff]
    refine or_congr Iff.rfl ?_
    omega
  rw [place, Int.toNat_natCast]
  exact if_congr hiff rfl rfl

theorem ok_bind (a : α) (f : α → Main β) : ((.ok a : Main α) >>= f) = f a := rfl

theorem error_bind (e : Stop) (f : α → Main β) : ((.error e : Main α) >>= f) = .error e := rfl

theorem getFileSize_none : getFileSize none < 0 := by decide

theorem getFileSize_some (l : List UInt8) :
    getFileSize (some l) = (l.length : Int).bmod (2 ^ 32) := rfl

theorem getFileSize_le (h : ¬ getFileSize (some l) < 0) : (getFileSize (some l)).toNat ≤ l.length := by
  rw [getFileSize_some, Int.bmod_def] at h ⊢
  split at h <;> omega

theorem length_contents (h : ¬ getFileSize file < 0) :
    (contents file).length = (getFileSize file).toNat := by
  cases file with
  | none => exact absurd getFileSize_none h
  | some l =>
    rw [contents, List.length_take, Option.getD_some]
    exact min_eq_left (getFileSize_le h)

/-- a file is read when it has a size and there is room for it -/
theorem loadFile_eq : loadFile notOpened notRead start file buf =
    if getFileSize file < 0 then .error (.ret (-1))
    else if InBuffer start (getFileSize file).toNat then
      .ok (blit buf start (contents file), (getFileSize file).toNat)
    else .error (.fault .outOfBounds) := by
  by_cases hneg : getFileSize file < 0
  · simp only [loadFile, if_pos hneg]
  have hlen := length_contents hneg
  simp only [loadFile, if_neg hneg]
  cases file with
  | none => exact absurd getFileSize_none hneg
  | some l =>
    rw [contents, Option.getD_some] at hlen
    rw [contents, Option.getD_some]
    generalize (getFileSize (some l)).toNat = n at hlen ⊢
    simp only [place_eq, hlen]
    by_cases hroom : InBuffer start n
    · rw [if_pos hroom, if_pos hroom, ok_bind, if_neg fun hne => hne rfl]
    · rw [if_neg hroom, if_neg hroom, error_bind]

/-- a program ends early with a code that is not 0 -/
def Returns (x : Main α) : Prop := ∃ code, code ≠ 0 ∧ x = .error (.ret code)

theorem returns_ret {code : Int} (h : code ≠ 0) : Returns (.error (.ret code) : Main α) :=
  ⟨code, h, rfl⟩

theorem not_returns_fault (f : Fault) : ¬ Returns (.error (.fault f) : Main α) := by
  intro ⟨code, _, h⟩
  cases h

theorem not_returns_ok (a : α) : ¬ Returns (.ok a : Main α) := by
  intro ⟨code, _, h⟩
  cases h

theorem returns_bind {x : Main α} {f : α → Main β} :
    Returns (x >>= f) ↔ Returns x ∨ ∃ a, x = .ok a ∧ Returns (f a) := by
  cases x with
  | ok a =>
    rw [ok_bind]
    exact ⟨fun h => .inr ⟨a, rfl, h⟩, fun h => h.elim (fun h => (not_returns_ok a h).elim)
      fun ⟨b, hb, h⟩ => by cases hb; exact h⟩
  | error e =>
    rw [error_bind]
    exact ⟨fun ⟨code, h, he⟩ => .inl ⟨code, h, congrArg _ (Except.error.inj he)⟩,
      fun h => h.elim (fun ⟨code, h, he⟩ => ⟨code, h, congrArg _ (Except.error.inj he)⟩)
        fun ⟨b, hb, _⟩ => nomatch hb⟩

/-! ## which files are rejected -/

theorem returns_loadFile {f : Mem × Nat → Main α} :
    Returns (loadFile notOpened notRead start file buf >>= f) ↔ getFileSize file < 0 ∨
      InBuffer start (getFileSize file).toNat ∧
        Returns (f (blit buf start (contents file), (getFileSize file).toNat)) := by
  rw [loadFile_eq]
  by_cases hneg : getFileSize file < 0
  · rw [if_pos hneg, error_bind]
    exact iff_of_true (returns_ret (by decide)) (.inl hneg)
  by_cases hroom : InBuffer start (getFileSize file).toNat
  · rw [if_neg hneg, if_pos hroom, ok_bind]
    exact ⟨fun h => .inr ⟨hroom, h⟩, fun h => h.elim (fun h => absurd h hneg) And.right⟩
  · rw [if_neg hneg, if_neg hroom, error_bind]
    exact iff_of_false (not_returns_fault _) fun h => h.elim hneg fun h => hroom h.1

theorem returns_readKey {key : Mem} {f : Mem → Main α} : Returns (readKey key file >>= f) ↔
    ∃ l, file = some l ∧ (l.length < sizeofEccKey ∨ sizeofEccKey ≤ l.length ∧
      Returns (f (blit key 0 (l.take sizeofEccKey)))) := by
  cases file with
  | none =>
    rw [readKey, error_bind]
    exact iff_of_false (not_returns_fault _) fun ⟨l, h, _⟩ => nomatch h
  | some l =>
    have htake : (l.take sizeofEccKey).length ≠ sizeofEccKey ↔ l.length < sizeofEccKey := by
      rw [List.length_take]
      omega
    rw [readKey]
    by_cases h : l.length < sizeofEccKey
    · rw [if_pos (htake.mpr h), error_bind]
      exact iff_of_true (returns_ret (by decide)) ⟨l, rfl, .inl h⟩
    · rw [if_neg (htake.not.mpr h), ok_bind]
      constructor
      · intro hret
        exact ⟨l, rfl, .inr ⟨Nat.not_lt.mp h, hret⟩⟩
      · intro ⟨l', hl, hret⟩
        cases hl
        exact hret.elim (fun hlt => absurd hlt h) And.right

theorem returns_place {offs : Int} {f : Mem → Main α} (hl : l ≠ []) :
    Returns (place buf offs l >>= f) ↔ (0 ≤ offs ∧ offs + l.length ≤ bufSize) ∧
      Returns (f (blit buf offs.toNat l)) := by
  rw [place]
  by_cases h : 0 ≤ offs ∧ offs + l.length ≤ bufSize
  · rw [if_pos (.inr h), ok_bind]
    exact (and_iff_right h).symm
  · rw [if_neg fun hor => hor.elim hl h, error_bind]
    exact iff_of_false (not_returns_fault _) fun hand => h hand.1

theorem returns_writeFile {f : Unit → Main α} : Returns (writeFile notWritten o >>= f) ↔
    o = .full ∧ Returns (.error notWritten : Main α) ∨ o = .good ∧ Returns (f ()) := by
  cases o with
  | closed => simp [writeFile, error_bind, not_returns_fault]
  | full => simp [writeFile, error_bind]
  | good => simp [writeFile, ok_bind]

end

/-- the description has its place in the buffer -/
def Config.MetadataInBuffer (cfg : Config) : Prop :=
  0 ≤ cfg.bl33MetadataAddress ∧ cfg.bl33MetadataAddress + sizeofFwInfo ≤ bufSize

/-- the tool ends early on BL33 or on its image -/
def RejectedNs (cfg : Config) (env : Env) : Prop :=
  getFileSize env.bl33 < 0 ∨ InBuffer 0 (getFileSize env.bl33).toNat ∧
    cfg.MetadataInBuffer ∧ env.mtowerNs = .full

/-- something ends the tool with a code before anything is written out of bounds, and before a
failure that it does not survive -/
def Rejected (cfg : Config) (env : Env) : Prop :=
  env.malloc = true ∧ (getFileSize env.bl2 < 0 ∨ InBuffer 0 (getFileSize env.bl2).toNat ∧
    (getFileSize env.bl32 < 0 ∨
      InBuffer cfg.startAddressBL32 (getFileSize env.bl32).toNat ∧
      ∃ l, env.ecdsaKeys = some l ∧ (l.length < sizeofEccKey ∨ sizeofEccKey ≤ l.length ∧
        env.mtowerS = .good ∧ RejectedNs cfg env)))

section
variable {cfg : Config} {lib : OpenSsl} {env : Env} {fw key : Mem}

theorem info_ne_nil : bytesAt fw 0 sizeofFwInfo ≠ [] := by
  intro h
  have hlen := length_bytesAt fw 0 sizeofFwInfo
  rw [h] at hlen
  exact absurd hlen (by decide)

theorem returns_nonsecureImage :
    Returns (nonsecureImage cfg lib fw key env) ↔ RejectedNs cfg env := by
  rw [nonsecureImage, returns_loadFile]
  dsimp only
  rw [returns_place info_ne_nil, returns_writeFile, length_bytesAt]
  simp [RejectedNs, Config.MetadataInBuffer, returns_ret, not_returns_ok, pure, Except.pure]

theorem returns_secureImage {α : Type} {p : Prop} {f : List UInt8 × Mem × Mem → Main α}
    (hf : ∀ a, Returns (f a) ↔ p) : Returns (secureImage cfg lib fw key env >>= f) ↔
      getFileSize env.bl2 < 0 ∨ InBuffer 0 (getFileSize env.bl2).toNat ∧
        (getFileSize env.bl32 < 0 ∨
          InBuffer cfg.startAddressBL32 (getFileSize env.bl32).toNat ∧
          ∃ l, env.ecdsaKeys = some l ∧ (l.length < sizeofEccKey ∨ sizeofEccKey ≤ l.length ∧
            env.mtowerS = .good ∧ p)) := by
  have hinfo : 0 ≤ (fwInfoAddress : Int) ∧ (fwInfoAddress : Int) + sizeofFwInfo ≤ bufSize := by
    decide
  unfold secureImage
  simp only [bind_assoc, pure_bind]
  rw [returns_loadFile]
  dsimp only
  rw [returns_loadFile]
  dsimp only
  rw [returns_readKey]
  simp only [returns_place info_ne_nil, returns_writeFile, length_bytesAt, hf, hinfo,
    not_returns_fault, true_and, and_false, false_or]

/-- **The tool ends with a code that is not 0** for these files. -/
theorem returns_main (cfg : Config) (lib : OpenSsl) (dateCompile : Nat) (fw key : Mem)
    (env : Env) : Returns (main cfg lib dateCompile fw key env) ↔ Rejected cfg env := by
  have hns : ∀ a : List UInt8 × Mem × Mem, Returns (nonsecureImage cfg lib a.2.1 a.2.2 env >>=
      fun mtowerNs => pure (a.1, mtowerNs)) ↔ RejectedNs cfg env := by
    intro a
    rw [returns_bind, returns_nonsecureImage]
    exact or_iff_left fun ⟨_, _, h⟩ => not_returns_ok _ h
  unfold main
  cases hmalloc : env.malloc with
  | false =>
    refine iff_of_false (not_returns_fault .nullPointer) fun h => ?_
    exact Bool.false_ne_true (hmalloc.symm.trans h.1)
  | true =>
    rw [if_neg (by decide)]
    refine (returns_secureImage hns).trans ?_
    rw [Rejected, hmalloc]
    exact (and_iff_right rfl).symm

end

/-! ## files with room -/

section
variable {cfg : Config} {lib : OpenSsl} {env : Env} {fw key buf : Mem} {r s : Range} {n start : Nat}
  {file : Option (List UInt8)}

theorem apart_iff : Apart r s ↔ r.len = 0 ∨ s.len = 0 ∨ r.Disjoint s := by
  unfold Apart Range.Disjoint Range.stop Range.Has
  constructor
  · intro h
    have h1 := h r.start
    have h2 := h s.start
    omega
  · intro h a
    omega

theorem fits_iff : Fits cfg env ↔ fileLen env.bl2 ≤ fwInfoAddress ∧
    (fileLen env.bl32 = 0 ∨ fileLen env.bl2 ≤ cfg.startAddressBL32 ∧
      cfg.startAddressBL32 + fileLen env.bl32 ≤ fwInfoAddress) ∧
    cfg.MetadataInBuffer ∧ fileLen env.bl33 ≤ cfg.bl33MetadataAddress.toNat := by
  have hwithin : ∀ size (r : Range), (∀ a, r.Has a → a < size) ↔ r.len = 0 ∨ r.stop ≤ size := by
    intro size r
    unfold Range.Has Range.stop
    constructor
    · intro h
      have hlast := h (r.start + r.len - 1)
      omega
    · intro h a ha
      omega
  simp only [Fits, LaidOut, hwithin, apart_iff, List.pairwise_cons, List.forall_mem_cons,
    List.not_mem_nil, false_imp_iff, implies_true, List.Pairwise.nil, and_true,
    Config.MetadataInBuffer, Range.Disjoint, Range.stop, fwInfoAddress, sizeofFwInfo]
  omega

/-- what is recorded before the structure is signed stays -/
theorem signPFwInfo_described (lib : OpenSsl) (fw key : Mem) (hn : n < 2 ^ 32) :
    Mem.load32 (signPFwInfo lib (Mem.store32 fw fwInfoRegionSize n) key).1 fwInfoRegionStart =
      fw.load32 fwInfoRegionStart ∧
    Mem.load32 (signPFwInfo lib (Mem.store32 fw fwInfoRegionSize n) key).1 fwInfoRegionSize = n ∧
    bytesAt (signPFwInfo lib (Mem.store32 fw fwInfoRegionSize n) key).1 fwInfoHash 32 =
      bytesAt fw fwInfoHash 32 := by
  have hword : ∀ p, fwInfoAuthCFGs ≤ p → p + 4 ≤ fwInfoR →
      Mem.load32 (signPFwInfo lib (Mem.store32 fw fwInfoRegionSize n) key).1 p =
        (Mem.store32 fw fwInfoRegionSize n).load32 p := by
    intro p h1 h2
    refine Mem.load32_congr fun a ha => signPFwInfo_frame (le_trans h1 ha.1) ?_
    exact lt_of_lt_of_le ha.2 h2
  refine ⟨?_, ?_, ?_⟩
  · rw [hword _ (by decide) (by decide)]
    exact Mem.load32_store32_of_disjoint fw (.inr (by decide))
  · rw [hword _ (by decide) (by decide), Mem.load32_store32 _ _ hn]
  · refine bytesAt_congr fun i h1 h2 => ?_
    rw [signPFwInfo_frame (le_trans (by decide) h1) (lt_of_lt_of_le h2 (by decide))]
    refine Mem.store32_out _ fun hi => ?_
    exact absurd (lt_of_le_of_lt h1 hi.2) (by decide)

theorem bytesAt_hash (lib : OpenSsl) (fw buf : Mem) (start size : Nat) :
    bytesAt (blit fw fwInfoHash (lib.sha256 (bytesAt buf start size))) fwInfoHash 32 =
      lib.sha256 (bytesAt buf start size) := by
  have hlen := lib.sha256_length (bytesAt buf start size)
  rw [bytesAt_blit hlen.le, hlen]
  exact List.append_nil _

theorem getFileSize_eq (h : fileLen file ≤ bufSize) (hneg : ¬ getFileSize file < 0) :
    (getFileSize file).toNat = fileLen file := by
  cases file with
  | none => exact absurd getFileSize_none hneg
  | some l =>
    have hsmall : l.length ≤ 1024 * 256 := h
    rw [getFileSize_some, fileLen, Int.bmod_eq_of_le (by omega) (by omega), Int.toNat_natCast]

/-! ### one step of the tool -/

variable {α : Type} {E : Stop → Prop} {Q : α → Prop} {notOpened notRead notWritten : Stop}
  {o : Output} {l : List UInt8}

theorem post_pure {a : α} (h : Q a) : post E Q (pure a : Main α) := h

theorem post_loadFile {f : Mem × Nat → Main α} (hroom : InBuffer start (fileLen file))
    (hE : E (.ret (-1)))
    (h : post E Q (f (blit buf start (contents file), fileLen file))) :
    post E Q (loadFile notOpened notRead start file buf >>= f) := by
  have hsmall : fileLen file ≤ bufSize := by
    unfold InBuffer at hroom
    omega
  rw [loadFile_eq]
  by_cases hneg : getFileSize file < 0
  · rw [if_pos hneg, error_bind]
    exact hE
  · rw [if_neg hneg, getFileSize_eq hsmall hneg, if_pos hroom, ok_bind]
    exact h

theorem post_readKey {f : Mem → Main α} (hE : E (.ret (-1))) (hnull : E (.fault .nullPointer))
    (h : ∀ key, post E Q (f key)) : post E Q (readKey key file >>= f) := by
  cases file with
  | none => exact hnull
  | some l =>
    rw [readKey]
    split_ifs
    · exact hE
    · exact h _

theorem post_place {offs : Int} {f : Mem → Main α} (hroom : 0 ≤ offs ∧ offs + l.length ≤ bufSize)
    (h : post E Q (f (blit buf offs.toNat l))) : post E Q (place buf offs l >>= f) := by
  rw [place, if_pos (.inr hroom), ok_bind]
  exact h

theorem post_writeFile {f : Unit → Main α} (hnull : E (.fault .nullPointer)) (hE : E notWritten)
    (h : post E Q (f ())) : post E Q (writeFile notWritten o >>= f) := by
  cases o with
  | closed => exact hnull
  | full => exact hE
  | good => exact h

/-! ### the images -/

theorem secureImage_post (hE : ∀ e, e ≠ .fault .outOfBounds → E e)
    (h2 : InBuffer 0 (fileLen env.bl2))
    (h32 : fileLen env.bl32 = 0 ∨ cfg.startAddressBL32 + fileLen env.bl32 ≤ fwInfoAddress)
    (hstart : fw.load32 fwInfoRegionStart = cfg.startAddressBL32) :
    post E (fun r => Verifies lib r.1 fwInfoAddress 0) (secureImage cfg lib fw key env) := by
  have hroom : InBuffer cfg.startAddressBL32 (fileLen env.bl32) :=
    h32.imp_right fun h => le_trans h (by decide)
  have hsmall : fileLen env.bl32 < 2 ^ 32 := by
    unfold fwInfoAddress at h32
    omega
  have hinfo : ∀ d, InBuffer fwInfoAddress (bytesAt d 0 sizeofFwInfo).length := by
    intro d
    rw [length_bytesAt]
    decide
  unfold secureImage
  refine post_loadFile h2 (hE _ (by decide)) ?_
  dsimp only
  refine post_loadFile hroom (hE _ (by decide)) ?_
  dsimp only
  refine post_readKey (hE _ (by decide)) (hE _ (by decide)) fun key => ?_
  rw [place_eq, if_pos (hinfo _), ok_bind]
  refine post_writeFile (hE _ (by decide)) (hE _ (by decide)) ?_
  obtain ⟨d1, d2, d3⟩ := signPFwInfo_described lib (blit fw fwInfoHash _) key hsmall
  have hkept : Mem.load32 (blit fw fwInfoHash (lib.sha256 (bytesAt
      (blit (blit (fun _ => 0) 0 (contents env.bl2)) cfg.startAddressBL32 (contents env.bl32))
        cfg.startAddressBL32 (fileLen env.bl32)))) fwInfoRegionStart = 0 + cfg.startAddressBL32 := by
    rw [Nat.zero_add, ← hstart]
    refine Mem.load32_congr fun a ha => blit_out (.inl ?_)
    exact lt_of_lt_of_le ha.2 (by decide)
  apply post_pure
  dsimp only
  exact verifies_image _ (d1.trans hkept) d2 (d3.trans (bytesAt_hash lib fw _ _ _)) h32

theorem nonsecureImage_post (hE : ∀ e, e ≠ .fault .outOfBounds → E e)
    (hmeta : cfg.MetadataInBuffer) (h33 : fileLen env.bl33 ≤ cfg.bl33MetadataAddress.toNat) :
    post E (fun image => Verifies lib image cfg.bl33MetadataAddress.toNat cfg.startAddressBL33)
      (nonsecureImage cfg lib fw key env) := by
  unfold Config.MetadataInBuffer at hmeta
  have hsmall : fileLen env.bl33 < 2 ^ 32 := by
    unfold bufSize at hmeta
    omega
  have hroom : InBuffer 0 (fileLen env.bl33) := by
    refine .inr ?_
    omega
  unfold nonsecureImage
  refine post_loadFile hroom (hE _ (by decide)) ?_
  dsimp only
  refine post_place (by rw [length_bytesAt]; exact hmeta) ?_
  refine post_writeFile (hE _ (by decide)) (hE _ (by decide)) ?_
  apply post_pure
  rw [show (cfg.bl33MetadataAddress + sizeofFwInfo).toNat =
    cfg.bl33MetadataAddress.toNat + sizeofFwInfo by omega]
  obtain ⟨d1, d2, d3⟩ := signPFwInfo_described lib _ key hsmall
  refine verifies_image 0 (d1.trans ?_) d2 (d3.trans ?_) (.inr (by omega))
  · exact Mem.load32_store32 _ _ (lt_trans cfg.bl33_lt (by decide))
  · refine Eq.trans (bytesAt_congr fun i h1 h2 => ?_) (bytesAt_hash lib fw _ 0 _)
    refine Mem.store32_out _ fun hi => ?_
    exact absurd (lt_of_le_of_lt h1 hi.2) (by decide)

theorem initFwInfo_start (dateCompile : Nat) :
    (initFwInfo cfg dateCompile fw).load32 fwInfoRegionStart = cfg.startAddressBL32 := by
  have hother : ∀ (d : Mem) (q w : Nat), fwInfoRegionSize ≤ q →
      (d.store32 q w).load32 fwInfoRegionStart = d.load32 fwInfoRegionStart := fun d q w h =>
    Mem.load32_store32_of_disjoint d (.inr h)
  unfold initFwInfo
  rw [hother _ _ _ (by decide), hother _ _ _ (by decide), hother _ _ _ (by decide),
    hother _ _ _ (by decide), hother _ _ _ (by decide)]
  exact Mem.load32_store32 _ _ (lt_trans cfg.bl32_lt (by decide))

theorem main_post (dateCompile : Nat) (h : Fits cfg env) :
    Packed cfg lib env (main cfg lib dateCompile fw key env) := by
  have hE : ∀ e : Stop, e ≠ .fault .outOfBounds → e ≠ .fault .outOfBounds ∧
      (¬ Fits cfg env → ∃ code, code ≠ 0 ∧ e = .ret code) := fun e he => ⟨he, absurd h⟩
  obtain ⟨h2, h32, hmeta, h33⟩ := fits_iff.mp h
  have hroom : InBuffer 0 (fileLen env.bl2) := by
    refine .inr ?_
    rw [Nat.zero_add]
    exact le_trans h2 (by decide)
  unfold main
  split_ifs
  · exact hE _ (by decide)
  · refine post_bind (secureImage_post hE hroom (h32.imp_right And.right)
      (initFwInfo_start dateCompile)) fun r hr => ?_
    refine post_bind (nonsecureImage_post hE hmeta h33) fun image himage => ?_
    exact post_pure ⟨h, hr, himage⟩

theorem packed_or (cfg : Config) (lib : OpenSsl) (dateCompile : Nat) (fw key : Mem) (env : Env) :
    Packed cfg lib env (main cfg lib dateCompile fw key env) ↔ Fits cfg env ∨ Rejected cfg env := by
  by_cases h : Fits cfg env
  · exact iff_of_true (main_post dateCompile h) (.inl h)
  rw [or_iff_right h, ← returns_main cfg lib dateCompile fw key env, Packed]
  cases main cfg lib dateCompile fw key env with
  | ok images => exact iff_of_false (fun hp => h hp.1) (not_returns_ok _)
  | error e =>
    constructor
    · intro hp
      obtain ⟨code, hcode, he⟩ := hp.2 h
      exact ⟨code, hcode, congrArg _ he⟩
    · intro ⟨code, hcode, he⟩
      cases he
      exact ⟨by simp, fun _ => ⟨code, hcode, rfl⟩⟩

/-- **The tool does what it is for** when the files have their places in the images, or when it
rejects one of them in time. -/
theorem packed_iff (cfg : Config) (lib : OpenSsl) (dateCompile : Nat) (fw key : Mem) (env : Env) :
    Packed cfg lib env (main cfg lib dateCompile fw key env) ↔
      (fileLen env.bl2 ≤ fwInfoAddress ∧
        (fileLen env.bl32 = 0 ∨ fileLen env.bl2 ≤ cfg.startAddressBL32 ∧
          cfg.startAddressBL32 + fileLen env.bl32 ≤ fwInfoAddress) ∧
        cfg.MetadataInBuffer ∧ fileLen env.bl33 ≤ cfg.bl33MetadataAddress.toNat) ∨
      Rejected cfg env := by
  rw [packed_or, fits_iff]

end

/-- the addresses of a board of the repository -/
def boardConfig : Config where
  startAddressBL32 := 0x8000
  startAddressBL33 := 0x10040000
  bl32_lt := by decide
  bl33_lt := by decide

/-- BL2 is one byte too long; everything else is there -/
def grownBl2 : Env where
  malloc := true
  bl2 := some (List.replicate 0x8001 0)
  bl32 := some [1]
  mtowerS := .good
  ecdsaKeys := some (List.replicate 96 0)
  bl33 := some [1]
  mtowerNs := .good

theorem not_rejected_grown (lib : OpenSsl) : ¬ Packed boardConfig lib grownBl2
    (main boardConfig lib 0 (fun _ => 0) (fun _ => 0) grownBl2) := by
  have hlen : fileLen grownBl2.bl2 = 0x8001 := List.length_replicate
  have hbl2 : ¬ getFileSize grownBl2.bl2 < 0 := by
    rw [grownBl2, getFileSize_some, List.length_replicate]
    decide
  have hkey : ¬ (List.replicate 96 (0 : UInt8)).length < sizeofEccKey := by
    rw [List.length_replicate]
    decide
  rw [packed_or, fits_iff, hlen]
  rintro (⟨-, h32, -⟩ | ⟨-, h | ⟨-, h | ⟨-, l, hl, h | ⟨-, -, h | ⟨-, -, h⟩⟩⟩⟩⟩)
  · exact absurd h32 (by decide)
  · exact hbl2 h
  · exact absurd h (by decide)
  · cases hl
    exact hkey h
  · exact absurd h (by decide)
  · exact absurd h (by decide)

/-- a library that gives one signature for everything -/
def someLibrary : OpenSsl := fixedSign (r := 1) (s := 1) (by decide) (by decide)

/-- BL2 that has grown over the start of BL32 is packed all the same -/
theorem packed_grown : ¬ Packed boardConfig someLibrary grownBl2
    (main boardConfig someLibrary 0 (fun _ => 0) (fun _ => 0) grownBl2) :=
  not_rejected_grown someLibrary

end MTower.Tools
