import MTower.Lib.WordBytes
import MTower.Sha2.Transform

/-!
# Hash contexts

A message comes in pieces.  The context has the state behind the blocks that are complete, and a
buffer with the bytes behind them; the words of the buffer lie in memory with the low byte first and
are turned round before every transform.

* `Member`, `update`, `final`, `raw`   the functions, over what the members of the family differ in;
* `sha1`, `sha256`, `sha512`           the members.
-/

set_option linter.unusedVariables false

namespace MTower.Sha2

open Lib.Fields Lib.Iterated Lib.WordBytes

/-! ## byte order -/

def REVERSE32 (w : BitVec 32) : BitVec 32 :=
  let tmp := (w >>> 16) ||| (w <<< 16)
  ((tmp &&& 0xff00ff00) >>> 8) ||| ((tmp &&& 0x00ff00ff) <<< 8)

def REVERSE64 (w : BitVec 64) : BitVec 64 :=
  let tmp := (w >>> 32) ||| (w <<< 32)
  let tmp := ((tmp &&& 0xff00ff00ff00ff00) >>> 8) ||| ((tmp &&& 0x00ff00ff00ff00ff) <<< 8)
  ((tmp &&& 0xffff0000ffff0000) >>> 16) ||| ((tmp &&& 0x0000ffff0000ffff) <<< 16)

theorem turns_REVERSE32 : Turns REVERSE32 := by
  apply turns_of_bits
  intro x i j hi hj
  have hi : i < 4 := hi
  interval_cases i <;> interval_cases j <;> simp [REVERSE32]

theorem turns_REVERSE64 : Turns REVERSE64 := by
  apply turns_of_bits
  intro x i j hi hj
  have hi : i < 8 := hi
  interval_cases i <;> interval_cases j <;> simp [REVERSE64]

/-! ## the functions -/

/-- `C` is the type of the bit count -/
structure Context (w : Nat) (C : Type) where
  state : List (BitVec w)
  bitcount : C
  buffer : List (BitVec w)

/-- what a member of the family has of its own -/
structure Member (w : Nat) (C : Type) where
  initialHashValue : List (BitVec w)
  blockLength : Nat
  shortBlockLength : Nat
  reverse : BitVec w → BitVec w
  transform : List (BitVec w) → List (BitVec w) → List (BitVec w)
  zero : C
  addinc : C → Nat → C
  /-- the word of the bit count that the place in the buffer is computed from -/
  low : C → BitVec 64
  /-- the last two words of the last block -/
  hi : C → BitVec w
  lo : C → BitVec w

section
variable {w : Nat} {C : Type} (p : Member w C)

/-- `memcpy` of bytes into the buffer -/
def Context.copy (c : Context w C) (i : Nat) (d : List UInt8) : Context w C :=
  ⟨c.state, c.bitcount, poke c.buffer i d⟩

def Context.count (c : Context w C) (n : Nat) : Context w C :=
  ⟨c.state, p.addinc c.bitcount n, c.buffer⟩

/-- the first `n` words converted to or from host order -/
def hostOrder (n : Nat) (ws : List (BitVec w)) : List (BitVec w) :=
  (ws.take n).map p.reverse ++ ws.drop n

/-- the transform of a buffer that is full -/
def Context.process (c : Context w C) : Context w C :=
  let buffer := hostOrder p 16 c.buffer
  ⟨p.transform c.state buffer, c.bitcount, buffer⟩

def init : Context w C := ⟨p.initialHashValue, p.zero, List.replicate 16 0⟩

def usedspace (c : Context w C) : Nat := (p.low c.bitcount >>> 3).toNat % p.blockLength

/-- as many complete blocks as there are, in at most `n` turns -/
def completeBlocks : Nat → Context w C → List UInt8 → Context w C × List UInt8
  | 0, c, data => (c, data)
  | n + 1, c, data =>
    if p.blockLength ≤ data.length then
      completeBlocks n (((c.copy 0 (data.take p.blockLength)).process p).count p (p.blockLength <<< 3))
        (data.drop p.blockLength)
    else (c, data)

/-- left-overs are saved -/
def saveRest (c : Context w C) (data : List UInt8) : Context w C :=
  if 0 < data.length then (c.copy 0 data).count p (data.length <<< 3) else c

/-- the part of an update with an empty buffer -/
def updateBlocks (c : Context w C) (data : List UInt8) : Context w C :=
  let r := completeBlocks p data.length c data
  saveRest p r.1 r.2

def update (c : Context w C) (data : List UInt8) : Context w C :=
  if data.length = 0 then c
  else
    let usedspace := usedspace p c
    if 0 < usedspace then
      let freespace := p.blockLength - usedspace
      if freespace ≤ data.length then
        updateBlocks p (((c.copy usedspace (data.take freespace)).count p (freespace <<< 3)).process p)
          (data.drop freespace)
      else (c.copy usedspace data).count p (data.length <<< 3)
    else updateBlocks p c data

/-- the second-to-last transform, when the length does not fit behind the padding -/
def spill (c : Context w C) (usedspace : Nat) : Context w C × Nat :=
  if p.shortBlockLength < usedspace then
    ((c.copy usedspace (List.replicate (p.blockLength - usedspace) 0)).process p, 0)
  else (c, usedspace)

/-- zeros up to the bit count, and the last transform -/
def finish (c : Context w C) (usedspace : Nat) : Context w C :=
  let c := c.copy usedspace (List.replicate (p.shortBlockLength - usedspace) 0)
  let buffer := ((hostOrder p 14 c.buffer).set 14 (p.hi c.bitcount)).set 15 (p.lo c.bitcount)
  ⟨p.transform c.state buffer, c.bitcount, buffer⟩

/-- the padding, and the last transforms -/
def last (c : Context w C) : Context w C :=
  let used := usedspace p c
  let r := spill p (c.copy used [0x80]) (used + 1)
  finish p r.1 r.2

/-- `memzero` of the context -/
def wiped (c : Context w C) : Context w C :=
  ⟨List.replicate c.state.length 0, p.zero, List.replicate c.buffer.length 0⟩

/-- without a place for the digest the context is only wiped -/
def final (c : Context w C) (digest : Bool) : Context w C × Option (List UInt8) :=
  (wiped p c, if digest then some (lowBytes ((last p c).state.map p.reverse)) else none)

def raw (data : List UInt8) : Option (List UInt8) := (final p (update p (init p) data) true).2

end

/-! ## the members -/

def sha1BlockLength : Nat := 64
def sha256BlockLength : Nat := 64
def sha512BlockLength : Nat := 128
def sha1DigestLength : Nat := 20
def sha256DigestLength : Nat := 32
def sha512DigestLength : Nat := 64

/-- `ADDINC128`: the carry is seen by the sum being less than what was added -/
def addinc128 (w : BitVec 64 × BitVec 64) (n : Nat) : BitVec 64 × BitVec 64 :=
  let lo := w.1 + BitVec.ofNat 64 n
  (lo, if lo < BitVec.ofNat 64 n then w.2 + 1 else w.2)

/-- words of 32 bits, and a bit count of 64 -/
def member32 (initialHashValue : List (BitVec 32)) (blockLength : Nat)
    (transform : List (BitVec 32) → List (BitVec 32) → List (BitVec 32)) : Member 32 (BitVec 64) where
  initialHashValue := initialHashValue
  blockLength := blockLength
  shortBlockLength := blockLength - 8
  reverse := REVERSE32
  transform := transform
  zero := 0
  addinc c n := c + BitVec.ofNat 64 n
  low c := c
  hi c := (c >>> 32).setWidth 32
  lo c := (c &&& 0xffffffff).setWidth 32

def sha1 : Member 32 (BitVec 64) := member32 sha1InitialHashValue sha1BlockLength sha1Transform

def sha256 : Member 32 (BitVec 64) :=
  member32 sha256InitialHashValue sha256BlockLength sha256Transform

def sha512 : Member 64 (BitVec 64 × BitVec 64) where
  initialHashValue := sha512InitialHashValue
  blockLength := sha512BlockLength
  shortBlockLength := sha512BlockLength - 16
  reverse := REVERSE64
  transform := sha512Transform
  zero := (0, 0)
  addinc := addinc128
  low c := c.1
  hi c := c.2
  lo c := c.1

abbrev Sha1Context := Context 32 (BitVec 64)
abbrev Sha256Context := Context 32 (BitVec 64)
abbrev Sha512Context := Context 64 (BitVec 64 × BitVec 64)

def sha1Init : Sha1Context := init sha1
def sha1Update (c : Sha1Context) (data : List UInt8) : Sha1Context := update sha1 c data
def sha1Final (c : Sha1Context) (digest : Bool) : Sha1Context × Option (List UInt8) :=
  final sha1 c digest
def sha1Raw (data : List UInt8) : Option (List UInt8) := raw sha1 data

def sha256Init : Sha256Context := init sha256
def sha256Update (c : Sha256Context) (data : List UInt8) : Sha256Context := update sha256 c data
def sha256Final (c : Sha256Context) (digest : Bool) : Sha256Context × Option (List UInt8) :=
  final sha256 c digest
def sha256Raw (data : List UInt8) : Option (List UInt8) := raw sha256 data

def sha512Init : Sha512Context := init sha512
def sha512Update (c : Sha512Context) (data : List UInt8) : Sha512Context := update sha512 c data
def sha512Last (c : Sha512Context) : Sha512Context := last sha512 c
def sha512Final (c : Sha512Context) (digest : Bool) : Sha512Context × Option (List UInt8) :=
  final sha512 c digest
def sha512Raw (data : List UInt8) : Option (List UInt8) := raw sha512 data

end MTower.Sha2
