import MTower.Lib.Window

/-!
# The transforms of the hash functions

The logical functions, the constants and the loops over one block of sixteen words.  The words that
the rounds use are generated in a table of sixteen, written down beforehand they are the message
schedule of the standard.

* `sha256Transform`, `sha512Transform`, `sha1Transform`   the loops;
* `Functions.compress`, `compress1`   the rounds over the message schedule;
* `transform_eq`, `sha1Transform_eq`  they agree.
-/

set_option linter.unusedVariables false

namespace MTower.Sha2

open Lib.Window

/-! ## the logical functions -/

section
variable {w : Nat}

def SHR (b : Nat) (x : BitVec w) : BitVec w := x >>> b

/-- rotate right, the words have `w` bits -/
def ROTR (b : Nat) (x : BitVec w) : BitVec w := (x >>> b) ||| (x <<< (w - b))

def ROTL32 (b : Nat) (x : BitVec 32) : BitVec 32 := (x <<< b) ||| (x >>> (32 - b))

def Ch (x y z : BitVec w) : BitVec w := (x &&& y) ^^^ (~~~x &&& z)

def Maj (x y z : BitVec w) : BitVec w := (x &&& y) ^^^ (x &&& z) ^^^ (y &&& z)

def Parity (x y z : BitVec w) : BitVec w := x ^^^ y ^^^ z

end

def ROTR32 (b : Nat) (x : BitVec 32) : BitVec 32 := ROTR b x

def ROTR64 (b : Nat) (x : BitVec 64) : BitVec 64 := ROTR b x

/-- the functions and the constants of one member of the family -/
structure Functions (w : Nat) where
  Sigma0 : BitVec w → BitVec w
  Sigma1 : BitVec w → BitVec w
  sigma0 : BitVec w → BitVec w
  sigma1 : BitVec w → BitVec w
  K : List (BitVec w)

def K256 : List (BitVec 32) := [
    0x428a2f98, 0x71374491, 0xb5c0fbcf, 0xe9b5dba5, 0x3956c25b, 0x59f111f1,
    0x923f82a4, 0xab1c5ed5, 0xd807aa98, 0x12835b01, 0x243185be, 0x550c7dc3,
    0x72be5d74, 0x80deb1fe, 0x9bdc06a7, 0xc19bf174, 0xe49b69c1, 0xefbe4786,
    0x0fc19dc6, 0x240ca1cc, 0x2de92c6f, 0x4a7484aa, 0x5cb0a9dc, 0x76f988da,
    0x983e5152, 0xa831c66d, 0xb00327c8, 0xbf597fc7, 0xc6e00bf3, 0xd5a79147,
    0x06ca6351, 0x14292967, 0x27b70a85, 0x2e1b2138, 0x4d2c6dfc, 0x53380d13,
    0x650a7354, 0x766a0abb, 0x81c2c92e, 0x92722c85, 0xa2bfe8a1, 0xa81a664b,
    0xc24b8b70, 0xc76c51a3, 0xd192e819, 0xd6990624, 0xf40e3585, 0x106aa070,
    0x19a4c116, 0x1e376c08, 0x2748774c, 0x34b0bcb5, 0x391c0cb3, 0x4ed8aa4a,
    0x5b9cca4f, 0x682e6ff3, 0x748f82ee, 0x78a5636f, 0x84c87814, 0x8cc70208,
    0x90befffa, 0xa4506ceb, 0xbef9a3f7, 0xc67178f2]

def K512 : List (BitVec 64) := [
    0x428a2f98d728ae22, 0x7137449123ef65cd, 0xb5c0fbcfec4d3b2f, 0xe9b5dba58189dbbc,
    0x3956c25bf348b538, 0x59f111f1b605d019, 0x923f82a4af194f9b, 0xab1c5ed5da6d8118,
    0xd807aa98a3030242, 0x12835b0145706fbe, 0x243185be4ee4b28c, 0x550c7dc3d5ffb4e2,
    0x72be5d74f27b896f, 0x80deb1fe3b1696b1, 0x9bdc06a725c71235, 0xc19bf174cf692694,
    0xe49b69c19ef14ad2, 0xefbe4786384f25e3, 0x0fc19dc68b8cd5b5, 0x240ca1cc77ac9c65,
    0x2de92c6f592b0275, 0x4a7484aa6ea6e483, 0x5cb0a9dcbd41fbd4, 0x76f988da831153b5,
    0x983e5152ee66dfab, 0xa831c66d2db43210, 0xb00327c898fb213f, 0xbf597fc7beef0ee4,
    0xc6e00bf33da88fc2, 0xd5a79147930aa725, 0x06ca6351e003826f, 0x142929670a0e6e70,
    0x27b70a8546d22ffc, 0x2e1b21385c26c926, 0x4d2c6dfc5ac42aed, 0x53380d139d95b3df,
    0x650a73548baf63de, 0x766a0abb3c77b2a8, 0x81c2c92e47edaee6, 0x92722c851482353b,
    0xa2bfe8a14cf10364, 0xa81a664bbc423001, 0xc24b8b70d0f89791, 0xc76c51a30654be30,
    0xd192e819d6ef5218, 0xd69906245565a910, 0xf40e35855771202a, 0x106aa07032bbd1b8,
    0x19a4c116b8d2d0c8, 0x1e376c085141ab53, 0x2748774cdf8eeb99, 0x34b0bcb5e19b48a8,
    0x391c0cb3c5c95a63, 0x4ed8aa4ae3418acb, 0x5b9cca4f7763e373, 0x682e6ff3d6b2b8a3,
    0x748f82ee5defb2fc, 0x78a5636f43172f60, 0x84c87814a1f0ab72, 0x8cc702081a6439ec,
    0x90befffa23631e28, 0xa4506cebde82bde9, 0xbef9a3f7b2c67915, 0xc67178f2e372532b,
    0xca273eceea26619c, 0xd186b8c721c0c207, 0xeada7dd6cde0eb1e, 0xf57d4f7fee6ed178,
    0x06f067aa72176fba, 0x0a637dc5a2c898a6, 0x113f9804bef90dae, 0x1b710b35131c471b,
    0x28db77f523047d84, 0x32caab7b40c72493, 0x3c9ebe0a15c9bebc, 0x431d67c49c100d4c,
    0x4cc5d4becb3e42b6, 0x597f299cfc657e2a, 0x5fcb6fab3ad6faec, 0x6c44198c4a475817]

def functions256 : Functions 32 where
  Sigma0 x := ROTR32 2 x ^^^ ROTR32 13 x ^^^ ROTR32 22 x
  Sigma1 x := ROTR32 6 x ^^^ ROTR32 11 x ^^^ ROTR32 25 x
  sigma0 x := ROTR32 7 x ^^^ ROTR32 18 x ^^^ SHR 3 x
  sigma1 x := ROTR32 17 x ^^^ ROTR32 19 x ^^^ SHR 10 x
  K := K256

def functions512 : Functions 64 where
  Sigma0 x := ROTR64 28 x ^^^ ROTR64 34 x ^^^ ROTR64 39 x
  Sigma1 x := ROTR64 14 x ^^^ ROTR64 18 x ^^^ ROTR64 41 x
  sigma0 x := ROTR64 1 x ^^^ ROTR64 8 x ^^^ SHR 7 x
  sigma1 x := ROTR64 19 x ^^^ ROTR64 61 x ^^^ SHR 6 x
  K := K512

def sha256InitialHashValue : List (BitVec 32) := [
    0x6a09e667, 0xbb67ae85, 0x3c6ef372, 0xa54ff53a,
    0x510e527f, 0x9b05688c, 0x1f83d9ab, 0x5be0cd19]

def sha512InitialHashValue : List (BitVec 64) := [
    0x6a09e667f3bcc908, 0xbb67ae8584caa73b, 0x3c6ef372fe94f82b, 0xa54ff53a5f1d36f1,
    0x510e527fade682d1, 0x9b05688c2b3e6c1f, 0x1f83d9abfb41bd6b, 0x5be0cd19137e2179]

def sha1InitialHashValue : List (BitVec 32) := [
    0x67452301, 0xefcdab89, 0x98badcfe, 0x10325476, 0xc3d2e1f0]

/-! ## SHA-256 and SHA-512 -/

section
variable {w : Nat} (p : Functions w)

structure Registers (w : Nat) where
  a : BitVec w
  b : BitVec w
  c : BitVec w
  d : BitVec w
  e : BitVec w
  f : BitVec w
  g : BitVec w
  h : BitVec w

def Registers.load (s : List (BitVec w)) : Registers w where
  a := s.getD 0 0
  b := s.getD 1 0
  c := s.getD 2 0
  d := s.getD 3 0
  e := s.getD 4 0
  f := s.getD 5 0
  g := s.getD 6 0
  h := s.getD 7 0

def Registers.toList (r : Registers w) : List (BitVec w) := [r.a, r.b, r.c, r.d, r.e, r.f, r.g, r.h]

/-- round `j`, with the word `x` of the message schedule -/
def round (r : Registers w) (j : Nat) (x : BitVec w) : Registers w :=
  let T1 := r.h + p.Sigma1 r.e + Ch r.e r.f r.g + p.K.getD j 0 + x
  let T2 := p.Sigma0 r.a + Maj r.a r.b r.c
  { a := T1 + T2, b := r.a, c := r.b, d := r.c, e := r.d + T1, f := r.e, g := r.f, h := r.g }

/-- the body of the loop over the words of the block -/
def takeWord (data : List (BitVec w)) (x : List (BitVec w) × Registers w) (j : Nat) :
    List (BitVec w) × Registers w :=
  (x.1.set j (data.getD j 0), round p x.2 j (data.getD j 0))

/-- the body of the loop that expands the block -/
def expand (x : List (BitVec w) × Registers w) (j : Nat) : List (BitVec w) × Registers w :=
  let s0 := p.sigma0 (x.1.getD ((j + 1) &&& 0x0f) 0)
  let s1 := p.sigma1 (x.1.getD ((j + 14) &&& 0x0f) 0)
  let v := x.1.getD (j &&& 0x0f) 0 + (s1 + x.1.getD ((j + 9) &&& 0x0f) 0 + s0)
  (x.1.set (j &&& 0x0f) v, round p x.2 j v)

/-- the table is not initialized: `junk` is what it holds, and does not matter (`transform_eq`) -/
def transform (junk : List (BitVec w)) (stateIn data : List (BitVec w)) : List (BitVec w) :=
  let x := (List.range 16).foldl (takeWord p data) (junk, Registers.load stateIn)
  let x := (List.range' 16 (p.K.length - 16)).foldl (expand p) x
  List.zipWith (· + ·) stateIn x.2.toList

/-- the word after the last sixteen words of the message schedule -/
def nextWord (l : List (BitVec w)) : BitVec w :=
  p.sigma1 (l.getD 14 0) + l.getD 9 0 + p.sigma0 (l.getD 1 0) + l.getD 0 0

/-- the message schedule of a block, a word for each round -/
def Functions.schedule (M : List (BitVec w)) : List (BitVec w) :=
  extend (nextWord p) (p.K.length - 16) M

/-- the rounds over the message schedule -/
def Functions.compress (H M : List (BitVec w)) : List (BitVec w) :=
  List.zipWith (· + ·) H
    ((p.schedule M).zipIdx.foldl (fun r v => round p r v.2 v.1) (Registers.load H)).toList

end

def sha256Transform (stateIn data : List (BitVec 32)) : List (BitVec 32) :=
  transform functions256 (List.replicate 16 0) stateIn data

def sha512Transform (stateIn data : List (BitVec 64)) : List (BitVec 64) :=
  transform functions512 (List.replicate 16 0) stateIn data

/-! ## SHA-1 -/

structure Registers1 where
  a : BitVec 32
  b : BitVec 32
  c : BitVec 32
  d : BitVec 32
  e : BitVec 32

def Registers1.load (s : List (BitVec 32)) : Registers1 where
  a := s.getD 0 0
  b := s.getD 1 0
  c := s.getD 2 0
  d := s.getD 3 0
  e := s.getD 4 0

def Registers1.toList (r : Registers1) : List (BitVec 32) := [r.a, r.b, r.c, r.d, r.e]

/-- the function and the constant of a round -/
structure Kind where
  f : BitVec 32 → BitVec 32 → BitVec 32 → BitVec 32
  K : BitVec 32

def K1_0_TO_19 : Kind := ⟨Ch, 0x5a827999⟩
def K1_20_TO_39 : Kind := ⟨Parity, 0x6ed9eba1⟩
def K1_40_TO_59 : Kind := ⟨Maj, 0x8f1bbcdc⟩
def K1_60_TO_79 : Kind := ⟨Parity, 0xca62c1d6⟩

def round1 (k : Kind) (r : Registers1) (x : BitVec 32) : Registers1 :=
  { a := ROTL32 5 r.a + k.f r.b r.c r.d + r.e + k.K + x, b := r.a, c := ROTL32 30 r.b, d := r.c,
    e := r.d }

def takeWord1 (data : List (BitVec 32)) (x : List (BitVec 32) × Registers1) (j : Nat) :
    List (BitVec 32) × Registers1 :=
  (x.1.set j (data.getD j 0), round1 K1_0_TO_19 x.2 (data.getD j 0))

def expand1 (k : Kind) (x : List (BitVec 32) × Registers1) (j : Nat) :
    List (BitVec 32) × Registers1 :=
  let T1 := x.1.getD ((j + 13) &&& 0x0f) 0 ^^^ x.1.getD ((j + 8) &&& 0x0f) 0 ^^^
    x.1.getD ((j + 2) &&& 0x0f) 0 ^^^ x.1.getD (j &&& 0x0f) 0
  (x.1.set (j &&& 0x0f) (ROTL32 1 T1), round1 k x.2 (ROTL32 1 T1))

def transform1 (junk stateIn data : List (BitVec 32)) : List (BitVec 32) :=
  let x := (List.range 16).foldl (takeWord1 data) (junk, Registers1.load stateIn)
  let x := (List.range' 16 4).foldl (expand1 K1_0_TO_19) x
  let x := (List.range' 20 20).foldl (expand1 K1_20_TO_39) x
  let x := (List.range' 40 20).foldl (expand1 K1_40_TO_59) x
  let x := (List.range' 60 20).foldl (expand1 K1_60_TO_79) x
  List.zipWith (· + ·) stateIn x.2.toList

def sha1Transform (stateIn data : List (BitVec 32)) : List (BitVec 32) :=
  transform1 (List.replicate 16 0) stateIn data

def nextWord1 (l : List (BitVec 32)) : BitVec 32 :=
  ROTL32 1 (l.getD 13 0 ^^^ l.getD 8 0 ^^^ l.getD 2 0 ^^^ l.getD 0 0)

/-- the rounds by twenties -/
def kind (t : Nat) : Kind :=
  if t < 20 then K1_0_TO_19 else if t < 40 then K1_20_TO_39 else if t < 60 then K1_40_TO_59
  else K1_60_TO_79

def compress1 (H M : List (BitVec 32)) : List (BitVec 32) :=
  List.zipWith (· + ·) H ((extend nextWord1 64 M).zipIdx.foldl
    (fun r v => round1 (kind v.2) r v.1) (Registers1.load H)).toList

/-! ## the loops and the message schedule -/

theorem and_fifteen (n : Nat) : n &&& 0x0f = n % 16 := Nat.and_two_pow_sub_one_eq_mod n 4

section
variable {w : Nat} {p : Functions w}

theorem expand_eq (x : List (BitVec w) × Registers w) (j : Nat) (hx : x.1.length = 16) :
    expand p x j = put (round p) 16 x j (nextWord p (x.1.rotate j)) := by
  have hget : ∀ i, i < 16 → (x.1.rotate j).getD i 0 = x.1.getD ((j + i) % 16) 0 := by
    intro i hi
    rw [getD_rotate (by omega), hx]
  have hget0 : (x.1.rotate j).getD 0 0 = x.1.getD (j % 16) 0 := hget 0 (by omega)
  have hword : x.1.getD (j % 16) 0 + (p.sigma1 (x.1.getD ((j + 14) % 16) 0) +
      x.1.getD ((j + 9) % 16) 0 + p.sigma0 (x.1.getD ((j + 1) % 16) 0)) =
        nextWord p (x.1.rotate j) := by
    rw [nextWord, hget 14 (by omega), hget 9 (by omega), hget 1 (by omega), hget0,
      BitVec.add_comm (x.1.getD (j % 16) 0)]
  simp only [expand, and_fifteen]
  rw [hword]
  rfl

/-- **The words are generated in a table of sixteen**, and are those of the message schedule. -/
theorem transform_eq {junk M : List (BitVec w)} (hjunk : junk.length = 16) (hM : M.length = 16)
    (H : List (BitVec w)) : transform p junk H M = p.compress H M := by
  have hfirst : ∀ (x : List (BitVec w) × Registers w) (j : Nat), j < 16 →
      takeWord p M x j = put (round p) 16 x j (M.getD j 0) := by
    intro x j hj
    rw [takeWord, put, Nat.mod_eq_of_lt hj]
  have h := fill_then_ring (F := nextWord p) (g := round p) (s := Registers.load H) hM (by omega)
    hfirst (fun x j hx _ => expand_eq x j hx) hjunk (p.K.length - 16)
  simp only [transform]
  rw [h]
  rfl

end

theorem expand1_eq {k : Kind} (x : List (BitVec 32) × Registers1) (j : Nat)
    (hx : x.1.length = 16) (hk : k = kind j) :
    expand1 k x j = put (fun r j v => round1 (kind j) r v) 16 x j (nextWord1 (x.1.rotate j)) := by
  have hget : ∀ i, i < 16 → (x.1.rotate j).getD i 0 = x.1.getD ((j + i) % 16) 0 := by
    intro i hi
    rw [getD_rotate (by omega), hx]
  have hget0 : (x.1.rotate j).getD 0 0 = x.1.getD (j % 16) 0 := hget 0 (by omega)
  simp only [expand1, and_fifteen, put, nextWord1]
  rw [hget 13 (by omega), hget 8 (by omega), hget 2 (by omega), hget0, hk]

/-- the rounds `a` to `a + n - 1`, of one kind -/
theorem foldl_expand1 {k : Kind} {a n : Nat} (hk : ∀ j, a ≤ j → j < a + n → k = kind j)
    (x : List (BitVec 32) × Registers1) :
    (List.range' a n).foldl (expand1 k) x =
      (List.range' a n).foldl (fun x j => expand1 (kind j) x j) x := by
  apply List.foldl_ext
  intro x j hj
  obtain ⟨i, hi, rfl⟩ := List.mem_range'.mp hj
  rw [← hk (a + 1 * i) (by omega) (by omega)]

theorem transform1_eq {junk M : List (BitVec 32)} (hjunk : junk.length = 16) (hM : M.length = 16)
    (H : List (BitVec 32)) : transform1 junk H M = compress1 H M := by
  have hfirst : ∀ (x : List (BitVec 32) × Registers1) (j : Nat), j < 16 →
      takeWord1 M x j = put (fun r j v => round1 (kind j) r v) 16 x j (M.getD j 0) := by
    intro x j hj
    have hkind : kind j = K1_0_TO_19 := if_pos (by omega)
    rw [takeWord1, put, Nat.mod_eq_of_lt hj, hkind]
  have hnext : ∀ (x : List (BitVec 32) × Registers1) (j : Nat), x.1.length = 16 → 16 ≤ j →
      (fun x j => expand1 (kind j) x j) x j =
        put (fun r j v => round1 (kind j) r v) 16 x j (nextWord1 (x.1.rotate j)) :=
    fun x j hx _ => expand1_eq x j hx rfl
  have h := fill_then_ring (s := Registers1.load H) hM (by omega) hfirst hnext hjunk 64
  have hloops : List.range' 16 64 =
      List.range' 16 4 ++ (List.range' 20 20 ++ (List.range' 40 20 ++ List.range' 60 20)) := rfl
  rw [hloops, List.foldl_append, List.foldl_append, List.foldl_append] at h
  simp only [transform1]
  rw [foldl_expand1 (a := 16) (k := K1_0_TO_19), foldl_expand1 (a := 20) (k := K1_20_TO_39),
    foldl_expand1 (a := 40) (k := K1_40_TO_59), foldl_expand1 (a := 60) (k := K1_60_TO_79), h]
  · rfl
  all_goals
    intro j h1 h2
    unfold kind
    grind

end MTower.Sha2
