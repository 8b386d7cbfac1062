import MTower.Sha2.Contexts

/-!
# Digests of messages in pieces

* `Standard.hash`     the padded message, block by block;
* `Implements`        what a member of the family has to do with a standard, `implements_sha256` and
                      the others;
* `Holds`             what a context says of the message so far: `holds_init`, `holds_update`;
* `final_eq`          the digest is the one of the message;
* `sha_of_pieces`     however a message is cut.
-/

set_option linter.unusedVariables false

namespace MTower.Sha2

open Lib.Fields Lib.Iterated Lib.WordBytes

/-! ## the standard -/

/-- blocks of `block` bytes, the last one ends with the length of the message in bits -/
structure Standard (w : Nat) where
  initial : List (BitVec w)
  block : Nat
  lengthBytes : Nat
  compress : List (BitVec w) → List (BitVec w) → List (BitVec w)

namespace Standard

variable {w : Nat} (q : Standard w)

def step (H : List (BitVec w)) (d : List UInt8) : List (BitVec w) := q.compress H (highWords w 16 d)

/-- the state behind the complete blocks of `m` -/
def state (m : List UInt8) : List (BitVec w) := chain q.block q.step q.initial m

/-- what follows a message of `n` bytes -/
def padding (n : Nat) : List UInt8 :=
  0x80 :: (List.replicate (fill q.block (n + 1 + q.lengthBytes)) 0 ++ beBytes q.lengthBytes (8 * n))

def hash (m : List UInt8) : List UInt8 := highBytes (q.state (m ++ q.padding m.length))

end Standard

def fips1 : Standard 32 := ⟨sha1InitialHashValue, 64, 8, compress1⟩
def fips256 : Standard 32 := ⟨sha256InitialHashValue, 64, 8, functions256.compress⟩
def fips512 : Standard 64 := ⟨sha512InitialHashValue, 128, 16, functions512.compress⟩

/-! ## a member and its standard -/

section
variable {w : Nat} {C : Type}

/-- `value` is the number that a bit count stands for -/
structure Implements (p : Member w C) (q : Standard w) (value : C → Nat) : Prop where
  width : 8 * (w / 8) = w
  four : 4 ≤ w / 8
  block : p.blockLength = w / 8 * 16
  block_eq : q.block = p.blockLength
  short : p.shortBlockLength = w / 8 * 14
  lengthBytes : q.lengthBytes = w / 8 * 2
  divides : p.blockLength ∣ 2 ^ 61
  small : p.blockLength < 2 ^ 29
  turns : Turns p.reverse
  initial : p.initialHashValue = q.initial
  transform : ∀ H M, M.length = 16 → p.transform H M = q.compress H M
  zero : value p.zero = 0
  addinc : ∀ c n, n < 2 ^ 32 → value (p.addinc c n) = (value c + n) % 256 ^ q.lengthBytes
  low : ∀ c, (p.low c).toNat = value c % 2 ^ 64
  tail : ∀ c, [p.hi c, p.lo c] = highWords w 2 (beBytes q.lengthBytes (value c))

/-- the bytes of a number in two halves -/
theorem beBytes_add (k n v : Nat) : beBytes (k + n) v = beBytes k (v / 256 ^ n) ++ beBytes n v := by
  induction n generalizing v with
  | zero => rw [Nat.pow_zero, Nat.div_one, beBytes, List.append_nil, Nat.add_zero]
  | succ n ih =>
    rw [← Nat.add_assoc, beBytes, ih, Nat.div_div_eq_div_mul, beBytes, ← List.append_assoc,
      Nat.pow_succ, Nat.mul_comm]

theorem ofNat_mod (v : Nat) : BitVec.ofNat w (v % 2 ^ w) = BitVec.ofNat w v := by
  apply BitVec.eq_of_toNat_eq
  rw [BitVec.toNat_ofNat, BitVec.toNat_ofNat, Nat.mod_mod]

/-- the two words of a length -/
theorem highWords_two (h8 : 8 * (w / 8) = w) (v : Nat) :
    highWords w 2 (beBytes (w / 8 * 2) v) = [BitVec.ofNat w (v / 2 ^ w), BitVec.ofNat w v] := by
  have hlen := length_beBytes (w / 8)
  rw [Nat.mul_two, beBytes_add, pow_bytes h8]
  simp only [highWords, cut, List.map_cons, List.map_nil]
  rw [List.take_left' (hlen _), List.drop_left' (hlen _), List.take_of_length_le (Nat.le_of_eq (hlen _)),
    number_beBytes, number_beBytes, pow_bytes h8, ofNat_mod, ofNat_mod]

/-! ## what a context says of the message -/

variable {p : Member w C} {q : Standard w} {value : C → Nat}

/-- the message so far is `m` -/
structure Holds (q : Standard w) (value : C → Nat) (c : Context w C) (m : List UInt8) : Prop where
  state : c.state = q.state m
  count : value c.bitcount = 8 * m.length % 256 ^ q.lengthBytes
  words : c.buffer.length = 16
  rest : (lowBytes c.buffer).take (m.length % q.block) = rest q.block m

section
variable (hp : Implements p q value)
include hp

theorem Implements.block_pos : 0 < q.block := by
  have := hp.four
  rw [hp.block_eq, hp.block]
  omega

theorem length_buffer {c : Context w C} (hc : c.buffer.length = 16) :
    (lowBytes c.buffer).length = q.block := by
  rw [length_lowBytes, hc, hp.block_eq, hp.block]

theorem holds_init : Holds q value (init p) [] where
  state := by
    rw [Standard.state, chain_nil]
    exact hp.initial
  count := hp.zero
  words := List.length_replicate
  rest := by
    rw [rest_of_lt (by simpa using hp.block_pos)]
    rfl

/-- the place in the buffer -/
theorem usedspace_eq {c : Context w C} {m : List UInt8} (h : Holds q value c m) :
    usedspace p c = m.length % q.block := by
  have hdvd : 2 ^ 64 ∣ 256 ^ q.lengthBytes := by
    have hle : 8 ≤ q.lengthBytes := by
      have := hp.four
      rw [hp.lengthBytes]
      omega
    exact Nat.pow_dvd_pow 256 hle
  have hlow : (p.low c.bitcount).toNat = 8 * m.length % 2 ^ 64 := by
    rw [hp.low, h.count, Nat.mod_mod_of_dvd _ hdvd]
  have hshift : 8 * m.length % 2 ^ 64 / 2 ^ 3 = m.length % 2 ^ 61 := by omega
  rw [usedspace, BitVec.toNat_ushiftRight, hlow, Nat.shiftRight_eq_div_pow, hshift, hp.block_eq,
    Nat.mod_mod_of_dvd _ hp.divides]

/-- at most a block is counted -/
theorem count_eq {c : Context w C} {m d : List UInt8} (h : Holds q value c m)
    (hd : d.length ≤ q.block) :
    value (p.addinc c.bitcount (d.length <<< 3)) = 8 * (m ++ d).length % 256 ^ q.lengthBytes := by
  have hsmall := hp.small
  have hshift : d.length <<< 3 = 8 * d.length := by rw [Nat.shiftLeft_eq, Nat.mul_comm]
  rw [hp.block_eq] at hd
  rw [hshift, hp.addinc _ _ (by omega), h.count, Nat.mod_add_mod, List.length_append, Nat.mul_add]

/-- bytes behind those in the buffer -/
theorem holds_copy {c : Context w C} {m d : List UInt8} (h : Holds q value c m)
    (hd : m.length % q.block + d.length < q.block) :
    Holds q value ((c.copy (m.length % q.block) d).count p (d.length <<< 3)) (m ++ d) := by
  have hlen : (rest q.block m ++ d).length < q.block := by
    rw [List.length_append, length_rest]
    exact hd
  have hmod : (m ++ d).length % q.block = m.length % q.block + d.length := by
    rw [List.length_append, Nat.add_mod, Nat.mod_eq_of_lt (show d.length < q.block by omega),
      Nat.mod_eq_of_lt hd]
  have hbuf := length_buffer hp h.words
  have hin : m.length % q.block + d.length ≤ w / 8 * c.buffer.length := by
    rw [← length_lowBytes, hbuf]
    omega
  refine ⟨?_, ?_, ?_, ?_⟩
  · rw [Standard.state, chain_append hp.block_pos, chain_of_lt hlen]
    exact h.state
  · have hcount := count_eq hp h (show d.length ≤ q.block by omega)
    exact hcount
  · exact (length_poke _ _ _).trans h.words
  · show (lowBytes (poke c.buffer _ d)).take _ = _
    rw [hmod, lowBytes_poke hp.width hin, take_splice (by omega), h.rest, rest_append hp.block_pos,
      rest_of_lt hlen]

/-- the transform of a buffer that is full -/
theorem process_state {c : Context w C} (hc : c.buffer.length = 16) :
    (c.process p).state = q.step c.state (lowBytes c.buffer) := by
  have hbytes : w / 8 * 16 ≤ (lowBytes c.buffer).length := by rw [length_lowBytes, hc]
  have hwords : hostOrder p 16 c.buffer = highWords w 16 (lowBytes c.buffer) := by
    rw [hostOrder, List.take_of_length_le (Nat.le_of_eq hc), List.drop_eq_nil_of_le (Nat.le_of_eq hc),
      List.append_nil, ← map_lowWords hp.width hp.turns hbytes, lowWords_lowBytes hp.width hc]
  show p.transform c.state (hostOrder p 16 c.buffer) = _
  rw [hwords, hp.transform _ _ (length_highWords _ _ _)]
  rfl

omit hp in
theorem process_words {c : Context w C} (hc : c.buffer.length = 16) :
    (c.process p).buffer.length = 16 := by
  show (hostOrder p 16 c.buffer).length = 16
  rw [hostOrder, List.length_append, List.length_map, ← List.length_append, List.take_append_drop, hc]

/-- bytes that complete a block -/
theorem holds_process {c : Context w C} {m d : List UInt8} (h : Holds q value c m)
    (hd : m.length % q.block + d.length = q.block) :
    Holds q value (((c.copy (m.length % q.block) d).count p (d.length <<< 3)).process p) (m ++ d) := by
  have hlen : (rest q.block m ++ d).length = q.block := by
    rw [List.length_append, length_rest, hd]
  have hmod : (m ++ d).length % q.block = 0 := by
    have hsplit : m.length + d.length = q.block * (m.length / q.block + 1) := by
      have := Nat.div_add_mod m.length q.block
      rw [Nat.mul_succ]
      omega
    rw [List.length_append, hsplit, Nat.mul_mod_right]
  have hbuf := length_buffer hp h.words
  have hin : m.length % q.block + d.length ≤ w / 8 * c.buffer.length := by
    rw [← length_lowBytes, hbuf, hd]
  have hbytes : lowBytes (poke c.buffer (m.length % q.block) d) = rest q.block m ++ d := by
    rw [lowBytes_poke hp.width hin, splice_to_end (by rw [hd, hbuf]), h.rest]
  have hwords : (poke c.buffer (m.length % q.block) d).length = 16 := (length_poke _ _ _).trans h.words
  refine ⟨?_, ?_, process_words hwords, ?_⟩
  · rw [process_state hp hwords, Standard.state, chain_append hp.block_pos,
      chain_one hp.block_pos hlen]
    show q.step c.state (lowBytes (poke c.buffer _ d)) = _
    rw [hbytes, h.state]
    rfl
  · have hcount := count_eq hp h (show d.length ≤ q.block by omega)
    exact hcount
  · rw [hmod, List.take_zero]
    refine (List.eq_nil_of_length_eq_zero ?_).symm
    rw [length_rest, hmod]

/-- the complete blocks of a piece -/
theorem holds_completeBlocks {n : Nat} {c : Context w C} {m data : List UInt8}
    (h : Holds q value c m) (hm : m.length % q.block = 0) (hn : data.length ≤ n) :
    ∃ d, data = d ++ (completeBlocks p n c data).2 ∧
      Holds q value (completeBlocks p n c data).1 (m ++ d) ∧ (m ++ d).length % q.block = 0 ∧
      (completeBlocks p n c data).2.length < q.block := by
  have hpos := hp.block_pos
  induction n generalizing c m data with
  | zero =>
    refine ⟨[], rfl, ?_, ?_, ?_⟩
    · rwa [List.append_nil]
    · rwa [List.append_nil]
    · show data.length < q.block
      omega
  | succ n ih =>
    rw [completeBlocks, ← hp.block_eq]
    by_cases hlt : q.block ≤ data.length
    · have htake : (data.take q.block).length = q.block := by
        rw [List.length_take]
        omega
      have hdrop : (data.drop q.block).length ≤ n := by
        rw [List.length_drop]
        omega
      have hstep := holds_process hp h (d := data.take q.block) (by omega)
      rw [hm, htake] at hstep
      have hmod : (m ++ data.take q.block).length % q.block = 0 := by
        rw [List.length_append, htake, Nat.add_mod_right, hm]
      obtain ⟨d, hd, hholds, hzero, hrest⟩ := ih hstep hmod hdrop
      rw [if_pos hlt]
      refine ⟨data.take q.block ++ d, ?_, ?_, ?_, hrest⟩
      · conv => lhs; rw [← List.take_append_drop q.block data, hd]
        rw [List.append_assoc]
        rfl
      · rw [← List.append_assoc]
        exact hholds
      · rw [← List.append_assoc]
        exact hzero
    · rw [if_neg hlt]
      refine ⟨[], rfl, ?_, ?_, Nat.lt_of_not_le hlt⟩
      · rwa [List.append_nil]
      · rwa [List.append_nil]

/-- a piece behind complete blocks -/
theorem holds_updateBlocks {c : Context w C} {m : List UInt8} (h : Holds q value c m)
    (hm : m.length % q.block = 0) (data : List UInt8) :
    Holds q value (updateBlocks p c data) (m ++ data) := by
  obtain ⟨d, hd, hholds, hzero, hrest⟩ := holds_completeBlocks hp h hm (Nat.le_refl data.length)
  rw [updateBlocks, saveRest]
  generalize completeBlocks p data.length c data = r at *
  rw [hd]
  by_cases hr : 0 < r.2.length
  · have hcopy := holds_copy hp hholds (d := r.2) (by omega)
    rw [hzero, List.append_assoc] at hcopy
    rw [if_pos hr]
    exact hcopy
  · have hnil : r.2 = [] := List.length_eq_zero_iff.mp (by omega)
    rw [if_neg hr, hnil, List.append_nil]
    exact hholds

/-- **One more piece.** -/
theorem holds_update {c : Context w C} {m : List UInt8} (h : Holds q value c m)
    (data : List UInt8) : Holds q value (update p c data) (m ++ data) := by
  have hlt := Nat.mod_lt m.length hp.block_pos
  rw [update, usedspace_eq hp h, ← hp.block_eq]
  by_cases h0 : data.length = 0
  · rw [if_pos h0, List.length_eq_zero_iff.mp h0, List.append_nil]
    exact h
  · rw [if_neg h0]
    by_cases hused : 0 < m.length % q.block
    · rw [if_pos hused]
      by_cases hfree : q.block - m.length % q.block ≤ data.length
      · -- the buffer is filled and the rest of the piece starts with an empty one
        have htake : (data.take (q.block - m.length % q.block)).length =
            q.block - m.length % q.block := by
          rw [List.length_take]
          omega
        have hfull := holds_process hp h (d := data.take (q.block - m.length % q.block)) (by omega)
        rw [htake] at hfull
        have hmod : (m ++ data.take (q.block - m.length % q.block)).length % q.block = 0 := by
          have hsplit : m.length + (q.block - m.length % q.block) =
              q.block * (m.length / q.block + 1) := by
            have := Nat.div_add_mod m.length q.block
            rw [Nat.mul_succ]
            omega
          rw [List.length_append, htake, hsplit, Nat.mul_mod_right]
        have hblocks := holds_updateBlocks hp hfull hmod (data.drop (q.block - m.length % q.block))
        rw [List.append_assoc, List.take_append_drop] at hblocks
        rw [if_pos hfree]
        exact hblocks
      · rw [if_neg hfree]
        exact holds_copy hp h (by omega)
    · rw [if_neg hused]
      exact holds_updateBlocks hp h (by omega) data

theorem holds_pieces {c : Context w C} {m : List UInt8} (h : Holds q value c m)
    (pieces : List (List UInt8)) : Holds q value (pieces.foldl (update p) c) (m ++ pieces.flatten) := by
  induction pieces generalizing c m with
  | nil => rwa [List.flatten_nil, List.append_nil]
  | cons d pieces ih =>
    rw [List.foldl_cons, List.flatten_cons, ← List.append_assoc]
    exact ih (holds_update hp h d)

/-! ## the end of a message -/

/-- the length behind the padding, and the last transform -/
theorem last_block {c : Context w C} {x : List UInt8} (hc : c.buffer.length = 16)
    (hx : (lowBytes c.buffer).take p.shortBlockLength = x) (s : List (BitVec w)) :
    p.transform s (((hostOrder p 14 c.buffer).set 14 (p.hi c.bitcount)).set 15 (p.lo c.bitcount)) =
      q.step s (x ++ beBytes q.lengthBytes (value c.bitcount)) := by
  have hlen : (c.buffer.take 14).length = 14 := by
    rw [List.length_take]
    omega
  have hlow : lowBytes (c.buffer.take 14) = x := by
    have hsplit : lowBytes c.buffer = lowBytes (c.buffer.take 14) ++ lowBytes (c.buffer.drop 14) := by
      conv => lhs; rw [← List.take_append_drop 14 c.buffer]
      exact List.flatMap_append
    have hfirst : (lowBytes (c.buffer.take 14)).length = p.shortBlockLength := by
      rw [length_lowBytes, hlen, hp.short]
    rw [← hx, hsplit, List.take_left' hfirst]
  have hxlen : x.length = w / 8 * 14 := by rw [← hlow, length_lowBytes, hlen]
  have hfirst : (c.buffer.take 14).map p.reverse = highWords w 14 x := by
    have hmap := map_lowWords (n := 14) hp.width hp.turns (Nat.le_of_eq hxlen.symm)
    rw [← hmap, ← hlow, lowWords_lowBytes hp.width hlen]
  obtain ⟨a, b, hab⟩ : ∃ a b, c.buffer.drop 14 = [a, b] := by
    apply List.length_eq_two.mp
    rw [List.length_drop]
    omega
  have hwords : ((hostOrder p 14 c.buffer).set 14 (p.hi c.bitcount)).set 15 (p.lo c.bitcount) =
      highWords w 16 (x ++ beBytes q.lengthBytes (value c.bitcount)) := by
    have hmap : ((c.buffer.take 14).map p.reverse).length = 14 := by rw [List.length_map, hlen]
    rw [highWords_append (n := 14) hxlen 2, ← hp.tail, ← hfirst, hostOrder, hab,
      List.set_append_right _ _ (by omega), List.set_append_right _ _ (by omega), hmap]
    rfl
  rw [hwords, hp.transform _ _ (length_highWords _ _ _)]
  rfl

/-- bytes written into the buffer, and what stands in front of them -/
theorem take_copy {c : Context w C} {i : Nat} {d : List UInt8} (hc : c.buffer.length = 16)
    (hd : i + d.length ≤ q.block) :
    (lowBytes (c.copy i d).buffer).take (i + d.length) = (lowBytes c.buffer).take i ++ d := by
  have hbuf := length_buffer hp hc
  rw [Context.copy, lowBytes_poke hp.width (by rwa [← length_lowBytes, hbuf]), take_splice (by omega)]

/-- zeros up to the length, and the last transform -/
theorem finish_state {c : Context w C} {i : Nat} {x : List UInt8} (hc : c.buffer.length = 16)
    (hi : i ≤ p.shortBlockLength) (hx : (lowBytes c.buffer).take i = x) :
    (finish p c i).state = q.step c.state (x ++ (List.replicate (p.shortBlockLength - i) 0 ++
      beBytes q.lengthBytes (value c.bitcount))) := by
  have hshort : p.shortBlockLength ≤ q.block := by
    rw [hp.block_eq, hp.block, hp.short]
    omega
  have htake := take_copy hp hc (i := i) (d := List.replicate (p.shortBlockLength - i) 0) (by
    rw [List.length_replicate]
    omega)
  rw [List.length_replicate, Nat.add_sub_cancel' hi, hx] at htake
  rw [← List.append_assoc]
  exact last_block hp ((length_poke _ _ _).trans hc) htake c.state

omit hp in
/-- how many zeros the padding has -/
theorem fill_padding {n u k : Nat} (hu : n % q.block = u) (hk : k < q.block)
    (h : u + 1 + q.lengthBytes + k = q.block ∨ u + 1 + q.lengthBytes + k = q.block * 2) :
    fill q.block (n + 1 + q.lengthBytes) = k := by
  apply fill_unique hk
  have hn := Nat.div_add_mod n q.block
  cases h with
  | inl h =>
    refine ⟨n / q.block + 1, ?_⟩
    rw [Nat.mul_succ]
    omega
  | inr h =>
    refine ⟨n / q.block + 2, ?_⟩
    rw [Nat.mul_add]
    omega

/-- the buffer filled up with zeros, and the transform before the last one -/
theorem spill_state {c : Context w C} {i : Nat} {x : List UInt8} (hc : c.buffer.length = 16)
    (hi : i ≤ q.block) (hx : (lowBytes c.buffer).take i = x) :
    ((c.copy i (List.replicate (q.block - i) 0)).process p).state =
      q.step c.state (x ++ List.replicate (q.block - i) 0) := by
  have h16 : (c.copy i (List.replicate (q.block - i) 0)).buffer.length = 16 :=
    (length_poke _ _ _).trans hc
  have htake := take_copy hp hc (i := i) (d := List.replicate (q.block - i) 0) (by
    rw [List.length_replicate]
    omega)
  rw [List.length_replicate, Nat.add_sub_cancel' hi, hx,
    List.take_of_length_le (Nat.le_of_eq (length_buffer hp h16))] at htake
  rw [process_state hp h16, htake]
  rfl

/-- **The last transforms**, with or without one more block for the length. -/
theorem last_state {c : Context w C} {m : List UInt8} (h : Holds q value c m) :
    (last p c).state = q.state (m ++ q.padding m.length) := by
  have hpos := hp.block_pos
  have hlt := Nat.mod_lt m.length hpos
  have hsum : p.shortBlockLength + q.lengthBytes = q.block := by
    have h1 := hp.block
    have h2 := hp.short
    have h3 := hp.lengthBytes
    have h4 := hp.block_eq
    omega
  have hbe : ∀ v, (beBytes q.lengthBytes v).length = q.lengthBytes := length_beBytes _
  have hcount : beBytes q.lengthBytes (value c.bitcount) = beBytes q.lengthBytes (8 * m.length) := by
    rw [h.count, beBytes_mod]
  have hrest := length_rest (b := q.block) m
  -- the buffer behind the first byte of the padding
  have hmark := take_copy hp h.words (i := m.length % q.block) (d := [0x80]) hlt
  rw [h.rest, List.length_singleton] at hmark
  have h16 : (c.copy (m.length % q.block) [0x80]).buffer.length = 16 :=
    (length_poke _ _ _).trans h.words
  have hstate : (c.copy (m.length % q.block) [0x80]).state = q.state m := h.state
  rw [last, usedspace_eq hp h, Standard.state, chain_append hpos, Standard.padding, spill]
  by_cases hspill : p.shortBlockLength < m.length % q.block + 1
  · have hfill : fill q.block (m.length + 1 + q.lengthBytes) =
        (q.block - (m.length % q.block + 1)) + p.shortBlockLength :=
      fill_padding rfl (by omega) (by omega)
    have hfirst := spill_state hp h16 hlt hmark
    have hprocess : ((c.copy (m.length % q.block) [0x80]).copy (m.length % q.block + 1)
        (List.replicate (q.block - (m.length % q.block + 1)) 0)).buffer.length = 16 :=
      (length_poke _ _ _).trans h16
    have hlast := finish_state hp (process_words (p := p) hprocess) (Nat.zero_le _) List.take_zero
    have hblock : (rest q.block m ++ [0x80] ++
        List.replicate (q.block - (m.length % q.block + 1)) 0).length = q.block := by
      rw [List.length_append, List.length_append, hrest, List.length_replicate,
        List.length_singleton]
      omega
    have hblock' : (List.replicate p.shortBlockLength 0 ++
        beBytes q.lengthBytes (8 * m.length)).length = q.block := by
      rw [List.length_append, List.length_replicate, hbe, hsum]
    have hbytes : rest q.block m ++ (0x80 :: (List.replicate
          (q.block - (m.length % q.block + 1) + p.shortBlockLength) 0 ++
          beBytes q.lengthBytes (8 * m.length))) =
        (rest q.block m ++ [0x80] ++ List.replicate (q.block - (m.length % q.block + 1)) 0) ++
          (List.replicate p.shortBlockLength 0 ++ beBytes q.lengthBytes (8 * m.length)) := by
      rw [List.replicate_add]
      simp only [List.append_assoc, List.cons_append, List.nil_append]
    rw [if_pos hspill, hfill, hbytes, chain_block hpos hblock, chain_one hpos hblock', ← hp.block_eq]
    rw [hfirst, Nat.sub_zero, List.nil_append, hstate] at hlast
    rw [hlast, ← hcount]
    rfl
  · have hfill : fill q.block (m.length + 1 + q.lengthBytes) =
        p.shortBlockLength - (m.length % q.block + 1) := fill_padding rfl (by omega) (by omega)
    have hlast := finish_state hp h16 (by omega) hmark
    have hblock : (rest q.block m ++ (0x80 :: (List.replicate
        (p.shortBlockLength - (m.length % q.block + 1)) 0 ++
          beBytes q.lengthBytes (8 * m.length)))).length = q.block := by
      rw [List.length_append, hrest, List.length_cons, List.length_append, List.length_replicate, hbe]
      omega
    rw [if_neg hspill, hfill, chain_one hpos hblock, hlast, hstate, ← hcount, List.append_assoc]
    rfl

/-- **The digest is the one of the message.** -/
theorem final_eq {c : Context w C} {m : List UInt8} (h : Holds q value c m) :
    (final p c true).2 = some (q.hash m) := by
  show some (lowBytes ((last p c).state.map p.reverse)) = _
  rw [lowBytes_map hp.turns, last_state hp h]
  rfl

theorem final_pieces (pieces : List (List UInt8)) :
    (final p (pieces.foldl (update p) (init p)) true).2 = some (q.hash pieces.flatten) := by
  have h := holds_pieces hp (holds_init hp) pieces
  rw [List.nil_append] at h
  exact final_eq hp h

theorem raw_eq (data : List UInt8) : raw p data = some (q.hash data) := by
  have h := holds_update hp (holds_init hp) data
  rw [List.nil_append] at h
  exact final_eq hp h

end

end

/-! ## the members -/

theorem low_words (c : BitVec 64) :
    [(c >>> 32).setWidth 32, (c &&& 0xffffffff).setWidth 32] =
      highWords 32 2 (beBytes 8 c.toNat) := by
  have hmask : c.toNat &&& 0xffffffff = c.toNat % 2 ^ 32 := Nat.and_two_pow_sub_one_eq_mod _ 32
  have hwords : highWords 32 2 (beBytes 8 c.toNat) =
      [BitVec.ofNat 32 (c.toNat / 2 ^ 32), BitVec.ofNat 32 c.toNat] := highWords_two rfl c.toNat
  have hhi : (c >>> 32).setWidth 32 = BitVec.ofNat 32 (c.toNat / 2 ^ 32) := by
    apply BitVec.eq_of_toNat_eq
    rw [BitVec.toNat_setWidth, BitVec.toNat_ushiftRight, Nat.shiftRight_eq_div_pow,
      BitVec.toNat_ofNat]
  have hlo : (c &&& 0xffffffff).setWidth 32 = BitVec.ofNat 32 c.toNat := by
    apply BitVec.eq_of_toNat_eq
    rw [BitVec.toNat_setWidth, BitVec.toNat_and, BitVec.toNat_ofNat]
    show (c.toNat &&& 0xffffffff) % 2 ^ 32 = _
    rw [hmask, Nat.mod_mod]
  rw [hwords, hhi, hlo]

theorem implements_member32 {I : List (BitVec 32)}
    {t t' : List (BitVec 32) → List (BitVec 32) → List (BitVec 32)}
    (ht : ∀ H M, M.length = 16 → t H M = t' H M) :
    Implements (member32 I 64 t) ⟨I, 64, 8, t'⟩ BitVec.toNat where
  width := rfl
  four := Nat.le_refl 4
  block := rfl
  block_eq := rfl
  short := rfl
  lengthBytes := rfl
  divides := Nat.pow_dvd_pow 2 (show 6 ≤ 61 by omega)
  small := by
    show 64 < 2 ^ 29
    decide
  turns := turns_REVERSE32
  initial := rfl
  transform := ht
  zero := rfl
  addinc := by
    intro c n hn
    show (c + BitVec.ofNat 64 n).toNat = (c.toNat + n) % 256 ^ 8
    have hpow : 256 ^ 8 = 2 ^ 64 := by norm_num
    rw [BitVec.toNat_add, BitVec.toNat_ofNat, Nat.add_mod_mod, hpow]
  low c := (Nat.mod_eq_of_lt c.isLt).symm
  tail := low_words

theorem implements_sha1 : Implements sha1 fips1 BitVec.toNat :=
  implements_member32 fun H M hM => transform1_eq List.length_replicate hM H

theorem implements_sha256 : Implements sha256 fips256 BitVec.toNat :=
  implements_member32 fun H M hM => transform_eq List.length_replicate hM H

/-- the 128 bits of a count in two words, the low one first -/
def value128 (c : BitVec 64 × BitVec 64) : Nat := c.1.toNat + 2 ^ 64 * c.2.toNat

/-- **The carry.** -/
theorem value_addinc128 (c : BitVec 64 × BitVec 64) {n : Nat} (hn : n < 2 ^ 32) :
    value128 (addinc128 c n) = (value128 c + n) % 2 ^ 128 := by
  have h1 := c.1.isLt
  have h2 := c.2.isLt
  have hlow : (c.1 + BitVec.ofNat 64 n).toNat = (c.1.toNat + n) % 2 ^ 64 := by
    rw [BitVec.toNat_add, BitVec.toNat_ofNat, Nat.add_mod_mod]
  have hadd : (BitVec.ofNat 64 n).toNat = n := by
    rw [BitVec.toNat_ofNat, Nat.mod_eq_of_lt (by omega)]
  have hsucc : (c.2 + 1).toNat = (c.2.toNat + 1) % 2 ^ 64 := BitVec.toNat_add _ _
  simp only [value128, addinc128, BitVec.lt_def, hlow, hadd]
  by_cases hcarry : (c.1.toNat + n) % 2 ^ 64 < n
  · rw [if_pos hcarry, hsucc]
    omega
  · rw [if_neg hcarry]
    omega

theorem low_words128 (c : BitVec 64 × BitVec 64) :
    [c.2, c.1] = highWords 64 2 (beBytes 16 (value128 c)) := by
  have h1 := c.1.isLt
  have hwords : highWords 64 2 (beBytes 16 (value128 c)) =
      [BitVec.ofNat 64 (value128 c / 2 ^ 64), BitVec.ofNat 64 (value128 c)] :=
    highWords_two rfl (value128 c)
  have hdiv : value128 c / 2 ^ 64 = c.2.toNat := by
    unfold value128
    omega
  have hlo : BitVec.ofNat 64 (value128 c) = c.1 := by
    apply BitVec.eq_of_toNat_eq
    rw [BitVec.toNat_ofNat]
    unfold value128
    omega
  rw [hwords, hdiv, hlo, BitVec.ofNat_toNat, BitVec.setWidth_eq]

theorem implements_sha512 : Implements sha512 fips512 value128 where
  width := rfl
  four := by
    show 4 ≤ 8
    omega
  block := rfl
  block_eq := rfl
  short := rfl
  lengthBytes := rfl
  divides := Nat.pow_dvd_pow 2 (show 7 ≤ 61 by omega)
  small := by
    show 128 < 2 ^ 29
    decide
  turns := turns_REVERSE64
  initial := rfl
  transform H M hM := transform_eq List.length_replicate hM H
  zero := rfl
  addinc c n hn := value_addinc128 c hn
  low := by
    intro c
    have h1 := c.1.isLt
    show c.1.toNat = value128 c % 2 ^ 64
    unfold value128
    omega
  tail := low_words128

/-- **However a message is cut**, of the three hash functions, and whatever its length is. -/
theorem sha_of_pieces (pieces : List (List UInt8)) :
    (sha1Final (pieces.foldl sha1Update sha1Init) true).2 = some (fips1.hash pieces.flatten) ∧
    (sha256Final (pieces.foldl sha256Update sha256Init) true).2 =
      some (fips256.hash pieces.flatten) ∧
    (sha512Final (pieces.foldl sha512Update sha512Init) true).2 =
      some (fips512.hash pieces.flatten) :=
  ⟨final_pieces implements_sha1 pieces, final_pieces implements_sha256 pieces,
    final_pieces implements_sha512 pieces⟩

end MTower.Sha2
