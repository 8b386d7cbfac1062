import MTower.Lib.BitString
import MTower.Lib.Bits
import MTower.Wallet.TxBuf
import MTower.Wallet.Wordlist

/-!
# The mnemonic of the wallet

`bip39.c` takes 32 random bytes, appends the first byte of their digest and reads the 264 bits
eleven at a time.  The words go one after the other into an array on the stack.  A read or a write
outside an array is `none`.

* `entropyBit`, `selectWord`, `getRandomMnemonic`  the function;
* `wordIndex_eq`     the eleven bits of a word are a piece of the string of all bits;
* `pieces_indices`   the indices written in eleven bits are that string;
* `selectWord_inj`   the words give the entropy back;
* `copyWords_text`   the array after any number of words;
* `getRandomMnemonic_phrase`   the words and a null.
-/

set_option linter.unusedVariables false

namespace MTower.Wallet
open Lib.Bits Lib.Fields Lib.BitString

def mnemonicLength : Nat := 240

/-! ## the function -/

/-- `(entropy[n / 8] & (1 << (7 - n % 8))) > 0` -/
def entropyBit (entropy : List UInt8) (n : Nat) : Option Nat := do
  let b ← entropy[n / 8]?
  return if b.toNat &&& 1 <<< (7 - n % 8) > 0 then 1 else 0

/-- `idx` of word `i`, after the loop over `j` -/
def wordIndex (entropy : List UInt8) (i : Nat) : Option Nat :=
  (List.range 11).foldlM (fun idx j => do
    let b ← entropyBit entropy (i * 11 + j)
    return ((idx <<< 1) % 2 ^ 64 + b) % 2 ^ 64) 0

/-- `wordlist[idx]`; the null pointer that ends the table is `none` too -/
def selectWord (entropy : List UInt8) (i : Nat) : Option String := do
  let idx ← wordIndex entropy i
  wordlist[idx]?

/-- the array `mnemonic` and the offset of `p` in it -/
structure Text where
  data : Nat → UInt8
  p : Nat

/-- a write of `l` into the array, at `offs` -/
def store (d : Nat → UInt8) (offs : Nat) (l : List UInt8) : Option (Nat → UInt8) :=
  if offs + l.length ≤ mnemonicLength then some (blit d offs l) else none

/-- the word with the null `strcpy` ends it with, then a blank or a null over that -/
def copyWord (mnemonicNum : Nat) (entropy : List UInt8) (t : Text) (i : Nat) : Option Text := do
  let word ← selectWord entropy i
  let d ← store t.data t.p (octets word ++ [0])
  let p := t.p + (octets word).length
  let d ← store d p [if i < mnemonicNum - 1 then 32 else 0]
  return ⟨d, p + 1⟩

def copyWords (mnemonicNum : Nat) (entropy : List UInt8) (junk : Nat → UInt8) (n : Nat) :
    Option Text :=
  (List.range n).foldlM (copyWord mnemonicNum entropy) ⟨junk, 0⟩

/-- `entropy` is the array after `TEE_GenerateRandom`, `junk` the array `mnemonic` before the loop -/
def getRandomMnemonic (sha256 : List UInt8 → List.Vector UInt8 32) (strength : Nat)
    (entropy : List UInt8) (junk : Nat → UInt8) : Option (List UInt8) := do
  let entropyHash := sha256 (entropy.take 32)
  let entropy := entropy.set 32 entropyHash.head
  let mnemonicNum := strength / 8 * 3 / 4
  let t ← copyWords mnemonicNum entropy junk mnemonicNum
  return bytesAt t.data 0 mnemonicLength

/-! ## one index -/

/-- the bits of the bytes, one after the other -/
def entropyBits (entropy : List UInt8) : List Bool := (entropy.map UInt8.toNat).flatMap (bits 8)

theorem length_entropyBits (entropy : List UInt8) :
    (entropyBits entropy).length = 8 * entropy.length := by
  rw [entropyBits, length_flatMap_bits, List.length_map]

theorem entropyBit_eq (entropy : List UInt8) (n : Nat) :
    entropyBit entropy n = (entropyBits entropy)[n]?.map Bool.toNat := by
  have hn : n = 8 * (n / 8) + n % 8 := by omega
  have hj : n % 8 < 8 := by omega
  have hbit : (entropyBits entropy)[n]? =
      (entropy[n / 8]?.map UInt8.toNat).map fun v => v.testBit (7 - n % 8) := by
    rw [entropyBits]
    nth_rewrite 1 [hn]
    rw [getElem?_flatMap_bits _ _ hj, List.getElem?_map]
  rw [hbit, entropyBit]
  cases entropy[n / 8]? with
  | none => rfl
  | some b =>
    have hmask : b.toNat &&& 1 <<< (7 - n % 8) > 0 ↔ b.toNat.testBit (7 - n % 8) = true := by
      rw [gt_iff_lt, Nat.pos_iff_ne_zero]
      exact and_bit
    cases hb : b.toNat.testBit (7 - n % 8) with
    | false =>
      rw [hb] at hmask
      simp [hmask, hb]
    | true =>
      rw [hb] at hmask
      simp [hmask, hb]

/-- the bits read so far are the number so far -/
theorem wordIndex_eq {entropy : List UInt8} {i : Nat} (hi : 11 * (i + 1) ≤ 8 * entropy.length) :
    wordIndex entropy i = some (value (((entropyBits entropy).drop (11 * i)).take 11)) := by
  have hlen := length_entropyBits entropy
  have hloop : ∀ n ≤ 11, (List.range n).foldlM (fun idx j => do
      let b ← entropyBit entropy (i * 11 + j)
      return ((idx <<< 1) % 2 ^ 64 + b) % 2 ^ 64) 0
        = some (value (((entropyBits entropy).drop (11 * i)).take n)) := by
    intro n hn
    induction n with
    | zero => rfl
    | succ n ih =>
      have hlt : i * 11 + n < (entropyBits entropy).length := by omega
      have hget : ((entropyBits entropy).drop (11 * i))[n]?
          = some (entropyBits entropy)[i * 11 + n] := by
        rw [List.getElem?_drop, Nat.mul_comm, List.getElem?_eq_getElem hlt]
      have htake : ((entropyBits entropy).drop (11 * i)).take (n + 1)
          = ((entropyBits entropy).drop (11 * i)).take n ++ [(entropyBits entropy)[i * 11 + n]] := by
        rw [List.take_add_one, hget]
        rfl
      have hsmall : value (((entropyBits entropy).drop (11 * i)).take n) < 2 ^ 11 := by
        refine Nat.lt_of_lt_of_le (value_lt _) (Nat.pow_le_pow_right (by decide) ?_)
        rw [List.length_take]
        omega
      have hb := (entropyBits entropy)[i * 11 + n].toNat_lt
      rw [List.range_succ, List.foldlM_append, ih (by omega), htake, value_concat]
      simp only [Option.bind_eq_bind, Option.bind_some, List.foldlM_cons, List.foldlM_nil,
        entropyBit_eq, List.getElem?_eq_getElem hlt, Option.map_some, Option.pure_def,
        Nat.shiftLeft_eq, Option.some.injEq]
      omega
  exact hloop 11 (Nat.le_refl 11)

/-! ## the words -/

/-- the index of word `i`, as a piece of all bits -/
def index (entropy : List UInt8) (i : Nat) : Nat :=
  value (((entropyBits entropy).drop (11 * i)).take 11)

theorem index_lt (entropy : List UInt8) (i : Nat) : index entropy i < 2048 := by
  have hle : (((entropyBits entropy).drop (11 * i)).take 11).length ≤ 11 := List.length_take_le _ _
  exact Nat.lt_of_lt_of_le (value_lt _) (Nat.pow_le_pow_right Nat.two_pos hle)

theorem pieces_indices {entropy : List UInt8} {n : Nat} (hn : 11 * n = 8 * entropy.length) :
    ((List.range n).map (index entropy)).flatMap (bits 11) = entropyBits entropy := by
  have hlen := length_entropyBits entropy
  have hpiece : ∀ i ∈ List.range n,
      bits 11 (index entropy i) = ((entropyBits entropy).drop (11 * i)).take 11 := by
    intro i hi
    have hi' : i < n := List.mem_range.mp hi
    have h11 : (((entropyBits entropy).drop (11 * i)).take 11).length = 11 := by
      rw [List.length_take, List.length_drop]
      omega
    have hbits := bits_value (((entropyBits entropy).drop (11 * i)).take 11)
    rwa [h11] at hbits
  have hall : (entropyBits entropy).take (11 * n) = entropyBits entropy :=
    List.take_of_length_le (by omega)
  rw [List.flatMap_map, List.flatMap_congr hpiece, flatMap_pieces, hall]

/-- the word at an index that is inside the table -/
def wordAt (entropy : List UInt8) (i : Nat) : String := wordlist.getD (index entropy i) ""

theorem getElem?_index (entropy : List UInt8) (i : Nat) :
    wordlist[index entropy i]? = some (wordAt entropy i) := by
  have hlt : index entropy i < wordlist.length := by
    rw [length_wordlist]
    exact index_lt entropy i
  rw [wordAt, List.getD_eq_getElem _ _ hlt, List.getElem?_eq_getElem hlt]

theorem isWord_wordAt (entropy : List UInt8) (i : Nat) : IsWord (wordAt entropy i) :=
  letters_wordlist _ (List.mem_of_getElem? (getElem?_index entropy i))

theorem selectWord_eq {entropy : List UInt8} {i : Nat} (hi : 11 * (i + 1) ≤ 8 * entropy.length) :
    selectWord entropy i = some (wordAt entropy i) := by
  rw [selectWord, wordIndex_eq hi]
  exact getElem?_index entropy i

example : wordIndex (List.replicate 32 0 ++ [0x66]) 23 = some 102 ∧ wordlist[102]? = some "art" := by
  decide +kernel

/-- the words of 32 bytes of entropy, in order -/
def mnemonicWords (sha256 : List UInt8 → List.Vector UInt8 32) (e : List.Vector UInt8 32) :
    Option (List String) :=
  (List.range 24).mapM (selectWord (e.toList ++ [(sha256 e.toList).head]))

theorem mapM_selectWord {entropy : List UInt8} {n : Nat} (hn : 11 * n ≤ 8 * entropy.length) :
    (List.range n).mapM (selectWord entropy) = some ((List.range n).map (wordAt entropy)) := by
  induction n with
  | zero => rfl
  | succ n ih =>
    rw [List.range_succ, List.mapM_append, ih (by omega), List.map_append]
    simp [selectWord_eq (i := n) (by omega)]

/-- no two indices have one word -/
theorem index_inj {entropy entropy' : List UInt8} {i : Nat}
    (h : wordAt entropy i = wordAt entropy' i) : index entropy i = index entropy' i := by
  have hlt : index entropy i < wordlist.length := by
    rw [length_wordlist]
    exact index_lt entropy i
  apply (List.getElem?_inj hlt nodup_wordlist).mp
  rw [getElem?_index, getElem?_index, h]

theorem entropyBits_inj {l m : List UInt8} (h : entropyBits l = entropyBits m) : l = m := by
  have hbyte : ∀ k : List UInt8, ∀ v ∈ k.map UInt8.toNat, v < 2 ^ 8 := by
    intro k v hv
    obtain ⟨b, -, rfl⟩ := List.mem_map.mp hv
    exact b.toNat_lt
  have hmap := flatMap_bits_inj (by decide) (hbyte l) (hbyte m) h
  exact List.map_injective_iff.mpr (fun a b => UInt8.toNat_inj.mp) hmap

/-- the words determine the bytes they are read from -/
theorem wordAt_inj {entropy entropy' : List UInt8} {n : Nat} (hn : 11 * n = 8 * entropy.length)
    (hn' : 11 * n = 8 * entropy'.length)
    (h : (List.range n).map (wordAt entropy) = (List.range n).map (wordAt entropy')) :
    entropy = entropy' := by
  apply entropyBits_inj
  rw [← pieces_indices hn, ← pieces_indices hn']
  have hindex : (List.range n).map (index entropy) = (List.range n).map (index entropy') := by
    apply List.map_congr_left
    intro i hi
    exact index_inj (List.map_inj_left.mp h i hi)
  rw [hindex]

/-! ## the text -/

variable {entropy : List UInt8} {num i : Nat} {t : Text} {junk : Nat → UInt8}

/-- the array holds `l` in front of `p` -/
def Text.Holds (t : Text) (l : List UInt8) : Prop := t.p = l.length ∧ bytesAt t.data 0 t.p = l

/-- **One word**, and what stands behind it. -/
theorem copyWord_holds {l : List UInt8} (hi : 11 * (i + 1) ≤ 8 * entropy.length)
    (ht : t.Holds l) (hroom : t.p + 9 ≤ mnemonicLength) :
    ∃ t', copyWord num entropy t i = some t' ∧
      t'.Holds (l ++ octets (wordAt entropy i) ++ [if i < num - 1 then 32 else 0]) := by
  obtain ⟨hp, hbytes⟩ := ht
  have hlen := (isWord_wordAt entropy i).2.1
  generalize hw : octets (wordAt entropy i) = w at hlen ⊢
  generalize hc : (if i < num - 1 then (32 : UInt8) else 0) = c
  have hstrcpy : t.p + (w ++ [0]).length ≤ mnemonicLength := by
    rw [List.length_append, List.length_singleton]
    omega
  have hsep : t.p + w.length + [c].length ≤ mnemonicLength := by
    rw [List.length_singleton]
    omega
  have hdata : bytesAt (blit t.data t.p (w ++ [0])) 0 (t.p + w.length) = l ++ w := by
    rw [blit_append, ← hbytes, ← bytesAt_blit_end]
    apply bytesAt_congr
    intro k hk
    exact blit_out (Or.inl hk)
  refine ⟨⟨blit (blit t.data t.p (w ++ [0])) (t.p + w.length) [c], t.p + w.length + 1⟩, ?_, ?_, ?_⟩
  · rw [copyWord, selectWord_eq hi, hc]
    simp only [Option.bind_eq_bind, Option.bind_some, hw, store, if_pos hstrcpy, if_pos hsep,
      Option.pure_def]
  · simp only [List.length_append, List.length_singleton, hp]
  · show bytesAt _ 0 (t.p + w.length + [c].length) = _
    rw [bytesAt_blit_end, hdata]

/-- the words so far, each with its blank -/
def blanked (entropy : List UInt8) (n : Nat) : List UInt8 :=
  (List.range n).flatMap fun i => octets (wordAt entropy i) ++ [32]

theorem blanked_succ (entropy : List UInt8) (n : Nat) :
    blanked entropy (n + 1) = blanked entropy n ++ octets (wordAt entropy n) ++ [32] := by
  rw [blanked, List.range_succ, List.flatMap_append, List.flatMap_singleton, List.append_assoc]
  rfl

theorem length_blanked_le (entropy : List UInt8) (n : Nat) : (blanked entropy n).length ≤ 9 * n := by
  induction n with
  | zero => exact Nat.zero_le _
  | succ n ih =>
    have hlen := (isWord_wordAt entropy n).2.1
    rw [blanked_succ, List.length_append, List.length_append, List.length_singleton]
    omega

/-- **The words before the last.** -/
theorem copyWords_blanked {n : Nat} (hn : 11 * n ≤ 8 * entropy.length) (hnum : n ≤ num - 1)
    (hroom : 9 * n ≤ mnemonicLength) :
    ∃ t, copyWords num entropy junk n = some t ∧ t.Holds (blanked entropy n) := by
  induction n with
  | zero => exact ⟨⟨junk, 0⟩, rfl, rfl, rfl⟩
  | succ n ih =>
    obtain ⟨t, hrun, ht⟩ := ih (by omega) (by omega) (by omega)
    have hp := ht.1
    have hle := length_blanked_le entropy n
    obtain ⟨t', hstep, ht'⟩ : ∃ t', copyWord num entropy t n = some t' ∧
        t'.Holds (blanked entropy n ++ octets (wordAt entropy n) ++ [if n < num - 1 then 32 else 0]) :=
      copyWord_holds hn ht (by omega)
    rw [if_pos (by omega), ← blanked_succ] at ht'
    refine ⟨t', ?_, ht'⟩
    rw [copyWords, List.range_succ, List.foldlM_append, ← copyWords, hrun]
    simp [hstep]

theorem intercalate_concat (l : List (List UInt8)) (a sep : List UInt8) :
    List.intercalate sep (l ++ [a]) = l.flatMap (· ++ sep) ++ a := by
  induction l with
  | nil => simp
  | cons b l ih =>
    have hne : l ++ [a] ≠ [] := by simp
    rw [List.cons_append, List.intercalate_cons_of_ne_nil hne, ih, List.flatMap_cons]
    simp only [List.append_assoc]

theorem intercalate_words (entropy : List UInt8) (n : Nat) :
    List.intercalate [32] ((List.range (n + 1)).map fun i => octets (wordAt entropy i))
      = blanked entropy n ++ octets (wordAt entropy n) := by
  rw [List.range_succ, List.map_append, List.map_singleton, intercalate_concat, List.flatMap_map]
  rfl

theorem length_words_le (entropy : List UInt8) (n : Nat) :
    (List.intercalate [32] ((List.range (n + 1)).map fun i => octets (wordAt entropy i))).length
      < 9 * (n + 1) := by
  have hle := length_blanked_le entropy n
  have hlen := (isWord_wordAt entropy n).2.1
  rw [intercalate_words, List.length_append]
  omega

/-- **All words**, with single blanks and a null behind the last. -/
theorem copyWords_text {n : Nat} (hn : 11 * (n + 1) ≤ 8 * entropy.length)
    (hroom : 9 * (n + 1) ≤ mnemonicLength) :
    ∃ t, copyWords (n + 1) entropy junk (n + 1) = some t ∧
      t.Holds (List.intercalate [32] ((List.range (n + 1)).map fun i => octets (wordAt entropy i))
        ++ [0]) := by
  have hn' : 11 * n ≤ 8 * entropy.length := by omega
  have hroom' : 9 * n ≤ mnemonicLength := by omega
  obtain ⟨t, hrun, ht⟩ : ∃ t, copyWords (n + 1) entropy junk n = some t ∧
      t.Holds (blanked entropy n) := copyWords_blanked hn' (Nat.le_refl n) hroom'
  have hp := ht.1
  have hle := length_blanked_le entropy n
  obtain ⟨t', hstep, ht'⟩ : ∃ t', copyWord (n + 1) entropy t n = some t' ∧
      t'.Holds (blanked entropy n ++ octets (wordAt entropy n) ++ [if n < n + 1 - 1 then 32 else 0]) :=
    copyWord_holds hn ht (by omega)
  rw [if_neg (by omega)] at ht'
  refine ⟨t', ?_, ?_⟩
  · rw [copyWords, List.range_succ, List.foldlM_append, ← copyWords, hrun]
    simp [hstep]
  · rw [intercalate_words]
    exact ht'

/-- what stands in the array up to `n` bytes starts with what it holds -/
theorem Text.Holds.prefix_bytes {l : List UInt8} (ht : t.Holds l) {n : Nat} (hn : l.length ≤ n) :
    ∃ rest, bytesAt t.data 0 n = l ++ rest := by
  obtain ⟨hp, hbytes⟩ := ht
  refine ⟨(bytesAt t.data 0 n).drop l.length, ?_⟩
  have htake : (bytesAt t.data 0 n).take l.length = l := by
    nth_rewrite 2 [← hbytes]
    rw [hp, bytesAt, bytesAt, ← List.map_take, List.take_range, Nat.min_eq_left hn]
  have hsplit := List.take_append_drop l.length (bytesAt t.data 0 n)
  rwa [htake, eq_comm] at hsplit

/-! ## the mnemonic -/

/-- the hash byte takes the place of the last byte of the array -/
theorem set_entropy (e : List.Vector UInt8 32) (x h : UInt8) :
    (e.toList ++ [x]).set 32 h = e.toList ++ [h] := by
  have hlen := e.toList_length
  rw [List.set_append_right _ _ (by omega), hlen]
  rfl

theorem take_entropy (e : List.Vector UInt8 32) (x : UInt8) : (e.toList ++ [x]).take 32 = e.toList := by
  have hlen := e.toList_length
  rw [List.take_append_of_le_length (by omega), List.take_of_length_le (by omega)]

/-- the words, with single blanks -/
def phrase (entropy : List UInt8) : List UInt8 :=
  List.intercalate [32] (((List.range 24).map (wordAt entropy)).map octets)

/-- the words and a null, in an array of its length -/
theorem getRandomMnemonic_phrase (sha256 : List UInt8 → List.Vector UInt8 32)
    (e : List.Vector UInt8 32) (x : UInt8) (junk : Nat → UInt8) :
    ∃ rest, getRandomMnemonic sha256 256 (e.toList ++ [x]) junk =
        some (phrase (e.toList ++ [(sha256 e.toList).head]) ++ 0 :: rest) ∧
      (phrase (e.toList ++ [(sha256 e.toList).head]) ++ 0 :: rest).length = mnemonicLength := by
  have hent : 11 * 24 = 8 * (e.toList ++ [(sha256 e.toList).head]).length := by
    rw [List.length_append, e.toList_length]
    rfl
  generalize hentropy : e.toList ++ [(sha256 e.toList).head] = entropy at *
  obtain ⟨t, hrun, ht⟩ : ∃ t, copyWords 24 entropy junk 24 = some t ∧ t.Holds (List.intercalate [32]
      ((List.range 24).map fun i => octets (wordAt entropy i)) ++ [0]) :=
    copyWords_text (Nat.le_of_eq hent) (by decide)
  have hshort : (List.intercalate [32]
      ((List.range 24).map fun i => octets (wordAt entropy i))).length < 216 :=
    length_words_le entropy 23
  obtain ⟨rest, hrest⟩ := ht.prefix_bytes (n := mnemonicLength) (by
    rw [List.length_append, List.length_singleton, mnemonicLength]
    omega)
  have htext : bytesAt t.data 0 mnemonicLength = phrase entropy ++ 0 :: rest := by
    rw [hrest, phrase, List.map_map, List.append_assoc]
    rfl
  refine ⟨rest, ?_, ?_⟩
  · rw [← htext, getRandomMnemonic, take_entropy, set_entropy, hentropy]
    show (copyWords 24 entropy junk 24 >>= fun t => pure (bytesAt t.data 0 mnemonicLength)) = _
    rw [hrun]
    rfl
  · rw [← htext, length_bytesAt]

theorem null_not_mem_word (entropy : List UInt8) (i : Nat) : 0 ∉ octets (wordAt entropy i) := by
  intro h
  exact absurd ((isWord_wordAt entropy i).2.2 0 h).1 (by decide)

/-- the null stands behind all words -/
theorem null_not_mem_phrase (entropy : List UInt8) : 0 ∉ phrase entropy := by
  have hphrase : phrase entropy = blanked entropy 23 ++ octets (wordAt entropy 23) := by
    rw [phrase, List.map_map]
    exact intercalate_words entropy 23
  rw [hphrase, List.mem_append, not_or]
  refine ⟨?_, null_not_mem_word entropy 23⟩
  intro h
  obtain ⟨i, -, hi⟩ := List.mem_flatMap.mp h
  rcases List.mem_append.mp hi with hword | hblank
  · exact null_not_mem_word entropy i hword
  · exact absurd hblank (by decide)

/-- The 24 indices of the mnemonic, in eleven bits each, are the bits of the entropy and of the
first byte of its digest; the words go into the array with single blanks and a null; and no two
entropies have the same words. -/
theorem mnemonic_bip39 (sha256 : List UInt8 → List.Vector UInt8 32) :
    (∀ (e : List.Vector UInt8 32) (x : UInt8) (junk : Nat → UInt8),
      ∃ (indices : List Nat) (words : List String) (rest : List UInt8),
        indices.length = 24 ∧ (∀ idx ∈ indices, idx < 2048) ∧
        indices.flatMap (bits 11) = entropyBits (e.toList ++ [(sha256 e.toList).head]) ∧
        indices.map (fun idx => wordlist[idx]?) = words.map some ∧ (∀ s ∈ words, IsWord s) ∧
        mnemonicWords sha256 e = some words ∧
        getRandomMnemonic sha256 256 (e.toList ++ [x]) junk =
          some (List.intercalate [32] (words.map octets) ++ 0 :: rest) ∧
        (List.intercalate [32] (words.map octets) ++ 0 :: rest).length = mnemonicLength) ∧
    Function.Injective (mnemonicWords sha256) := by
  have hlen : ∀ e : List.Vector UInt8 32,
      11 * 24 = 8 * (e.toList ++ [(sha256 e.toList).head]).length := by
    intro e
    rw [List.length_append, e.toList_length]
    rfl
  constructor
  · intro e x junk
    obtain ⟨rest, hrun, hrest⟩ := getRandomMnemonic_phrase sha256 e x junk
    have h24 := hlen e
    generalize hent : e.toList ++ [(sha256 e.toList).head] = entropy at *
    refine ⟨(List.range 24).map (index entropy), (List.range 24).map (wordAt entropy), rest,
      ?_, ?_, pieces_indices h24, ?_, ?_, ?_, ?_, ?_⟩
    · rw [List.length_map, List.length_range]
    · intro idx hidx
      obtain ⟨i, -, rfl⟩ := List.mem_map.mp hidx
      exact index_lt _ i
    · rw [List.map_map, List.map_map]
      apply List.map_congr_left
      intro i hi
      exact getElem?_index entropy i
    · intro s hs
      obtain ⟨i, -, rfl⟩ := List.mem_map.mp hs
      exact isWord_wordAt entropy i
    · rw [mnemonicWords, hent]
      exact mapM_selectWord (Nat.le_of_eq h24)
    · exact hrun
    · exact hrest
  · intro e e' h
    have hsel : ∀ e : List.Vector UInt8 32, mnemonicWords sha256 e = some ((List.range 24).map
        (wordAt (e.toList ++ [(sha256 e.toList).head]))) :=
      fun e => mapM_selectWord (Nat.le_of_eq (hlen e))
    rw [hsel, hsel, Option.some.injEq] at h
    have happ := wordAt_inj (hlen e) (hlen e') h
    apply List.Vector.toList_injective
    exact (List.append_inj happ (by rw [e.toList_length, e'.toList_length])).1

end MTower.Wallet
