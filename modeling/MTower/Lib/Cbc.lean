import Mathlib.Data.Vector.Basic

/-!
# Chained blocks and stolen ciphertext

* `cut`, `join`       a list cut into blocks, the last of them padded, and blocks put together;
* `cbcEncrypt`, `cbcDecrypt`   chained blocks, for any block cipher;
* `steal`             a message of any length over one block: pad, encrypt, swap the last two
                      blocks, truncate;
* `unsteal`           the way back, with the end of the block before it filled in;
* `unsteal_steal`     it is the way back;
* `steal_append`, `unsteal_append`   whole blocks may go ahead.
-/

set_option linter.unusedVariables false

namespace Lib.Cbc

/-! ## blocks -/

section
variable {α : Type} [Zero α] {b k n : Nat} {l a q t : List α} {v w : Vector α b}

/-- the first `b` elements, padded with zeros -/
def block (b : Nat) (l : List α) : Vector α b := Vector.ofFn fun i => l.getD i 0

def cutN (b : Nat) : Nat → List α → List (Vector α b)
  | 0, _ => []
  | k + 1, l => block b l :: cutN b k (l.drop b)

def cut (b : Nat) (l : List α) : List (Vector α b) := cutN b ((l.length + b - 1) / b) l

def join (bs : List (Vector α b)) : List α := bs.flatMap Vector.toList

omit [Zero α] in
theorem join_append (bs cs : List (Vector α b)) : join (bs ++ cs) = join bs ++ join cs :=
  List.flatMap_append

omit [Zero α] in
theorem join_singleton (v : Vector α b) : join [v] = v.toList := by
  rw [join, List.flatMap_cons, List.flatMap_nil, List.append_nil]

omit [Zero α] in
theorem length_join (bs : List (Vector α b)) : (join bs).length = bs.length * b := by
  induction bs with
  | nil => exact (Nat.zero_mul b).symm
  | cons v bs ih =>
    rw [join, List.flatMap_cons, List.length_append, Vector.length_toList, List.length_cons,
      Nat.succ_mul, Nat.add_comm]
    exact congrArg (· + b) ih

theorem length_cutN (k : Nat) (l : List α) : (cutN b k l).length = k := by
  induction k generalizing l with
  | zero => rfl
  | succ k ih => rw [cutN, List.length_cons, ih]

theorem getElem_block {i : Nat} (hi : i < b) : (block b l)[i] = l.getD i 0 := by
  rw [block, Vector.getElem_ofFn]

theorem toList_block (h : l.length ≤ b) :
    (block b l).toList = l ++ List.replicate (b - l.length) 0 := by
  apply List.ext_getElem
  · rw [Vector.length_toList, List.length_append, List.length_replicate]
    omega
  · intro i h1 h2
    rw [Vector.length_toList] at h1
    rw [Vector.getElem_toList, getElem_block h1, List.getD_eq_getElem?_getD]
    by_cases hi : i < l.length
    · rw [List.getElem_append_left hi, List.getElem?_eq_getElem hi, Option.getD_some]
    · rw [List.getElem_append_right (by omega), List.getElem_replicate,
        List.getElem?_eq_none (by omega), Option.getD_none]

theorem toList_block_full (h : l.length = b) : (block b l).toList = l := by
  rw [toList_block h.le, h, Nat.sub_self, List.replicate_zero, List.append_nil]

theorem block_toList (v : Vector α b) : block b v.toList = v := by
  apply Vector.toList_inj.mp
  exact toList_block_full v.length_toList

theorem block_zeros (h : l.length ≤ b) :
    block b (l ++ List.replicate (b - l.length) 0) = block b l := by
  rw [← toList_block h, block_toList]

/-- only the first elements count -/
theorem block_append (h : b ≤ l.length) (t : List α) : block b (l ++ t) = block b l := by
  apply Vector.ext
  intro i hi
  rw [getElem_block hi, getElem_block hi, List.getD_eq_getElem?_getD,
    List.getD_eq_getElem?_getD, List.getElem?_append_left (by omega)]

theorem cutN_append (h : a.length = k * b) (n : Nat) (l : List α) :
    cutN b (k + n) (a ++ l) = cutN b k a ++ cutN b n l := by
  induction k generalizing a with
  | zero =>
    rw [Nat.zero_mul] at h
    rw [List.length_eq_zero_iff.mp h, Nat.zero_add]
    rfl
  | succ k ih =>
    rw [Nat.succ_mul] at h
    have hdrop : (a.drop b).length = k * b := by rw [List.length_drop]; omega
    rw [Nat.succ_add, cutN, cutN, block_append (by omega), List.drop_append_of_le_length (by omega),
      ih hdrop, List.cons_append]

theorem join_cutN (h : l.length = k * b) : join (cutN b k l) = l := by
  induction k generalizing l with
  | zero =>
    rw [Nat.zero_mul] at h
    exact (List.length_eq_zero_iff.mp h).symm
  | succ k ih =>
    rw [Nat.succ_mul] at h
    have hdrop : (l.drop b).length = k * b := by rw [List.length_drop]; omega
    have htake : (l.take b).length = b := by rw [List.length_take]; omega
    have hblock : block b l = block b (l.take b) := by
      conv_lhs => rw [← List.take_append_drop b l]
      exact block_append htake.ge _
    rw [cutN, join, List.flatMap_cons, hblock, toList_block_full htake]
    conv_rhs => rw [← List.take_append_drop b l]
    exact congrArg (l.take b ++ ·) (ih hdrop)

theorem cutN_join (bs : List (Vector α b)) : cutN b bs.length (join bs) = bs := by
  induction bs with
  | nil => rfl
  | cons v bs ih =>
    rw [join, List.flatMap_cons, List.length_cons, cutN, block_append v.length_toList.ge,
      block_toList, List.drop_left' v.length_toList]
    exact congrArg (v :: ·) ih

/-- a list of whole blocks -/
theorem cut_eq (hb : 0 < b) (h : l.length = k * b) : cut b l = cutN b k l := by
  have hdiv : (k * b + b - 1) / b = k := by
    rw [Nat.add_sub_assoc hb, Nat.mul_comm, Nat.mul_add_div hb, Nat.div_eq_of_lt (by omega),
      Nat.add_zero]
  rw [cut, h, hdiv]

/-- a list with a last block that need not be whole -/
theorem cut_tail (hk : a.length = k * b) (h0 : 0 < t.length) (ht : t.length ≤ b) :
    cut b (a ++ t) = cutN b k a ++ [block b t] := by
  have hdiv : (k * b + t.length + b - 1) / b = k + 1 := by
    rw [show k * b + t.length + b - 1 = b * (k + 1) + (t.length - 1) by
      rw [Nat.mul_succ, Nat.mul_comm]; omega, Nat.mul_add_div (by omega),
      Nat.div_eq_of_lt (by omega), Nat.add_zero]
  rw [cut, List.length_append, hk, hdiv, cutN_append hk]
  rfl

end

/-! ## chaining -/

section
variable {β : Type} (xor : β → β → β) (E D : β → β)

def cbcEncrypt : β → List β → List β
  | _, [] => []
  | iv, p :: ps => E (xor p iv) :: cbcEncrypt (E (xor p iv)) ps

def cbcDecrypt : β → List β → List β
  | _, [] => []
  | iv, c :: cs => xor (D c) iv :: cbcDecrypt c cs

/-- the vector after these blocks of ciphertext -/
def chain (iv : β) (cs : List β) : β := cs.getLastD iv

variable {xor E D} {iv : β}

theorem chain_cons (c : β) (cs : List β) : chain iv (c :: cs) = chain c cs := by
  cases cs with
  | nil => rfl
  | cons d ds => rfl

theorem chain_append (cs ds : List β) : chain iv (cs ++ ds) = chain (chain iv cs) ds := by
  induction cs generalizing iv with
  | nil => rfl
  | cons c cs ih => rw [List.cons_append, chain_cons, chain_cons, ih]

theorem length_cbcEncrypt (iv : β) (ps : List β) :
    (cbcEncrypt xor E iv ps).length = ps.length := by
  induction ps generalizing iv with
  | nil => rfl
  | cons p ps ih => rw [cbcEncrypt, List.length_cons, List.length_cons, ih]

theorem length_cbcDecrypt (iv : β) (cs : List β) :
    (cbcDecrypt xor D iv cs).length = cs.length := by
  induction cs generalizing iv with
  | nil => rfl
  | cons c cs ih => rw [cbcDecrypt, List.length_cons, List.length_cons, ih]

theorem cbcEncrypt_append (ps qs : List β) : cbcEncrypt xor E iv (ps ++ qs) =
    cbcEncrypt xor E iv ps ++ cbcEncrypt xor E (chain iv (cbcEncrypt xor E iv ps)) qs := by
  induction ps generalizing iv with
  | nil => rfl
  | cons p ps ih =>
    rw [List.cons_append, cbcEncrypt, cbcEncrypt, ih, chain_cons, List.cons_append]

theorem cbcDecrypt_append (cs ds : List β) : cbcDecrypt xor D iv (cs ++ ds) =
    cbcDecrypt xor D iv cs ++ cbcDecrypt xor D (chain iv cs) ds := by
  induction cs generalizing iv with
  | nil => rfl
  | cons c cs ih =>
    rw [List.cons_append, cbcDecrypt, cbcDecrypt, ih, chain_cons, List.cons_append]

/-- **Decryption of an encryption** -/
theorem cbcDecrypt_cbcEncrypt (hD : ∀ x, D (E x) = x) (hxor : ∀ x y, xor (xor x y) y = x)
    (ps : List β) : cbcDecrypt xor D iv (cbcEncrypt xor E iv ps) = ps := by
  induction ps generalizing iv with
  | nil => rfl
  | cons p ps ih => rw [cbcEncrypt, cbcDecrypt, ih, hD, hxor]

def swapLast : List β → List β
  | [] => []
  | [x, y] => [y, x]
  | x :: l => x :: swapLast l

theorem swapLast_append (l : List β) (x y : β) : swapLast (l ++ [x, y]) = l ++ [y, x] := by
  induction l with
  | nil => rfl
  | cons z l ih =>
    have hstep : swapLast (z :: (l ++ [x, y])) = z :: swapLast (l ++ [x, y]) := by
      cases l with
      | nil => rfl
      | cons u l => cases l <;> rfl
    rw [List.cons_append, hstep, ih, List.cons_append]

end

/-! ## stealing -/

section
variable {α : Type} [Zero α] {b k : Nat} (op : α → α → α) (E D : Vector α b → Vector α b)

/-- pad, encrypt, swap the last two blocks, truncate -/
def steal (iv : Vector α b) (p : List α) : List α :=
  (join (swapLast (cbcEncrypt (Vector.zipWith op) E iv (cut b p)))).take p.length

/-- the end of the last block is in the block before it -/
def filled (t : List α) (y : Vector α b) : Vector α b :=
  block b (t ++ (D y).toList.drop t.length)

/-- the last two blocks of a ciphertext, decrypted with the vector `iv` -/
def unstealLast (iv y : Vector α b) (t : List α) : List α :=
  (Vector.zipWith op (D (filled D t y)) iv).toList ++
    (Vector.zipWith op (D y) (filled D t y)).toList.take t.length

/-- `k` whole blocks stand before the last two -/
def unstealN (k : Nat) (iv : Vector α b) (c : List α) : List α :=
  join (cbcDecrypt (Vector.zipWith op) D iv (cutN b k c)) ++
    unstealLast op D (chain iv (cutN b k c)) (block b (c.drop (k * b))) (c.drop ((k + 1) * b))

def unsteal (iv : Vector α b) (c : List α) : List α :=
  unstealN op D ((c.length + b - 1) / b - 2) iv c

variable {op E D} {iv : Vector α b} {a q t l : List α}

omit [Zero α] in
/-- how many blocks there are before the last two -/
theorem blocks_before (ha : a.length = k * b) (hq : q.length = b) (h0 : 0 < t.length)
    (ht : t.length ≤ b) : ((a ++ q ++ t).length + b - 1) / b - 2 = k := by
  have hlen : (a ++ q ++ t).length + b - 1 = b * (k + 2) + (t.length - 1) := by
    rw [List.length_append, List.length_append, ha, hq, Nat.mul_add, Nat.mul_comm]
    omega
  rw [hlen, Nat.mul_add_div (by omega), Nat.div_eq_of_lt (by omega), Nat.add_zero,
    Nat.add_sub_cancel]

omit [Zero α] in
/-- a list that is longer than one block -/
theorem split_last (hb : 0 < b) (h : b < l.length) : ∃ k a q t, l = a ++ q ++ t ∧
    a.length = k * b ∧ q.length = b ∧ 0 < t.length ∧ t.length ≤ b := by
  have hdiv := Nat.div_add_mod (l.length - 1) b
  have hmod := Nat.mod_lt (l.length - 1) hb
  have hpos : 0 < (l.length - 1) / b := Nat.div_pos (by omega) hb
  generalize hn : (l.length - 1) / b = n at hdiv hpos
  obtain ⟨k, rfl⟩ : ∃ k, n = k + 1 := ⟨n - 1, by omega⟩
  rw [Nat.mul_succ, Nat.mul_comm] at hdiv
  refine ⟨k, l.take (k * b), (l.drop (k * b)).take b, (l.drop (k * b)).drop b, ?_, ?_, ?_, ?_, ?_⟩
  · rw [List.append_assoc, List.take_append_drop, List.take_append_drop]
  all_goals simp only [List.length_take, List.length_drop]
  all_goals omega

/-- **What is stolen**: the last block comes first, and the one before it is cut. -/
theorem steal_eq (ha : a.length = k * b) (hq : q.length = b) (h0 : 0 < t.length)
    (ht : t.length ≤ b) {cs : List (Vector α b)} {x y : Vector α b}
    (hcs : cs = cbcEncrypt (Vector.zipWith op) E iv (cutN b k a))
    (hx : x = E (Vector.zipWith op (block b q) (chain iv cs)))
    (hy : y = E (Vector.zipWith op (block b t) x)) :
    steal op E iv (a ++ q ++ t) = join cs ++ y.toList ++ x.toList.take t.length := by
  have haq : (a ++ q).length = (k + 1) * b := by
    rw [List.length_append, ha, hq, Nat.succ_mul]
  have hcut : cut b (a ++ q ++ t) = cutN b k a ++ [block b q, block b t] := by
    rw [cut_tail haq h0 ht, cutN_append ha, List.append_assoc]
    rfl
  have henc : cbcEncrypt (Vector.zipWith op) E iv (cut b (a ++ q ++ t)) = cs ++ [x, y] := by
    rw [hcut, cbcEncrypt_append, ← hcs, cbcEncrypt, cbcEncrypt, cbcEncrypt, ← hx, ← hy]
  have hlen : (join cs ++ y.toList).length = (k + 1) * b := by
    rw [List.length_append, length_join, Vector.length_toList, hcs, length_cbcEncrypt,
      length_cutN, Nat.succ_mul]
  have hjoin : join (cs ++ [y, x]) = join cs ++ y.toList ++ x.toList := by
    rw [← List.singleton_append, join_append, join_append, join_singleton, join_singleton,
      List.append_assoc]
  rw [steal, henc, swapLast_append, hjoin, List.length_append, haq, ← hlen,
    List.take_length_add_append]

theorem unsteal_eq (ha : a.length = k * b) (hq : q.length = b) (h0 : 0 < t.length)
    (ht : t.length ≤ b) : unsteal op D iv (a ++ q ++ t) =
      join (cbcDecrypt (Vector.zipWith op) D iv (cutN b k a)) ++
        unstealLast op D (chain iv (cutN b k a)) (block b q) t := by
  have haq : (a ++ q).length = (k + 1) * b := by
    rw [List.length_append, ha, hq, Nat.succ_mul]
  have hcut : cutN b k (a ++ q ++ t) = cutN b k a := by
    have happ := cutN_append ha 0 (q ++ t)
    rw [List.append_assoc]
    exact happ.trans (List.append_nil _)
  rw [unsteal, blocks_before ha hq h0 ht, unstealN, hcut, List.drop_left' haq, List.append_assoc,
    List.drop_left' ha, block_append hq.ge]

omit [Zero α] in
theorem zipWith_back (hop : ∀ x y, op (op x y) y = x) (v w : Vector α b) :
    Vector.zipWith op (Vector.zipWith op v w) w = v := by
  apply Vector.ext
  intro i hi
  rw [Vector.getElem_zipWith, Vector.getElem_zipWith, hop]

/-- the end that is filled in is what was cut off -/
theorem filled_eq (hD : ∀ v, D (E v) = v) (hzero : ∀ z, op 0 z = z) (ht : t.length ≤ b)
    (x : Vector α b) :
    filled D (x.toList.take t.length) (E (Vector.zipWith op (block b t) x)) = x := by
  have htake : (x.toList.take t.length).length = t.length := by
    rw [List.length_take, Vector.length_toList, Nat.min_eq_left ht]
  have hdrop : (Vector.zipWith op (block b t) x).toList.drop t.length =
      x.toList.drop t.length := by
    apply List.ext_getElem
    · rw [List.length_drop, List.length_drop, Vector.length_toList, Vector.length_toList]
    · intro i h1 h2
      rw [List.length_drop, Vector.length_toList] at h1
      rw [List.getElem_drop, List.getElem_drop, Vector.getElem_toList, Vector.getElem_toList,
        Vector.getElem_zipWith, getElem_block, List.getD_eq_getElem?_getD,
        List.getElem?_eq_none (by omega), Option.getD_none, hzero]
  rw [filled, hD, htake, hdrop, List.take_append_drop, block_toList]

theorem unstealLast_steal (hD : ∀ v, D (E v) = v) (hop : ∀ x y, op (op x y) y = x)
    (hzero : ∀ z, op 0 z = z) (hq : q.length = b) (ht : t.length ≤ b) {x : Vector α b}
    (hx : x = E (Vector.zipWith op (block b q) iv)) :
    unstealLast op D iv (E (Vector.zipWith op (block b t) x)) (x.toList.take t.length) =
      q ++ t := by
  have htake : (x.toList.take t.length).length = t.length := by
    rw [List.length_take, Vector.length_toList, Nat.min_eq_left ht]
  rw [unstealLast, filled_eq hD hzero ht, hD, zipWith_back hop, htake, hx, hD, zipWith_back hop,
    toList_block_full hq, toList_block ht, List.take_left]

/-- **Decryption gives the message back.** -/
theorem unsteal_steal (hb : 0 < b) (hD : ∀ v, D (E v) = v) (hop : ∀ x y, op (op x y) y = x)
    (hzero : ∀ z, op 0 z = z) (h : b < l.length) : unsteal op D iv (steal op E iv l) = l := by
  obtain ⟨k, a, q, t, rfl, ha, hq, h0, ht⟩ := split_last hb h
  generalize hcs : cbcEncrypt (Vector.zipWith op) E iv (cutN b k a) = cs
  generalize hx : E (Vector.zipWith op (block b q) (chain iv cs)) = x
  generalize hy : E (Vector.zipWith op (block b t) x) = y
  have hlen : cs.length = k := by rw [← hcs, length_cbcEncrypt, length_cutN]
  have htake : (x.toList.take t.length).length = t.length := by
    rw [List.length_take, Vector.length_toList, Nat.min_eq_left ht]
  rw [steal_eq ha hq h0 ht hcs.symm hx.symm hy.symm,
    unsteal_eq (by rw [length_join, hlen]) y.length_toList (htake.symm ▸ h0) (htake.symm ▸ ht),
    ← hlen, cutN_join, block_toList, ← hy, unstealLast_steal hD hop hzero hq ht hx.symm, ← hcs,
    cbcDecrypt_cbcEncrypt hD (zipWith_back hop), join_cutN ha, List.append_assoc]

/-- **Whole blocks may go ahead.** -/
theorem steal_append (hb : 0 < b) (hp : q.length = k * b) (h : b < l.length) :
    steal op E iv (q ++ l) = join (cbcEncrypt (Vector.zipWith op) E iv (cutN b k q)) ++
      steal op E (chain iv (cbcEncrypt (Vector.zipWith op) E iv (cutN b k q))) l := by
  obtain ⟨n, a, r, t, rfl, ha, hr, h0, ht⟩ := split_last hb h
  have hqa : (q ++ a).length = (k + n) * b := by rw [List.length_append, hp, ha, Nat.add_mul]
  have hassoc : q ++ (a ++ r ++ t) = q ++ a ++ r ++ t := by
    rw [List.append_assoc, List.append_assoc, List.append_assoc]
  have hcs : cbcEncrypt (Vector.zipWith op) E iv (cutN b (k + n) (q ++ a)) =
      cbcEncrypt (Vector.zipWith op) E iv (cutN b k q) ++ cbcEncrypt (Vector.zipWith op) E
        (chain iv (cbcEncrypt (Vector.zipWith op) E iv (cutN b k q))) (cutN b n a) := by
    rw [cutN_append hp, cbcEncrypt_append]
  rw [hassoc, steal_eq hqa hr h0 ht hcs.symm rfl rfl, steal_eq ha hr h0 ht rfl rfl rfl,
    chain_append, join_append, List.append_assoc, List.append_assoc, List.append_assoc]

theorem unsteal_append (hb : 0 < b) (hp : q.length = k * b) (h : b < l.length) :
    unsteal op D iv (q ++ l) = join (cbcDecrypt (Vector.zipWith op) D iv (cutN b k q)) ++
      unsteal op D (chain iv (cutN b k q)) l := by
  obtain ⟨n, a, r, t, rfl, ha, hr, h0, ht⟩ := split_last hb h
  have hqa : (q ++ a).length = (k + n) * b := by rw [List.length_append, hp, ha, Nat.add_mul]
  have hassoc : q ++ (a ++ r ++ t) = q ++ a ++ r ++ t := by
    rw [List.append_assoc, List.append_assoc, List.append_assoc]
  rw [hassoc, unsteal_eq hqa hr h0 ht, unsteal_eq ha hr h0 ht, cutN_append hp, cbcDecrypt_append,
    chain_append, join_append, List.append_assoc]

end

end Lib.Cbc
