import MTower.Cryp.Decode

/-!
# The codec of attributes

The `to_binary` functions share a running offset and are used in three modes: to find out the
size, to fill a buffer, and to fill as much of a buffer as fits.

* `opAttrSecretValueToBinary`, `opAttrBignumToBinary`  the encoders;
* `toBinary_eq`        they write the records of the values, `Fields.puts`;
* `fromBinary_takes`   the decoders read such a record back;
* `codec_round_trip`   the three modes and the round trip, for a list of attributes.
-/

set_option linter.unusedVariables false

namespace MTower.Cryp
open Lib Kernel
open Lib.Fields (bytesAt blit be32 record records puts Carries Cursor)

/-! ## the encoders -/

/-- `crypto_bignum_num_bytes` and `crypto_bignum_bn2bin` -/
structure BignumWriter where
  numBytes : Nat → Nat
  bn2bin : Nat → List UInt8

/-- `l` to `data + offs`, when there is a buffer and `n` more bytes fit -/
def writeData (dataLen offs n : Nat) (l : List UInt8) (data : Option (Nat → UInt8)) :
    Option (Nat → UInt8) :=
  if offs + n ≤ dataLen then data.map fun d => blit d offs l else data

/-- the result, and the buffer with the next offset; `data` is `none` for `NULL` -/
def opU32ToBinaryHelper (v dataLen : Nat) (c : Cursor) : Nat × Cursor :=
  if 2 ^ 32 ≤ c.offs + 4 then (teeErrorOverflow, c)
  else (teeSuccess, ⟨writeData dataLen c.offs 4 (be32 v) c.data, c.offs + 4⟩)

def opAttrSecretValueToBinary (attr dataLen : Nat) (c : Cursor) : C (Nat × Cursor) := do
  match ← blockAt attr with
  | .attr _ (.secret k _ bytes) =>
    let r := opU32ToBinaryHelper k dataLen c
    if r.1 ≠ teeSuccess then pure r
    else if 2 ^ 32 ≤ r.2.offs + k then pure (teeErrorOverflow, r.2)
    else if r.2.data.isSome ∧ r.2.offs + k ≤ dataLen ∧ bytes.length < k then throw .outOfBounds
    else
      pure (teeSuccess, ⟨writeData dataLen r.2.offs k (bytes.take k) r.2.data, r.2.offs + k⟩)
  | _ => throw .danglingPointer

def opAttrBignumToBinary (e : BignumWriter) (attr : Nat) (m : Member) (dataLen : Nat)
    (c : Cursor) : C (Nat × Cursor) := do
  let bn ← memberAt attr m
  let v ← bignumAt bn
  let n := e.numBytes v
  let r := opU32ToBinaryHelper n dataLen c
  if r.1 ≠ teeSuccess then pure r
  else if 2 ^ 32 ≤ r.2.offs + n then pure (teeErrorOverflow, r.2)
  else pure (teeSuccess, ⟨writeData dataLen r.2.offs n (e.bn2bin v) r.2.data, r.2.offs + n⟩)

/-- `attr_ops[ops_index].to_binary`; a value has none -/
def attrToBinary (e : BignumWriter) (attr : Nat) (ta : TypeAttr) (dataLen : Nat) (c : Cursor) :
    C (Nat × Cursor) :=
  match ta.opsIndex with
  | .secret => opAttrSecretValueToBinary attr dataLen c
  | .bignum => opAttrBignumToBinary e attr ta.raw dataLen c
  | .value => throw .nullPointer

/-- an attribute: the block and the entry of the type -/
abbrev Item := Nat × TypeAttr

/-- one attribute after the other, up to the first error -/
def encode (e : BignumWriter) (dataLen : Nat) : List Item → Cursor → C (Nat × Cursor)
  | [], c => pure (teeSuccess, c)
  | x :: l, c => do
    let r ← attrToBinary e x.1 x.2 dataLen c
    if r.1 ≠ teeSuccess then pure r else encode e dataLen l r.2

def decode (p : Provider) (data : Option (Nat → UInt8)) (dataLen : Nat) :
    List Item → Nat → C (Option Nat)
  | [], offs => pure (some offs)
  | x :: l, offs => do
    match ← attrFromBinary p x.1 x.2 data dataLen offs with
    | none => pure none
    | some offs => decode p data dataLen l offs

/-! ## values -/

inductive Value where
  | secret (l : List UInt8)
  | number (v : Nat)
deriving DecidableEq, Repr

def Value.bytes (e : BignumWriter) : Value → List UInt8
  | .secret l => l
  | .number v => e.bn2bin v

/-- `crypto_bignum_num_bytes` gives the length, and `crypto_bignum_bin2bn` inverts
`crypto_bignum_bn2bin` -/
structure Inverts (p : Provider) (e : BignumWriter) (v : Nat) : Prop where
  length : (e.bn2bin v).length = e.numBytes v
  back : ∀ w, p.bin2bn (e.bn2bin v) w = (true, v)

/-- the attribute holds the value, in the block `q` -/
inductive HoldsAt (u : Utc) : Item → Value → Nat → Prop where
  | secret {attr own k n : Nat} {bytes : List UInt8} {ta : TypeAttr} (ops : ta.opsIndex = .secret)
      (block : u.heap.blocks attr = some (.attr own (.secret k n bytes))) (le : k ≤ n)
      (length : bytes.length = n) : HoldsAt u (attr, ta) (.secret (bytes.take k)) attr
  | number {attr own own' bn v : Nat} {x : Attr} {m : Member} {ta : TypeAttr}
      (ops : ta.opsIndex = .bignum) (block : u.heap.blocks attr = some (.attr own x))
      (get : x.get? ta.raw = some bn) (bignum : u.heap.blocks bn = some (.bignum own' m v)) :
      HoldsAt u (attr, ta) (.number v) bn

def Holds (u : Utc) (x : Item) (v : Value) : Prop := ∃ q, HoldsAt u x v q

/-- the attribute has room for the value, which is stored in the block `q` -/
inductive Takes (u : Utc) : Item → Value → Nat → Prop where
  | secret {attr own k n : Nat} {bytes l : List UInt8} {ta : TypeAttr}
      (ops : ta.opsIndex = .secret)
      (block : u.heap.blocks attr = some (.attr own (.secret k n bytes)))
      (length : bytes.length = n) (room : l.length ≤ n) : Takes u (attr, ta) (.secret l) attr
  | number {attr own own' bn v w : Nat} {x : Attr} {m : Member} {ta : TypeAttr}
      (ops : ta.opsIndex = .bignum) (block : u.heap.blocks attr = some (.attr own x))
      (get : x.get? ta.raw = some bn) (bignum : u.heap.blocks bn = some (.bignum own' m w)) :
      Takes u (attr, ta) (.number v) bn

section
variable {p : Provider} {e : BignumWriter} {u t : Utc} {dataLen : Nat} {c : Cursor}

/-! ## encoding -/

/-- what the two pieces of a record do to the cursor, with the codes of the source -/
def code (r : Bool × Cursor) : Nat × Cursor := (if r.1 then teeSuccess else teeErrorOverflow, r.2)

/-- the records of the values -/
def encoded (e : BignumWriter) (dataLen : Nat) (vs : List Value) (c : Cursor) : Nat × Cursor :=
  code (puts (2 ^ 32) dataLen (Fields.records (vs.map (Value.bytes e))) c)

/-- the continuation that the two encoders share -/
theorem code_record (l : List UInt8) (dataLen : Nat) (c : Cursor) {r : Nat × Cursor}
    (hr : r = opU32ToBinaryHelper l.length dataLen c) :
    (if r.1 ≠ teeSuccess then r
      else if 2 ^ 32 ≤ r.2.offs + l.length then (teeErrorOverflow, r.2)
      else (teeSuccess, ⟨writeData dataLen r.2.offs l.length l r.2.data, r.2.offs + l.length⟩)) =
    code (puts (2 ^ 32) dataLen (record l) c) := by
  subst hr
  rw [record, puts, Fields.length_be32, opU32ToBinaryHelper]
  by_cases h4 : 2 ^ 32 ≤ c.offs + 4
  · rw [if_pos h4, if_pos h4]
    rfl
  · rw [if_neg h4, if_neg h4, puts]
    by_cases hl : 2 ^ 32 ≤ c.offs + 4 + l.length
    · have hl' : 2 ^ 32 ≤ (c.advance dataLen (be32 l.length)).offs + l.length := hl
      rw [if_pos hl']
      exact if_pos hl
    · have hl' : ¬ 2 ^ 32 ≤ (c.advance dataLen (be32 l.length)).offs + l.length := hl
      rw [if_neg hl']
      exact if_neg hl

/-- **An encoder writes the record of its value.** -/
theorem toBinary_eq {x : Item} {v : Value} (hx : Holds u x v)
    (hv : ∀ w, v = .number w → (e.bn2bin w).length = e.numBytes w)
    {Q : Nat × Cursor → Utc → Prop} :
    wp (attrToBinary e x.1 x.2 dataLen c) Q u ↔
      Q (code (puts (2 ^ 32) dataLen (record (v.bytes e)) c)) u := by
  obtain ⟨q, hx⟩ := hx
  cases hx with
  | @secret q own k n bytes ta ops block le length =>
    have hlen : (bytes.take k).length = k := by
      rw [List.length_take]
      omega
    have hread : ∀ b : Bool, ∀ m : Nat, ¬ (b ∧ m + k ≤ dataLen ∧ bytes.length < k) := by omega
    rw [← code_record ((Value.secret (bytes.take k)).bytes e) dataLen c rfl]
    simp only [attrToBinary, ops, opAttrSecretValueToBinary, wp_bind, wp_blockAt block,
      Value.bytes, hlen, if_neg (hread _ _)]
    split
    · rfl
    · split <;> rfl
  | @number attr own own' q v x m ta ops block get bignum =>
    rw [← code_record ((Value.number v).bytes e) dataLen c rfl]
    simp only [attrToBinary, ops, opAttrBignumToBinary, wp_bind, wp_memberAt block get,
      wp_bignumAt bignum, Value.bytes, hv v rfl]
    split
    · rfl
    · split <;> rfl

theorem code_append {ls ls' : List (List UInt8)} {Q : Nat × Cursor → Prop} :
    (if (code (puts (2 ^ 32) dataLen ls c)).1 ≠ teeSuccess then
        Q (code (puts (2 ^ 32) dataLen ls c))
      else Q (code (puts (2 ^ 32) dataLen ls' (code (puts (2 ^ 32) dataLen ls c)).2))) ↔
      Q (code (puts (2 ^ 32) dataLen (ls ++ ls') c)) := by
  rw [Fields.puts_append]
  have hbad : teeErrorOverflow ≠ teeSuccess := by decide
  rcases puts (2 ^ 32) dataLen ls c with ⟨_ | _, c'⟩
  · exact iff_of_eq (if_pos hbad)
  · exact iff_of_eq (if_neg (not_not.mpr rfl))

/-- **A list of attributes is written as the list of its records.** -/
theorem encode_eq {l : List Item} {vs : List Value} (hl : List.Forall₂ (Holds u) l vs)
    (hv : ∀ w, Value.number w ∈ vs → (e.bn2bin w).length = e.numBytes w)
    {Q : Nat × Cursor → Utc → Prop} :
    wp (encode e dataLen l c) Q u ↔ Q (encoded e dataLen vs c) u := by
  induction hl generalizing c with
  | nil => exact Iff.rfl
  | @cons x v l vs hx hl ih =>
    have hhead : ∀ w, v = .number w → (e.bn2bin w).length = e.numBytes w :=
      fun w hw => hv w (hw ▸ List.mem_cons_self)
    have htail := fun w hw => hv w (List.mem_cons_of_mem v hw)
    rw [encode, wp_bind, toBinary_eq hx hhead, encoded, List.map_cons, Fields.records_cons,
      ← code_append (Q := fun r => Q r u)]
    split
    · rfl
    · exact ih htail

/-! ## decoding -/

/-- the blocks that a decoder writes -/
def Writable (u : Utc) (q : Nat) : Prop :=
  (∃ own k n bytes, u.heap.blocks q = some (.attr own (.secret k n bytes))) ∨
    ∃ own m v, u.heap.blocks q = some (.bignum own m v)

/-- no bignum is found through them -/
theorem Writable.ne {q attr own bn : Nat} {x : Attr} {m : Member} (h : Writable u q)
    (hb : u.heap.blocks attr = some (.attr own x)) (hg : x.get? m = some bn) : attr ≠ q := by
  intro e
  rw [e] at hb
  rcases h with ⟨own', k, n, bytes, hq⟩ | ⟨own', m', v, hq⟩
  · rw [hb] at hq
    cases hq
    cases hg
  · rw [hb] at hq
    cases hq

theorem Takes.writable {x : Item} {v : Value} {q : Nat} (h : Takes u x v q) : Writable u q := by
  cases h with
  | secret ops block length room => exact Or.inl ⟨_, _, _, _, block⟩
  | number ops block get bignum => exact Or.inr ⟨_, _, _, bignum⟩

theorem HoldsAt.takes {x : Item} {v : Value} {q : Nat} (h : HoldsAt u x v q) : Takes u x v q := by
  cases h with
  | secret ops block le length =>
    refine .secret ops block length ?_
    rw [List.length_take]
    omega
  | number ops block get bignum => exact .number ops block get bignum

/-- everything but the block `q` is the same -/
def SameBut (q : Nat) (u t : Utc) : Prop :=
  Writable u q ∧ ∀ r, r ≠ q → t.heap.blocks r = u.heap.blocks r

theorem Takes.frame {x : Item} {v : Value} {q q' : Nat} (h : Takes u x v q') (hs : SameBut q u t)
    (hne : q' ≠ q) : Takes t x v q' := by
  cases h with
  | secret ops block length room =>
    exact .secret ops ((hs.2 _ hne).trans block) length room
  | number ops block get bignum =>
    exact .number ops ((hs.2 _ (hs.1.ne block get)).trans block) get
      ((hs.2 _ hne).trans bignum)

theorem HoldsAt.frame {x : Item} {v : Value} {q q' : Nat} (h : HoldsAt u x v q')
    (hs : SameBut q u t) (hne : q' ≠ q) : HoldsAt t x v q' := by
  cases h with
  | secret ops block le length =>
    exact .secret ops ((hs.2 _ hne).trans block) le length
  | number ops block get bignum =>
    exact .number ops ((hs.2 _ (hs.1.ne block get)).trans block) get
      ((hs.2 _ hne).trans bignum)

/-- two attributes in one block hold the same value -/
theorem HoldsAt.shared {x y : Item} {v : Value} {q : Nat} (h : HoldsAt t x v q)
    (hy : Takes u y v q) (hs : SameBut q u t) : HoldsAt t y v q := by
  cases h with
  | secret ops block le length =>
    cases hy with
    | secret ops' block' length' room => exact .secret ops' block le length
  | number ops block get bignum =>
    cases hy with
    | number ops' block' get' bignum' =>
      exact .number ops' ((hs.2 _ (hs.1.ne block' get')).trans block') get' bignum

/-- **A decoder reads the record of a value back.** -/
theorem fromBinary_takes {x : Item} {v : Value} {q : Nat} {d : Nat → UInt8} {offs : Nat}
    (hx : Takes u x v q) (hv : ∀ w, v = .number w → Inverts p e w) (hlen : dataLen < 2 ^ 32)
    (hin : offs + 4 + (v.bytes e).length ≤ dataLen)
    (hcount : countAt d offs = (v.bytes e).length)
    (hbytes : bytesAt d (offs + 4) (v.bytes e).length = v.bytes e)
    {Q : Option Nat → Utc → Prop}
    (hQ : ∀ t, HoldsAt t x v q → SameBut q u t →
      Q (some (offs + 4 + (v.bytes e).length)) t) :
    wp (attrFromBinary p x.1 x.2 (some d) dataLen offs) Q u := by
  have hw := hx.writable
  have hsame : ∀ b, SameBut q u (u.store q b) := by
    refine fun b => ⟨hw, fun r hr => ?_⟩
    rw [Utc.store_blocks, if_neg hr]
  cases hx with
  | @secret q own k n bytes l ta ops block length room =>
    have hin' : offs + 4 + l.length ≤ dataLen := hin
    have hcount' : countAt d offs = l.length := hcount
    have hbytes' : bytesAt d (offs + 4) l.length = l := hbytes
    rw [attrFromBinary, ops]
    show wp (opAttrSecretValueFromBinary q (some d) dataLen offs) Q u
    rw [opAttrSecretValueFromBinary_exact block length hlen (by omega), hcount', hbytes',
      if_pos (by omega), if_neg (by omega), if_pos hin']
    refine hQ _ ?_ (hsame _)
    have hnew : (u.store q (.attr own (.secret l.length n (l ++ bytes.drop l.length)))).heap.blocks
        q = some (.attr own (.secret l.length n (l ++ bytes.drop l.length))) := by
      rw [Utc.store_blocks, if_pos rfl]
    have hlength : (l ++ bytes.drop l.length).length = n := by
      rw [List.length_append, List.length_drop]
      omega
    have hheld := HoldsAt.secret ops hnew room hlength
    rwa [List.take_left] at hheld
  | @number attr own own' q v w x m ta ops block get bignum =>
    have hin' : offs + 4 + (e.bn2bin v).length ≤ dataLen := hin
    have hcount' : countAt d offs = (e.bn2bin v).length := hcount
    have hbytes' : bytesAt d (offs + 4) (e.bn2bin v).length = e.bn2bin v := hbytes
    rw [attrFromBinary, ops]
    show wp (opAttrBignumFromBinary p attr ta.raw (some d) dataLen offs) Q u
    rw [opAttrBignumFromBinary_exact block get bignum hlen (by omega), hcount', hbytes',
      (hv v rfl).back, if_pos (by omega), if_pos hin']
    refine hQ _ ?_ (hsame _)
    have hblock := ((hsame (.bignum own' m v)).2 _ (hw.ne block get)).trans block
    have hnew : (u.store q (.bignum own' m v)).heap.blocks q = some (.bignum own' m v) := by
      rw [Utc.store_blocks, if_pos rfl]
    exact .number ops hblock get hnew

/-- the length of the records of the values -/
def size (e : BignumWriter) (vs : List Value) : Nat :=
  (Fields.records (vs.map (Value.bytes e))).flatten.length

theorem size_cons (e : BignumWriter) (v : Value) (vs : List Value) :
    size e (v :: vs) = 4 + (v.bytes e).length + size e vs := by
  rw [size, List.map_cons, Fields.records_cons, List.flatten_append, List.length_append,
    Fields.length_record]
  rfl

/-- attributes with values that they take and the blocks these go to; two attributes in one
block take the same value -/
structure Targets (u : Utc) (l : List (Item × Value × Nat)) : Prop where
  takes : ∀ a ∈ l, Takes u a.1 a.2.1 a.2.2
  shared : ∀ a ∈ l, ∀ b ∈ l, a.2.2 = b.2.2 → a.2.1 = b.2.1

theorem Targets.tail {a : Item × Value × Nat} {l : List (Item × Value × Nat)}
    (h : Targets u (a :: l)) (ha : HoldsAt t a.1 a.2.1 a.2.2) (hs : SameBut a.2.2 u t) :
    Targets t l := by
  constructor
  · intro b hb
    have htb := h.takes b (List.mem_cons_of_mem a hb)
    by_cases hq : b.2.2 = a.2.2
    · have hv := h.shared b (List.mem_cons_of_mem a hb) a List.mem_cons_self hq
      rw [hq, hv] at htb ⊢
      exact (ha.shared htb hs).takes
    · exact htb.frame hs hq
  · intro b hb b' hb' hq
    exact h.shared b (List.mem_cons_of_mem a hb) b' (List.mem_cons_of_mem a hb') hq

theorem HoldsAt.unique {x y : Item} {v w : Value} {q : Nat} (h : HoldsAt u x v q)
    (h' : HoldsAt u y w q) : v = w := by
  cases h with
  | secret ops block le length =>
    cases h' with
    | secret ops' block' le' length' =>
      rw [block] at block'
      cases block'
      rfl
    | number ops' block' get' bignum' =>
      rw [block] at bignum'
      cases bignum'
  | number ops block get bignum =>
    cases h' with
    | secret ops' block' le' length' =>
      rw [bignum] at block'
      cases block'
    | number ops' block' get' bignum' =>
      rw [bignum] at bignum'
      cases bignum'
      rfl

/-- attributes are targets for the values they hold -/
theorem Targets.self {l : List (Item × Value × Nat)}
    (h : ∀ a ∈ l, HoldsAt u a.1 a.2.1 a.2.2) : Targets u l := by
  refine ⟨fun a ha => (h a ha).takes, fun a ha b hb hq => ?_⟩
  have hab := h a ha
  rw [hq] at hab
  exact hab.unique (h b hb)

/-- **A list of attributes reads its records back.**  What was held before stays, unless another
value was read into its block. -/
theorem decode_takes {l : List (Item × Value × Nat)} {d : Nat → UInt8} {offs : Nat}
    (hl : Targets u l) (hv : ∀ a ∈ l, ∀ w, a.2.1 = .number w → Inverts p e w)
    (hlen : dataLen < 2 ^ 32) (hin : offs + size e (l.map fun a => a.2.1) ≤ dataLen)
    (hc : Carries d ((l.map fun a => a.2.1).map (Value.bytes e)) offs) :
    wp (decode p (some d) dataLen (l.map Prod.fst) offs)
      (fun r t => r = some (offs + size e (l.map fun a => a.2.1)) ∧
        ∀ y v q, HoldsAt u y v q ∨ (y, v, q) ∈ l → (∀ b ∈ l, b.2.2 = q → b.2.1 = v) →
          HoldsAt t y v q) u := by
  induction l generalizing u offs with
  | nil =>
    refine ⟨rfl, fun y v q h _ => ?_⟩
    rcases h with h | h
    · exact h
    · cases h
  | cons a l ih =>
    obtain ⟨hcount, hbytes, hrest⟩ := hc
    rw [List.map_cons, size_cons] at hin
    have htail := fun b hb => hv b (List.mem_cons_of_mem a hb)
    rw [List.map_cons, List.map_cons, size_cons, decode, wp_bind]
    apply fromBinary_takes (hl.takes a List.mem_cons_self) (hv a List.mem_cons_self) hlen
      (by omega) hcount hbytes
    intro t hat hst
    refine wp_mono (ih (hl.tail hat hst) htail (by omega) hrest) ?_
    rintro r w ⟨rfl, hw⟩
    refine ⟨congrArg some (by omega), fun y v q hy hsame => ?_⟩
    have hothers := fun b hb => hsame b (List.mem_cons_of_mem a hb)
    rcases hy with hy | hy
    · apply hw y v q (Or.inl ?_) hothers
      by_cases hq : q = a.2.2
      · have hav := hsame a List.mem_cons_self hq.symm
        subst hq
        rw [← hav] at hy ⊢
        exact hat.shared hy.takes hst
      · exact hy.frame hst hq
    · rcases List.mem_cons.mp hy with rfl | hy
      · exact hw y v q (Or.inl hat) hothers
      · exact hw y v q (Or.inr hy) hothers

theorem encode_ok {l : List Item} {vs : List Value} (hl : List.Forall₂ (Holds u) l vs)
    (hv : ∀ w, Value.number w ∈ vs → Inverts p e w) :
    encode e dataLen l c u = .ok (encoded e dataLen vs c, u) := by
  have hlength := fun w hw => (hv w hw).length
  have hwp : wp (encode e dataLen l c) (fun r t => r = encoded e dataLen vs c ∧ t = u) u :=
    (encode_eq hl hlength).mpr ⟨rfl, rfl⟩
  obtain ⟨r, t, he, rfl, rfl⟩ := wp_iff.mp hwp
  exact he

theorem length_le_size {v : Value} {vs : List Value} (h : v ∈ vs) :
    (v.bytes e).length ≤ size e vs := by
  induction vs with
  | nil => cases h
  | cons w vs ih =>
    rw [size_cons]
    rcases List.mem_cons.mp h with rfl | h
    · omega
    · have hle := ih h
      omega

/-- the result and the final offset, in all three modes -/
theorem encoded_spec (e : BignumWriter) (vs : List Value) (dataLen : Nat)
    (hoffs : c.offs < 2 ^ 32) :
    if 2 ^ 32 ≤ c.offs + size e vs then (encoded e dataLen vs c).1 = teeErrorOverflow
    else (encoded e dataLen vs c).1 = teeSuccess ∧
      (encoded e dataLen vs c).2.offs = c.offs + size e vs := by
  have h := @Fields.puts_spec (2 ^ 32) dataLen c (Fields.records (vs.map (Value.bytes e))) hoffs
  show if 2 ^ 32 ≤ c.offs + size e vs then _ else _
  by_cases ho : 2 ^ 32 ≤ c.offs + size e vs
  · have h1 : (puts (2 ^ 32) dataLen (Fields.records (vs.map (Value.bytes e))) c).1 = false := by
      rwa [if_pos (show 2 ^ 32 ≤ c.offs +
        (Fields.records (vs.map (Value.bytes e))).flatten.length from ho)] at h
    rw [if_pos ho]
    exact if_neg (Bool.eq_false_iff.mp h1)
  · rw [if_neg (show ¬ 2 ^ 32 ≤ c.offs +
      (Fields.records (vs.map (Value.bytes e))).flatten.length from ho)] at h
    rw [if_neg ho]
    exact ⟨if_pos h.1, h.2⟩

/-- a buffer that is large enough carries the records -/
theorem encoded_carries {vs : List Value} {d : Nat → UInt8} {offs : Nat}
    (hin : offs + size e vs ≤ dataLen) (hlen : dataLen < 2 ^ 32) :
    ∃ d', encoded e dataLen vs ⟨some d, offs⟩ = (teeSuccess, ⟨some d', offs + size e vs⟩) ∧
      Carries d' (vs.map (Value.bytes e)) offs := by
  have hputs := Fields.puts_blit (c := ⟨some d, offs⟩) (Fields.records (vs.map (Value.bytes e)))
    rfl hin hlen
  refine ⟨blit d offs (Fields.records (vs.map (Value.bytes e))).flatten, ?_, ?_⟩
  · exact congrArg code hputs
  · apply Fields.carries_blit
    intro b hb
    obtain ⟨v, hv, rfl⟩ := List.mem_map.mp hb
    have hle := length_le_size (e := e) hv
    omega

/-- **The codec.**  A buffer that is large enough is filled with the records of the values, and
whatever attributes the records are read into later have the values then.  Without a buffer the
same offset comes out.  A buffer of any length is written inside only, and an offset that
`size_t` cannot hold is reported. -/
theorem codec_round_trip {l : List Item} {vs : List Value} {offs : Nat}
    (hl : List.Forall₂ (Holds u) l vs) (hv : ∀ w, Value.number w ∈ vs → Inverts p e w)
    (hoffs : offs < 2 ^ 32) :
    (∀ d dataLen, offs + size e vs ≤ dataLen → dataLen < 2 ^ 32 → ∃ d',
      encode e dataLen l ⟨some d, offs⟩ u =
        .ok ((teeSuccess, ⟨some d', offs + size e vs⟩), u) ∧
      ∀ w ts, Targets w ts → ts.map (fun a => a.2.1) = vs →
        wp (decode p (some d') dataLen (ts.map Prod.fst) offs)
          (fun r t => r = some (offs + size e vs) ∧ ∀ a ∈ ts, Holds t a.1 a.2.1) w) ∧
    (∀ dataLen, ∃ r offs', encode e dataLen l ⟨none, offs⟩ u = .ok ((r, ⟨none, offs'⟩), u) ∧
      if 2 ^ 32 ≤ offs + size e vs then r = teeErrorOverflow
      else r = teeSuccess ∧ offs' = offs + size e vs) ∧
    (∀ d dataLen, ∃ r d' offs',
      encode e dataLen l ⟨some d, offs⟩ u = .ok ((r, ⟨some d', offs'⟩), u) ∧
      (∀ i, i < offs ∨ dataLen ≤ i → d' i = d i) ∧
      if 2 ^ 32 ≤ offs + size e vs then r = teeErrorOverflow
      else r = teeSuccess ∧ offs' = offs + size e vs) := by
  refine ⟨?_, ?_, ?_⟩
  · intro d dataLen hin hlen
    obtain ⟨d', hd', hc⟩ := encoded_carries (d := d) hin hlen
    refine ⟨d', by rw [encode_ok hl hv, hd'], ?_⟩
    rintro w ts hts rfl
    have hinv : ∀ a ∈ ts, ∀ v, a.2.1 = .number v → Inverts p e v :=
      fun a ha v hav => hv v (List.mem_map.mpr ⟨a, ha, hav⟩)
    refine wp_mono (decode_takes hts hinv hlen hin hc) ?_
    rintro r t ⟨hr, ht⟩
    exact ⟨hr, fun a ha => ⟨a.2.2, ht a.1 a.2.1 a.2.2 (Or.inr ha) fun b hb hq =>
      hts.shared b hb a ha hq⟩⟩
  · intro dataLen
    have hnone : (encoded e dataLen vs ⟨none, offs⟩).2.data = none :=
      Fields.puts_none (Fields.records (vs.map (Value.bytes e))) ⟨none, offs⟩ rfl
    refine ⟨_, _, ?_, encoded_spec e vs dataLen (c := ⟨none, offs⟩) hoffs⟩
    rw [encode_ok hl hv]
    have hcursor := congrArg
      (fun data => Cursor.mk data (encoded e dataLen vs ⟨none, offs⟩).2.offs) hnone
    exact congrArg (fun c => Except.ok (((encoded e dataLen vs ⟨none, offs⟩).1, c), u)) hcursor
  · intro d dataLen
    obtain ⟨d', hd', hout⟩ : ∃ d', (encoded e dataLen vs ⟨some d, offs⟩).2.data = some d' ∧
        ∀ i, i < offs ∨ dataLen ≤ i → d' i = d i :=
      Fields.puts_outside (Fields.records (vs.map (Value.bytes e))) ⟨some d, offs⟩ rfl
    refine ⟨_, d', _, ?_, hout, encoded_spec e vs dataLen (c := ⟨some d, offs⟩) hoffs⟩
    rw [encode_ok hl hv, ← hd']

/-! ## a sample -/

/-- big endian bytes without leading zeros -/
def sampleWriter : BignumWriter where
  numBytes v := ((be32 v).dropWhile (· == 0)).length
  bn2bin v := (be32 v).dropWhile (· == 0)

def bigEndianProvider : Provider :=
  ⟨fun _ => true, fun _ => true, fun _ => true, fun buffer _ => (true, bigEndian buffer)⟩

/-- two bytes of a secret with room for four, and a key pair with the private value 258 -/
def sampleAttrs : Utc :=
  (((Utc.empty sampleAnswers).store 1 (.attr 9 (.secret 2 4 [7, 8, 0, 0]))).store 2
    (.attr 9 (.ecc 3 4 5 0))).store 3 (.bignum 9 .d 258)

def sampleTargets : List (Item × Value × Nat) :=
  [((1, ⟨teeAttrSecretValue, teeTypeAttrRequired, .secret, .secret⟩), .secret [7, 8], 1),
   ((2, ⟨teeAttrEccPrivateValue, teeTypeAttrRequired, .bignum, .d⟩), .number 258, 3)]

theorem codec_round_trip_sample : ∃ d',
    encode sampleWriter 16 (sampleTargets.map Prod.fst) ⟨some fun _ => 0, 4⟩ sampleAttrs =
      .ok ((teeSuccess, ⟨some d', 16⟩), sampleAttrs) ∧
    wp (decode bigEndianProvider (some d') 16 (sampleTargets.map Prod.fst) 4)
      (fun r t => r = some 16 ∧ ∀ a ∈ sampleTargets, Holds t a.1 a.2.1) sampleAttrs := by
  have h1 : HoldsAt sampleAttrs (1, ⟨teeAttrSecretValue, teeTypeAttrRequired, .secret, .secret⟩)
      (.secret [7, 8]) 1 := by
    have hblock : sampleAttrs.heap.blocks 1 = some (.attr 9 (.secret 2 4 [7, 8, 0, 0])) := rfl
    exact .secret rfl hblock (by decide) rfl
  have h2 : HoldsAt sampleAttrs (2, ⟨teeAttrEccPrivateValue, teeTypeAttrRequired, .bignum, .d⟩)
      (.number 258) 3 := HoldsAt.number rfl rfl rfl rfl
  have hheld : ∀ a ∈ sampleTargets, HoldsAt sampleAttrs a.1 a.2.1 a.2.2 := by
    intro a ha
    rcases List.mem_cons.mp ha with rfl | ha
    · exact h1
    · obtain rfl := List.mem_singleton.mp ha
      exact h2
  have hl : List.Forall₂ (Holds sampleAttrs) (sampleTargets.map Prod.fst)
      [.secret [7, 8], .number 258] := .cons ⟨1, h1⟩ (.cons ⟨3, h2⟩ .nil)
  have hv : ∀ w, Value.number w ∈ [.secret [7, 8], .number 258] →
      Inverts bigEndianProvider sampleWriter w := by
    intro w hw
    have hw' : w = 258 := by simpa using hw
    subst hw'
    exact ⟨rfl, fun _ => rfl⟩
  have hoffs : 4 < 2 ^ 32 := by decide
  obtain ⟨hfull, -, -⟩ := codec_round_trip hl hv hoffs
  obtain ⟨d', henc, hdec⟩ := hfull (fun _ => 0) 16 (by decide) (by decide)
  exact ⟨d', henc, hdec sampleAttrs sampleTargets (Targets.self hheld) rfl⟩

end

end MTower.Cryp
