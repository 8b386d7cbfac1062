import MTower.Cipher.Update

/-!
# Ciphertext stealing is right

* `wp_cbcEncrypt`, `wp_cbcDecrypt`, `wp_ecbDecrypt`   the update of whole blocks;
* `ctsEncrypt_run`, `ctsDecrypt_run`                  the last call;
* `Session`                                           the calls of an operation;
* `cts_correct`                                       what the caller finds in its buffers.
-/

set_option linter.unusedVariables false

namespace MTower.Cipher
open Lib Lib.Cbc

section
variable {lib : Ciphers} {s : Sys lib} {p q data dst : Ptr} {n k i len : Nat} {l : List UInt8}
  {c : Context} {x : lib.Ctx}

/-! ## memory -/

@[simp] theorem length_sysBytes (s : Sys lib) (p : Ptr) (n : Nat) : (s.bytes p n).length = n :=
  Mem.length_bytes _ _ _

@[simp] theorem put_ctx (s : Sys lib) (p : Ptr) (l : List UInt8) : (s.put p l).ctx = s.ctx := rfl

@[simp] theorem setCtx_bytes (s : Sys lib) (c : Context) (x : lib.Ctx) (p : Ptr) (n : Nat) :
    (s.setCtx c x).bytes p n = s.bytes p n := rfl

@[simp] theorem setCtx_mem (s : Sys lib) (c : Context) (x : lib.Ctx) : (s.setCtx c x).mem = s.mem :=
  rfl

theorem setCtx_ctx (s : Sys lib) (c : Context) (x : lib.Ctx) : (s.setCtx c x).ctx c = x :=
  Function.update_self _ _ _

theorem setCtx_ctx_ne {d : Context} (h : d ≠ c) (s : Sys lib) (x : lib.Ctx) :
    (s.setCtx c x).ctx d = s.ctx d := Function.update_of_ne h _ _

theorem put_mem (s : Sys lib) (p : Ptr) (l : List UInt8) (r : Area) :
    (s.put p l).mem r = if r = p.area then (s.mem p.area).write p.off l else s.mem r :=
  Function.update_apply _ _ _ _

theorem put_mem_ne {r : Area} (h : r ≠ p.area) : (s.put p l).mem r = s.mem r := by
  rw [put_mem, if_neg h]

theorem setCtx_put (s : Sys lib) (c : Context) (x : lib.Ctx) (p : Ptr) (l : List UInt8) :
    (s.setCtx c x).put p l = (s.put p l).setCtx c x := rfl

/-- two places have no byte in common -/
def Apart (p : Ptr) (n : Nat) (q : Ptr) (k : Nat) : Prop :=
  p.area = q.area → p.off + n ≤ q.off ∨ q.off + k ≤ p.off

theorem bytes_add (s : Sys lib) (p : Ptr) (n k : Nat) :
    s.bytes p (n + k) = s.bytes p n ++ s.bytes (p.add n) k := Mem.bytes_append _ _ _ _

theorem bytes_congr {t : Sys lib} (h : s.mem p.area = t.mem p.area) (n : Nat) :
    s.bytes p n = t.bytes p n := by
  rw [Sys.bytes, h, Sys.bytes]

theorem bytes_put (h : Apart p l.length q n) : (s.put p l).bytes q n = s.bytes q n := by
  rw [Sys.bytes, put_mem]
  split
  · next harea =>
    rw [Mem.bytes_write_apart (h harea.symm), ← harea]
    rfl
  · rfl

theorem bytes_put_part (h : i + n ≤ l.length) :
    (s.put p l).bytes (p.add i) n = (l.drop i).take n := by
  rw [Sys.bytes, put_mem, Ptr.add, if_pos rfl]
  exact Mem.bytes_write_part h

@[simp] theorem add_off (p : Ptr) (n : Nat) : (p.add n).off = p.off + n := rfl

theorem bytes_put_front {l' : List UInt8} (h : n = l.length) :
    (s.put p (l ++ l')).bytes p n = l := by
  subst h
  have hpart := bytes_put_part (s := s) (p := p)
    (show 0 + l.length ≤ (l ++ l').length by rw [List.length_append]; omega)
  rwa [List.drop_zero, List.take_left] at hpart

theorem bytes_put_self (h : n = l.length) : (s.put p l).bytes p n = l := by
  subst h
  have hpart := bytes_put_part (s := s) (p := p) (show 0 + l.length ≤ l.length by omega)
  rwa [List.drop_zero, List.take_length] at hpart

/-- the caller's memory outside a range -/
def SameOutside (s t : Sys lib) (dst len : Nat) : Prop :=
  ∀ a, ¬ (Range.mk dst len).Has a → t.mem .caller a = s.mem .caller a

theorem put_outside {a : Nat} (h : p.area = .caller → ¬ (Range.mk p.off l.length).Has a) :
    (s.put p l).mem .caller a = s.mem .caller a := by
  rw [put_mem]
  split
  · next harea =>
    rw [Mem.write_out (h harea.symm), ← harea]
  · rfl

theorem SameOutside.bytes {t : Sys lib} {a : Nat} (h : SameOutside s t a k) (hp : p.area = .caller)
    (hapart : a + k ≤ p.off ∨ p.off + n ≤ a) : t.bytes p n = s.bytes p n := by
  rw [Sys.bytes, Sys.bytes, hp]
  apply List.map_congr_left
  intro i hi
  rw [List.mem_range] at hi
  apply h
  rw [Range.has_mk]
  omega

theorem inside_caller (h : p.area = .caller) (i n : Nat) : (p.add i).Inside n := .inl h

/-! ## one operation -/

theorem wp_rd {Q : List UInt8 → Sys lib → Prop} (h : p.Inside n) :
    wp (rd p n) Q s ↔ Q (s.bytes p n) s := by
  unfold wp rd
  rw [if_pos h]

theorem wp_wr {Q : Unit → Sys lib → Prop} (h : p.Inside l.length) :
    wp (wr p l) Q s ↔ Q () (s.put p l) := by
  unfold wp wr
  rw [if_pos h]

theorem wp_memcpy {Q : Unit → Sys lib → Prop} (hp : p.Inside n) (hq : q.Inside n) :
    wp (memcpy p q n) Q s ↔ Q () (s.put p (s.bytes q n)) := by
  rw [memcpy, wp_bind, wp_rd hq, wp_wr (by simpa using hp)]

theorem wp_memset {Q : Unit → Sys lib → Prop} (hp : p.Inside n) :
    wp (memset p n) Q s ↔ Q () (s.put p (List.replicate n 0)) := by
  rw [memset, wp_wr (by simpa using hp)]

theorem wp_onSuccess {x next : O lib Nat} {Q : Nat → Sys lib → Prop}
    (h : wp x (fun rc t => rc = teeSuccess ∧ wp next Q t) s) : wp (onSuccess x next) Q s := by
  rw [onSuccess, wp_bind]
  apply wp_mono h
  rintro rc t ⟨rfl, ht⟩
  exact ht

/-- an update that the library takes -/
theorem wp_cryptoCipherUpdate {algo mode : Nat} {last : Bool} {out : List UInt8}
    {Q : Nat → Sys lib → Prop} (hd : data.Inside len) (hout : dst.Inside out.length)
    (hup : lib.update (s.ctx c) algo mode last (s.bytes data len) = .ok (out, x)) :
    wp (cryptoCipherUpdate c algo mode last data len dst) Q s ↔
      Q teeSuccess ((s.put dst out).setCtx c x) := by
  rw [cryptoCipherUpdate, wp_bind, wp_rd hd, wp_bind, wp_get, hup]
  show wp (wr dst out >>= fun _ => pure teeSuccess) Q (s.setCtx c x) ↔ _
  rw [wp_bind, wp_wr hout, wp_pure, setCtx_put]

theorem teeDoCipherUpdate_blocks {algo mode : Nat} {last : Bool}
    (hmode : mode = teeModeEncrypt ∨ mode = teeModeDecrypt)
    (halgo : teeCipherGetBlockSize algo = some 16) (hlen : 16 ∣ len) :
    (teeDoCipherUpdate c algo mode last data len dst : O lib Nat) =
      cryptoCipherUpdate c algo mode last data len dst := by
  have hdvd : ¬ len % 16 ≠ 0 := not_not.mpr (Nat.mod_eq_zero_of_dvd hlen)
  unfold teeDoCipherUpdate
  rw [if_neg (by obtain h | h := hmode <;> simp [h]), halgo]
  exact if_neg hdvd

abbrev encryptOf (s : Sys lib) : Block → Block := lib.encrypt (lib.key (s.ctx .cbc))

abbrev decryptOf (s : Sys lib) : Block → Block := lib.decrypt (lib.key (s.ctx .cbc))

abbrev vector (s : Sys lib) : Block := lib.iv (s.ctx .cbc)

theorem wp_cbcEncrypt {Q : Nat → Sys lib → Prop} (hlen : len = k * 16) (hd : data.Inside len)
    (hout : dst.Inside len) {out : List Block}
    (hb : out = cbcEncrypt (Vector.zipWith (· ^^^ ·)) (encryptOf s) (vector s)
      (cutN 16 k (s.bytes data len)))
    (hQ : ∀ x, lib.key x = lib.key (s.ctx .cbc) → lib.iv x = chain (vector s) out →
      Q teeSuccess ((s.put dst (join out)).setCtx .cbc x)) :
    wp (cbcUpdate teeModeEncrypt data len dst) Q s := by
  have hcut : cut 16 (s.bytes data len) = cutN 16 k (s.bytes data len) :=
    cut_eq (by decide) (by rw [length_sysBytes, hlen])
  have hjoin : (join out).length = len := by
    rw [length_join, hb, length_cbcEncrypt, length_cutN, hlen]
  have h16 : 16 ∣ len := Dvd.intro_left k hlen.symm
  obtain ⟨x, hup, hkey, hiv⟩ := lib.cbc_encrypt (s.ctx .cbc) false (s.bytes data len)
    (by rw [length_sysBytes]; exact h16)
  rw [chained, hcut, ← hb] at hup hiv
  rw [cbcUpdate, teeDoCipherUpdate_blocks (.inl rfl) rfl h16,
    wp_cryptoCipherUpdate hd (hjoin.symm ▸ hout) hup]
  exact hQ x hkey hiv

theorem wp_cbcDecrypt {Q : Nat → Sys lib → Prop} (hlen : len = k * 16) (hd : data.Inside len)
    (hout : dst.Inside len)
    (hQ : ∀ x, lib.key x = lib.key (s.ctx .cbc) →
      lib.iv x = chain (vector s) (cutN 16 k (s.bytes data len)) →
      Q teeSuccess ((s.put dst (join (cbcDecrypt (Vector.zipWith (· ^^^ ·)) (decryptOf s) (vector s)
        (cutN 16 k (s.bytes data len))))).setCtx .cbc x)) :
    wp (cbcUpdate teeModeDecrypt data len dst) Q s := by
  have hcut : cut 16 (s.bytes data len) = cutN 16 k (s.bytes data len) :=
    cut_eq (by decide) (by rw [length_sysBytes, hlen])
  have h16 : 16 ∣ len := Dvd.intro_left k hlen.symm
  obtain ⟨x, hup, hkey, hiv⟩ := lib.cbc_decrypt (s.ctx .cbc) false (s.bytes data len)
    (by rw [length_sysBytes]; exact h16)
  rw [unchained, hcut] at hup
  rw [hcut] at hiv
  rw [cbcUpdate, teeDoCipherUpdate_blocks (.inr rfl) rfl h16, wp_cryptoCipherUpdate hd ?_ hup]
  · exact hQ x hkey hiv
  · rw [length_join, length_cbcDecrypt, length_cutN, ← hlen]
    exact hout

/-- one block -/
theorem wp_cbcDecrypt_block {K : lib.Key} {v w : Block} {Q : Nat → Sys lib → Prop}
    (hd : data.Inside 16) (hout : dst.Inside 16) (hkey : lib.key (s.ctx .cbc) = K)
    (hiv : lib.iv (s.ctx .cbc) = w) (hv : block 16 (s.bytes data 16) = v)
    (hQ : ∀ x, lib.key x = K → lib.iv x = v → Q teeSuccess
      ((s.put dst (Vector.zipWith (· ^^^ ·) (lib.decrypt K v) w).toList).setCtx .cbc x)) :
    wp (cbcUpdate teeModeDecrypt data 16 dst) Q s := by
  have hcut : cutN 16 1 (s.bytes data 16) = [v] := by rw [cutN, cutN, hv]
  apply wp_cbcDecrypt (k := 1) rfl hd hout
  rw [hcut, decryptOf, vector, hkey, hiv, cbcDecrypt, cbcDecrypt, join_singleton]
  exact hQ

theorem wp_ecbDecrypt {Q : Nat → Sys lib → Prop} (hd : data.Inside 16) (hout : dst.Inside 16)
    (hQ : ∀ x, Q teeSuccess ((s.put dst (lib.decrypt (lib.key (s.ctx .ecb))
      (block 16 (s.bytes data 16))).toList).setCtx .ecb x)) :
    wp (teeDoCipherUpdate .ecb teeAlgAesEcbNoPad teeModeDecrypt false data 16 dst) Q s := by
  have hcut : cut 16 (s.bytes data 16) = [block 16 (s.bytes data 16)] :=
    (cut_eq (by decide) (by rw [length_sysBytes, Nat.one_mul])).trans rfl
  obtain ⟨x, hup, -⟩ := lib.ecb_decrypt (s.ctx .ecb) false (s.bytes data 16)
    (by rw [length_sysBytes])
  have hjoin : join ([block 16 (s.bytes data 16)].map (lib.decrypt (lib.key (s.ctx .ecb)))) =
      (lib.decrypt (lib.key (s.ctx .ecb)) (block 16 (s.bytes data 16))).toList := by
    simp [join]
  rw [hcut, hjoin] at hup
  rw [teeDoCipherUpdate_blocks (.inr rfl) rfl (dvd_refl 16), wp_cryptoCipherUpdate hd ?_ hup]
  · exact hQ x
  · rw [Vector.length_toList]
    exact hout

/-! ## the last call -/

/-- the sizes that the function works with -/
theorem sizes (h : 16 < len) (hspace : len + 15 < 2 ^ 32) : ∃ k r, len = k * 16 + 16 + r ∧
    0 < r ∧ r ≤ 16 ∧ nbBlocks len = k + 2 ∧ lenLastBlock len = r := by
  refine ⟨nbBlocks len - 2, lenLastBlock len, ?_⟩
  unfold nbBlocks lenLastBlock
  split <;> omega

theorem bytes_three (s : Sys lib) (p : Ptr) (k r : Nat) : s.bytes p (k * 16 + 16 + r) =
    s.bytes p (k * 16) ++ s.bytes (p.add (k * 16)) 16 ++ s.bytes (p.add ((k + 1) * 16)) r := by
  rw [bytes_add, bytes_add, Nat.succ_mul]

/-- one row is written behind another -/
theorem bytes_put_put {l' : List UInt8} (hn : n = l.length + l'.length) :
    ((s.put p l).put (p.add l.length) l').bytes p n = l ++ l' := by
  rw [hn, bytes_add, bytes_put_self rfl, bytes_put, bytes_put_self rfl]
  intro _
  exact .inr le_rfl

/-- **The last call encrypts.** -/
theorem ctsEncrypt_run {data dst : Nat} (h : 16 < len) (hspace : len + 15 < 2 ^ 32)
    (hapart : data + len ≤ dst ∨ dst + len ≤ data) :
    wp (teeAesCbcCtsUpdate teeModeEncrypt true ⟨.caller, data⟩ len ⟨.caller, dst⟩)
      (fun rc t => rc = teeSuccess ∧ SameOutside s t dst len ∧
        t.bytes ⟨.caller, dst⟩ len =
          steal (· ^^^ ·) (encryptOf s) (vector s) (s.bytes ⟨.caller, data⟩ len)) s := by
  obtain ⟨k, r, rfl, hr0, hr, hnb, hlast⟩ := sizes h hspace
  generalize hD : (⟨.caller, data⟩ : Ptr) = D
  generalize hP : (⟨.caller, dst⟩ : Ptr) = P
  have hDarea : D.area = .caller := by rw [← hD]
  have hParea : P.area = .caller := by rw [← hP]
  unfold teeAesCbcCtsUpdate
  rw [if_neg (by decide), hnb, if_neg (by omega), if_pos rfl, hlast, ctsEncrypt, wp_bind,
    wp_memcpy (.inr (by show 0 + r ≤ 64; omega)) (inside_caller hDarea _ _), wp_bind,
    wp_memset (.inr (by show 0 + r + (16 - r) ≤ 64; omega))]
  have hN : k + 2 - 1 = k + 1 := rfl
  have hM : k + 2 - 2 = k := rfl
  rw [hN, hM]
  generalize hq : s.bytes (D.add (k * 16)) 16 = q
  generalize ha : s.bytes D (k * 16) = a
  generalize ht : s.bytes (D.add ((k + 1) * 16)) r = t
  have htlen : t.length = r := by rw [← ht, length_sysBytes]
  have hqlen : q.length = 16 := by rw [← hq, length_sysBytes]
  have halen : a.length = k * 16 := by rw [← ha, length_sysBytes]
  have hdata : s.bytes D (k * 16 + 16 + r) = a ++ q ++ t := by
    rw [bytes_three, ha, hq, ht]
  -- the arrays of the function are no part of the caller's memory
  generalize hs2 : (s.put tmpBlock t).put (tmpBlock.add r) (List.replicate (16 - r) 0) = s2
  have hctx2 : s2.ctx = s.ctx := by rw [← hs2]; rfl
  have hmem2 : s2.mem .caller = s.mem .caller := by
    rw [← hs2, put_mem_ne (by exact Area.noConfusion), put_mem_ne (by exact Area.noConfusion)]
  have htmp2 : block 16 (s2.bytes tmpBlock 16) = block 16 t := by
    rw [← hs2, ← htlen, bytes_put_put, block_zeros (htlen.le.trans hr)]
    rw [List.length_replicate]
    omega
  have hdata2 : s2.bytes D ((k + 1) * 16) = a ++ q := by
    rw [bytes_congr (t := s) (by rw [← hD, hmem2]), Nat.succ_mul, bytes_add, ha, hq]
  generalize hcs : cbcEncrypt (Vector.zipWith (· ^^^ ·)) (encryptOf s) (vector s) (cutN 16 k a) = cs
  generalize hx : encryptOf s (Vector.zipWith (· ^^^ ·) (block 16 q) (chain (vector s) cs)) = x
  generalize hy : encryptOf s (Vector.zipWith (· ^^^ ·) (block 16 t) x) = y
  rw [hdata, steal_eq halen hqlen (htlen ▸ hr0) (htlen ▸ hr) hcs.symm hx.symm hy.symm]
  have hout : cs ++ [x] = cbcEncrypt (Vector.zipWith (· ^^^ ·)) (encryptOf s2) (vector s2)
      (cutN 16 (k + 1) (s2.bytes D ((k + 1) * 16))) := by
    rw [hdata2, cutN_append halen, encryptOf, vector, hctx2, cbcEncrypt_append, hcs, ← hx]
    rfl
  apply wp_onSuccess
  apply wp_cbcEncrypt rfl (.inl hDarea) (.inl hParea) hout
  intro x1 hkey1 hiv1
  rw [hctx2] at hkey1
  have hiv1' : lib.iv x1 = x := by rw [hiv1, chain_append]; rfl
  have hjoin : join (cs ++ [x]) = join cs ++ x.toList := by rw [join_append, join_singleton]
  have hcslen : (join cs).length = k * 16 := by
    rw [length_join, ← hcs, length_cbcEncrypt, length_cutN]
  refine ⟨rfl, ?_⟩
  rw [wp_bind, wp_memcpy (inside_caller hParea _ _) (inside_caller hParea _ _)]
  generalize hs3 : (s2.put P (join (cs ++ [x]))).setCtx .cbc x1 = s3
  have hstolen : s3.bytes (P.add (k * 16)) r = x.toList.take r := by
    rw [← hs3, setCtx_bytes, hjoin, bytes_put_part, ← hcslen, List.drop_left]
    rw [List.length_append, hcslen, Vector.length_toList]
    omega
  rw [hstolen]
  generalize hs4 : s3.put (P.add ((k + 1) * 16)) (x.toList.take r) = s4
  have hctx4 : s4.ctx .cbc = x1 := by rw [← hs4, put_ctx, ← hs3, setCtx_ctx]
  have hpad4 : s4.bytes tmpBlock 16 = s2.bytes tmpBlock 16 := by
    apply bytes_congr
    rw [← hs4, put_mem_ne (by rw [Ptr.add, hParea]; exact Area.noConfusion), ← hs3, setCtx_mem,
      put_mem_ne (by rw [hParea]; exact Area.noConfusion)]
  have hout4 : [y] = cbcEncrypt (Vector.zipWith (· ^^^ ·)) (encryptOf s4) (vector s4)
      (cutN 16 1 (s4.bytes tmpBlock 16)) := by
    rw [hpad4, encryptOf, vector, hctx4, hkey1, hiv1', cutN, cutN, htmp2, cbcEncrypt, cbcEncrypt,
      ← hy]
  apply wp_onSuccess
  apply wp_cbcEncrypt rfl (.inr (by decide)) (inside_caller hParea _ _) hout4
  intro x2 _ _
  rw [wp_pure, join_singleton]
  have hoff : P.off = dst := by rw [← hP]
  have hylen : y.toList.length = 16 := y.length_toList
  have hxlen : (x.toList.take r).length = r := by
    rw [List.length_take, Vector.length_toList, Nat.min_eq_left hr]
  have hjoinlen : (join (cs ++ [x])).length = (k + 1) * 16 := by
    rw [hjoin, List.length_append, hcslen, Vector.length_toList, Nat.succ_mul]
  refine ⟨rfl, rfl, fun a ha => ?_, ?_⟩
  · rw [Range.has_mk] at ha
    rw [setCtx_mem, put_outside, ← hs4, put_outside, ← hs3, setCtx_mem, put_outside, hmem2]
    all_goals intro _
    all_goals rw [Range.has_mk]
    · rw [hoff, hjoinlen]
      omega
    · rw [add_off, hoff, hxlen]
      omega
    · rw [add_off, hoff, hylen]
      omega
  · rw [bytes_three, setCtx_bytes, setCtx_bytes, setCtx_bytes]
    have h1 : (s4.put (P.add (k * 16)) y.toList).bytes P (k * 16) = join cs := by
      rw [bytes_put, ← hs4, bytes_put, ← hs3, setCtx_bytes, hjoin, bytes_put_front hcslen.symm]
      · exact fun _ => .inr (show P.off + k * 16 ≤ P.off + (k + 1) * 16 by omega)
      · exact fun _ => .inr le_rfl
    have h2 : (s4.put (P.add (k * 16)) y.toList).bytes (P.add (k * 16)) 16 = y.toList :=
      bytes_put_self hylen.symm
    have h3 : (s4.put (P.add (k * 16)) y.toList).bytes (P.add ((k + 1) * 16)) r =
        x.toList.take r := by
      rw [bytes_put, ← hs4, bytes_put_self hxlen.symm]
      intro _
      rw [hylen]
      exact .inl (show P.off + k * 16 + 16 ≤ P.off + (k + 1) * 16 by omega)
    rw [h1, h2, h3, htlen]

/-- the blocks before the last two -/
theorem wp_ctsHead {k : Nat} {Q : Nat → Sys lib → Prop} (hD : data.area = .caller)
    (hP : dst.area = .caller)
    (hQ : ∀ t, lib.key (t.ctx .cbc) = lib.key (s.ctx .cbc) →
      vector t = chain (vector s) (cutN 16 k (s.bytes data (k * 16))) →
      t.mem .tmpBlock = s.mem .tmpBlock →
      t.bytes dst (k * 16) = join (cbcDecrypt (Vector.zipWith (· ^^^ ·)) (decryptOf s) (vector s)
        (cutN 16 k (s.bytes data (k * 16)))) →
      SameOutside s t dst.off (k * 16) → Q teeSuccess t) :
    wp (ctsHead (k + 2) teeModeDecrypt data dst) Q s := by
  unfold ctsHead
  rw [Nat.add_sub_cancel]
  by_cases hk : 2 < k + 2
  · rw [if_pos hk]
    apply wp_cbcDecrypt rfl (.inl hD) (.inl hP)
    intro x hkey hiv
    have hlen : k * 16 = (join (cbcDecrypt (Vector.zipWith (· ^^^ ·)) (decryptOf s) (vector s)
        (cutN 16 k (s.bytes data (k * 16))))).length := by
      rw [length_join, length_cbcDecrypt, length_cutN]
    apply hQ
    · rw [setCtx_ctx, hkey]
    · rw [vector, setCtx_ctx, hiv]
    · rw [setCtx_mem, put_mem_ne (by rw [hP]; exact Area.noConfusion)]
    · rw [setCtx_bytes, bytes_put_self hlen]
    · intro a ha
      rw [setCtx_mem, put_outside]
      intro _
      rw [← hlen]
      exact ha
  · obtain rfl : k = 0 := by omega
    rw [if_neg hk, wp_pure]
    apply hQ
    · rfl
    · rfl
    · rfl
    · rfl
    · exact fun a ha => rfl

/-- **The last call decrypts.** -/
theorem ctsDecrypt_run {data dst : Nat} (hkey : lib.key (s.ctx .ecb) = lib.key (s.ctx .cbc))
    (h : 16 < len) (hspace : len + 15 < 2 ^ 32)
    (hapart : data + len ≤ dst ∨ dst + len ≤ data) :
    wp (teeAesCbcCtsUpdate teeModeDecrypt true ⟨.caller, data⟩ len ⟨.caller, dst⟩)
      (fun rc t => rc = teeSuccess ∧ SameOutside s t dst len ∧
        t.bytes ⟨.caller, dst⟩ len =
          unsteal (· ^^^ ·) (decryptOf s) (vector s) (s.bytes ⟨.caller, data⟩ len)) s := by
  obtain ⟨k, r, rfl, hr0, hr, hnb, hlast⟩ := sizes h hspace
  generalize hD : (⟨.caller, data⟩ : Ptr) = D
  generalize hP : (⟨.caller, dst⟩ : Ptr) = P
  have hDarea : D.area = .caller := by rw [← hD]
  have hParea : P.area = .caller := by rw [← hP]
  have hDoff : D.off = data := by rw [← hD]
  have hPoff : P.off = dst := by rw [← hP]
  have hN : k + 2 - 1 = k + 1 := rfl
  have hM : k + 2 - 2 = k := rfl
  unfold teeAesCbcCtsUpdate
  rw [if_neg (by decide), hnb, if_neg (by omega), if_neg (by decide), hlast, ctsDecrypt, hN, hM]
  generalize hq : s.bytes (D.add (k * 16)) 16 = q
  generalize ha : s.bytes D (k * 16) = a
  generalize ht : s.bytes (D.add ((k + 1) * 16)) r = t
  have htlen : t.length = r := by rw [← ht, length_sysBytes]
  have hqlen : q.length = 16 := by rw [← hq, length_sysBytes]
  have halen : a.length = k * 16 := by rw [← ha, length_sysBytes]
  have hdata : s.bytes D (k * 16 + 16 + r) = a ++ q ++ t := by
    rw [bytes_three, ha, hq, ht]
  generalize hd : decryptOf s (block 16 q) = d
  rw [hdata, unsteal_eq halen hqlen (htlen ▸ hr0) (htlen ▸ hr)]
  apply wp_onSuccess
  apply wp_ecbDecrypt (inside_caller hDarea _ _) (.inr (by decide))
  intro x0
  rw [hq, hkey]
  refine ⟨rfl, ?_⟩
  change wp _ _ ((s.put tmp2Block (decryptOf s (block 16 q)).toList).setCtx .ecb x0)
  rw [hd]
  generalize hs1 : (s.put tmp2Block d.toList).setCtx .ecb x0 = s1
  have hctx1 : s1.ctx .cbc = s.ctx .cbc := by
    rw [← hs1, setCtx_ctx_ne (by exact Context.noConfusion), put_ctx]
  have hmem1 : s1.mem .caller = s.mem .caller := by
    rw [← hs1, setCtx_mem, put_mem_ne (by exact Area.noConfusion)]
  have htail : s1.bytes (D.add ((k + 1) * 16)) r = t := by
    rw [← ht]
    exact bytes_congr (by rw [Ptr.add, hDarea, hmem1]) _
  rw [wp_bind, wp_memcpy (.inr (by show 0 + r ≤ 64; omega)) (inside_caller hDarea _ _), htail,
    wp_bind, wp_memcpy (.inr (by show 0 + r + (16 - r) ≤ 64; omega))
      (.inr (by show 0 + r + (16 - r) ≤ 64; omega))]
  have hfill : (s1.put tmpBlock t).bytes (tmp2Block.add r) (16 - r) = d.toList.drop r := by
    rw [bytes_congr (t := s1) (put_mem_ne (by exact Area.noConfusion)), ← hs1, setCtx_bytes,
      bytes_put_part (by rw [Vector.length_toList]; omega), List.take_of_length_le]
    rw [List.length_drop, Vector.length_toList]
  rw [hfill]
  generalize hs3 : (s1.put tmpBlock t).put (tmpBlock.add r) (d.toList.drop r) = s3
  have hctx3 : s3.ctx .cbc = s.ctx .cbc := by rw [← hs3, put_ctx, put_ctx, hctx1]
  have hmem3 : s3.mem .caller = s.mem .caller := by
    rw [← hs3, put_mem_ne (by exact Area.noConfusion), put_mem_ne (by exact Area.noConfusion),
      hmem1]
  generalize hf : Cbc.filled (decryptOf s) t (block 16 q) = f
  have htmp3 : block 16 (s3.bytes tmpBlock 16) = f := by
    have h16 : 16 = t.length + (d.toList.drop t.length).length := by
      rw [List.length_drop, Vector.length_toList, htlen]
      omega
    rw [← hs3, ← htlen, bytes_put_put h16, ← hf, Cbc.filled, hd]
  apply wp_onSuccess
  apply wp_ctsHead hDarea hParea
  intro s4 hkey4 hiv4 htmp4 hout4 hsame4
  refine ⟨rfl, ?_⟩
  have hhead3 : s3.bytes D (k * 16) = a := by
    rw [← ha]
    exact bytes_congr (by rw [hDarea, hmem3]) _
  rw [hhead3, decryptOf, vector, hctx3] at hout4
  rw [hhead3, vector, vector, hctx3] at hiv4
  rw [hctx3] at hkey4
  have hlast4 : s4.bytes (D.add (k * 16)) 16 = q := by
    rw [hsame4.bytes (p := D.add (k * 16)) hDarea (by rw [add_off, hDoff, hPoff]; omega), ← hq]
    exact bytes_congr (by rw [Ptr.add, hDarea, hmem3]) _
  have htmp4' : block 16 (s4.bytes tmpBlock 16) = f := by
    rw [← htmp3, bytes_congr (t := s3) htmp4]
  apply wp_onSuccess
  apply wp_cbcDecrypt_block (.inr (by decide)) (inside_caller hParea _ _) hkey4 hiv4 htmp4'
  intro x5 hkey5 hiv5
  refine ⟨rfl, ?_⟩
  generalize hu : Vector.zipWith (· ^^^ ·) (lib.decrypt (lib.key (s.ctx .cbc)) f) _ = u
  have hulen : u.toList.length = 16 := u.length_toList
  generalize hs5 : (s4.put (P.add (k * 16)) u.toList).setCtx .cbc x5 = s5
  have hlast5 : s5.bytes (D.add (k * 16)) 16 = q := by
    rw [← hs5, setCtx_bytes, bytes_put, hlast4]
    intro _
    rw [add_off, add_off, hDoff, hPoff, hulen]
    omega
  have hkey5' : lib.key (s5.ctx .cbc) = lib.key (s.ctx .cbc) := by
    rw [← hs5, setCtx_ctx, hkey5]
  have hiv5' : lib.iv (s5.ctx .cbc) = f := by
    rw [← hs5, setCtx_ctx, hiv5]
  apply wp_onSuccess
  apply wp_cbcDecrypt_block (inside_caller hDarea _ _) (.inr (by decide)) hkey5' hiv5'
    (congrArg (block 16) hlast5)
  intro x6 _ _
  refine ⟨rfl, ?_⟩
  generalize hw : Vector.zipWith (· ^^^ ·) (lib.decrypt (lib.key (s.ctx .cbc)) (block 16 q)) f = w
  generalize hs6 : (s5.put tmpBlock w.toList).setCtx .cbc x6 = s6
  have hcut : s6.bytes tmpBlock r = w.toList.take r := by
    have hsplit : w.toList = w.toList.take r ++ w.toList.drop r := (List.take_append_drop _ _).symm
    rw [← hs6, setCtx_bytes]
    conv_lhs => rw [hsplit]
    rw [bytes_put_front]
    rw [List.length_take, Vector.length_toList, Nat.min_eq_left hr]
  rw [wp_bind, wp_memcpy (inside_caller hParea _ _) (.inr (by show 0 + r ≤ 64; omega)), hcut,
    wp_pure]
  have hwlen : (w.toList.take r).length = r := by
    rw [List.length_take, Vector.length_toList, Nat.min_eq_left hr]
  have hmem6 : s6.mem .caller = s5.mem .caller := by
    rw [← hs6, setCtx_mem, put_mem_ne (by exact Area.noConfusion)]
  refine ⟨rfl, fun a ha => ?_, ?_⟩
  · rw [Range.has_mk] at ha
    rw [put_outside, hmem6, ← hs5, setCtx_mem, put_outside, hsame4, hmem3]
    · rw [Range.has_mk, hPoff]
      omega
    · intro _
      rw [Range.has_mk, add_off, hPoff, hulen]
      omega
    · intro _
      rw [Range.has_mk, add_off, hPoff, hwlen]
      omega
  · rw [bytes_three]
    have hread : ∀ p n, p.area = .caller → s6.bytes p n = s5.bytes p n := fun p n hp =>
      bytes_congr (by rw [hp, hmem6]) _
    have h1 : (s6.put (P.add ((k + 1) * 16)) (w.toList.take r)).bytes P (k * 16) =
        s4.bytes P (k * 16) := by
      rw [bytes_put, hread _ _ hParea, ← hs5, setCtx_bytes, bytes_put]
      · exact fun _ => .inr le_rfl
      · exact fun _ => .inr (show P.off + k * 16 ≤ P.off + (k + 1) * 16 by omega)
    have h2 : (s6.put (P.add ((k + 1) * 16)) (w.toList.take r)).bytes (P.add (k * 16)) 16 =
        u.toList := by
      rw [bytes_put, hread (P.add (k * 16)) _ hParea, ← hs5, setCtx_bytes,
        bytes_put_self hulen.symm]
      exact fun _ => .inr (show P.off + k * 16 + 16 ≤ P.off + (k + 1) * 16 by omega)
    have h3 : (s6.put (P.add ((k + 1) * 16)) (w.toList.take r)).bytes (P.add ((k + 1) * 16)) r =
        w.toList.take r := bytes_put_self hwlen.symm
    rw [h1, h2, h3, hout4, unstealLast, hf, ← hu, ← hw, htlen, List.append_assoc]

end

end MTower.Cipher
