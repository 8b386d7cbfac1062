import MTower.Wallet.Commands

/-!
# What a command of the wallet touches

* `body_inside`      enough room, and nothing is touched beyond a buffer;
* `body_touches`     a command that ends has touched as many bytes as it needs;
* `respects_iff`     a command respects the buffers only if its types are wrong or there is room.
-/

set_option linter.unusedVariables false

namespace MTower.Wallet.Ta
open Lib Lib.Fields

section
variable {P : Sys → Prop} {e : Env} {d : Draw} {s t : Sys} {f : Fault} {i n : Nat}
  {l : List UInt8} {c : Command} {paramTypes : Nat}

theorem always_stop {α : Type} : Always P (stop f : O α) := fun s h => h

theorem always_orStop_bind {α β : Type} {o : Option α} {g : α → O β}
    (hg : ∀ a, o = some a → Always P (g a)) : Always P (orStop f o >>= g) := by
  cases o with
  | none => exact always_stop
  | some a => exact hg a rfl

theorem always_orStop {α : Type} {o : Option α} : Always P (orStop f o) := by
  cases o with
  | none => exact always_stop
  | some a => exact Always.pure a

/-! ## the parts of a command -/

/-- `P` does not look at the stored keys -/
def Indifferent (P : Sys → Prop) : Prop := ∀ t objects, P t → P { t with objects := objects }

theorem always_storeMasterkey (hP : Indifferent P) : Always P (storeMasterkey d l) := by
  intro s hs
  rw [storeMasterkey, wpx_bind, wpx_modify]
  have ht : P { s with objects := l :: s.objects } := hP s (l :: s.objects) hs
  by_cases hcloses : d.closes = true
  · rw [if_pos hcloses]
    exact ht
  · rw [if_neg hcloses]
    exact ht

theorem always_fromMnemonicToMasterkey (hP : Indifferent P) :
    Always P (fromMnemonicToMasterkey e d l) :=
  always_orStop_bind fun a _ => always_storeMasterkey hP

theorem always_readMasterkey : Always P readMasterkey :=
  Always.get_bind fun s _ => always_orStop

theorem always_getChildren : Always P (getChildren e n) := by
  apply Always.bind always_readMasterkey
  intro ext
  apply always_orStop_bind
  intro sk _
  apply Always.bind always_readMasterkey
  intro ext
  apply always_orStop_bind
  intro pk _
  exact Always.pure (sk, pk)

theorem always_getAccountAddress : Always P (getAccountAddress e n) :=
  Always.bind always_getChildren fun r => Always.pure _

/-! ## inside -/

/-- nothing was touched beyond the sizes of `s`, and they have not changed -/
structure Inside (s t : Sys) : Prop where
  log : ∀ x ∈ t.log, x.len ≤ (s.params x.param).size
  size : ∀ i, (t.params i).size = (s.params i).size

theorem Inside.touch (h : Inside s t) (hn : n ≤ (s.params i).size) : Inside s (t.touch i n) where
  log := by
    intro x hx
    rcases List.mem_append.mp hx with hx | hx
    · exact h.log x hx
    · rw [List.mem_singleton.mp hx]
      exact hn
  size := h.size

theorem inside_indifferent : Indifferent (Inside s) := fun t objects h => ⟨h.log, h.size⟩

theorem readBuffer_inside (hn : n ≤ (s.params i).size) : Always (Inside s) (readBuffer i n) :=
  fun t ht => ht.touch hn

theorem writeBuffer_inside (hl : l.length ≤ (s.params i).size) :
    Always (Inside s) (writeBuffer i l) := by
  intro t ht
  have h := ht.touch hl
  exact ⟨h.log, h.size⟩

theorem setParam_inside {g : Param → Param} (hg : ∀ p, (g p).size = p.size) :
    Always (Inside s) (setParam i g) := by
  intro t ht
  refine ⟨ht.log, fun j => ?_⟩
  show (Function.update t.params i (g (t.params i)) j).size = (s.params j).size
  by_cases hj : j = i
  · subst hj
    rw [Function.update_self, hg, ht.size]
  · rw [Function.update_of_ne hj, ht.size]

theorem signRawTx_inside (hsig : 64 ≤ (s.params 2).size) : Always (Inside s) (signRawTx e n) := by
  apply Always.bind always_getChildren
  intro r
  apply Always.get_bind
  intro t ht
  apply Always.ite
  · intro _
    exact always_stop
  intro _
  apply Always.bind (readBuffer_inside (Nat.le_of_eq (ht.size 1)))
  intro rawtx
  apply Always.ite
  · intro _
    exact always_stop
  intro _
  apply always_orStop_bind
  intro sig _
  apply Always.bind
  · apply writeBuffer_inside
    rw [sig.toList_length]
    exact hsig
  intro _
  exact Always.pure 1

theorem length_getRandomMnemonic {sha256 : List UInt8 → List.Vector UInt8 32} {strength : Nat}
    {entropy : List UInt8} {junk : Nat → UInt8}
    (h : getRandomMnemonic sha256 strength entropy junk = some l) : l.length = mnemonicLength := by
  rw [getRandomMnemonic] at h
  obtain ⟨t, -, hl⟩ := Option.bind_eq_some_iff.mp h
  rw [← Option.some.inj hl, length_bytesAt]

theorem body_inside (h : c.need ≤ (s.params c.memref).size) : Always (Inside s) (c.body e d) := by
  cases c with
  | generate =>
    apply always_orStop_bind
    intro mnemonic hm
    apply Always.bind
    · apply writeBuffer_inside
      rw [length_getRandomMnemonic hm]
      exact h
    intro _
    exact Always.bind (always_fromMnemonicToMasterkey inside_indifferent) fun _ => Always.pure _
  | restore =>
    apply Always.bind (readBuffer_inside h)
    intro mnemonic
    exact Always.bind (always_fromMnemonicToMasterkey inside_indifferent) fun _ => Always.pure _
  | address =>
    apply Always.get_bind
    intro t _
    apply Always.bind always_getAccountAddress
    intro r
    apply Always.bind
    · apply writeBuffer_inside
      rw [List.length_take, r.2.toList_length]
      exact h
    intro _
    exact Always.pure _
  | sign =>
    apply Always.get_bind
    intro t _
    apply Always.bind (signRawTx_inside h)
    intro res
    apply Always.bind
    · apply setParam_inside
      intro p
      by_cases hres : res = 1
      · rw [if_pos hres]
      · rw [if_neg hres]
    intro _
    exact Always.pure _

theorem run_eq : c.run e d paramTypes = checked c.types paramTypes (c.body e d) := by
  cases c <;> rfl

theorem run_inside (h : c.need ≤ (s.params c.memref).size) :
    Always (Inside s) (c.run e d paramTypes) := by
  rw [run_eq]
  apply Always.ite
  · intro _
    exact Always.pure _
  intro _
  apply Always.get_bind
  intro t _
  apply Always.ite
  · intro _
    exact Always.bind (setParam_inside fun p => rfl) fun _ => Always.pure _
  intro _
  exact body_inside h

/-! ## touched -/

/-- `n` bytes of parameter `i` were touched -/
def Touched (i n : Nat) (t : Sys) : Prop := ⟨i, n⟩ ∈ t.log

theorem touched_indifferent : Indifferent (Touched i n) := fun t objects h => h

theorem touch_touched : Touched i n (s.touch i n) := by
  show _ ∈ s.log ++ [_]
  exact List.mem_append_right _ (List.mem_singleton_self _)

theorem setParam_touched {j : Nat} {g : Param → Param} : Always (Touched i n) (setParam j g) :=
  fun t ht => ht

/-- a write of `n` bytes leaves its mark, whatever comes behind it -/
theorem wlp_writeBuffer_bind {α : Type} {g : Unit → O α} (hl : l.length = n)
    (hg : Always (Touched i n) (g ())) :
    wlp (writeBuffer i l >>= g) (fun _ t => Touched i n t) s := by
  subst hl
  rw [wlp_bind]
  show wlp (g ()) _ { s.touch i l.length with mem := s.mem.write (s.params i).buffer l }
  exact wlp_of_wpx (hg _ touch_touched)

theorem wlp_orStop_bind {α β : Type} {o : Option α} {g : α → O β} {Q : β → Sys → Prop}
    (hg : ∀ a, o = some a → wlp (g a) Q s) : wlp (orStop f o >>= g) Q s := by
  cases o with
  | none => trivial
  | some a => exact hg a rfl

theorem signRawTx_touches : wlp (signRawTx e n) (fun _ t => Touched 2 64 t) s := by
  rw [signRawTx, wlp_bind]
  refine wlp_mono (wlp_true _ s) fun r t _ => ?_
  rw [wlp_bind, wlp_get]
  by_cases hnull : (t.params 1).buffer = 0 ∧ (t.params 1).size ≠ 0
  · rw [if_pos hnull]
    trivial
  rw [if_neg hnull, wlp_bind]
  refine wlp_mono (wlp_true _ t) fun rawtx u _ => ?_
  by_cases hsig : (t.params 2).buffer = 0
  · rw [if_pos hsig]
    trivial
  rw [if_neg hsig]
  apply wlp_orStop_bind
  intro sig _
  exact wlp_writeBuffer_bind sig.toList_length (Always.pure 1)

theorem body_touches : wlp (c.body e d) (fun _ t => Touched c.memref c.need t) s := by
  cases c with
  | generate =>
    apply wlp_orStop_bind
    intro mnemonic hm
    apply wlp_writeBuffer_bind (length_getRandomMnemonic hm)
    exact Always.bind (always_fromMnemonicToMasterkey touched_indifferent) fun _ => Always.pure _
  | restore =>
    show wlp (readBuffer 1 mnemonicLength >>= _) _ s
    have hrest : ∀ m, Always (Touched 1 mnemonicLength) (fromMnemonicToMasterkey e d m >>= fun _ =>
        pure teeSuccess) := fun m =>
      Always.bind (always_fromMnemonicToMasterkey touched_indifferent) fun _ => Always.pure _
    rw [wlp_bind]
    show wlp (fromMnemonicToMasterkey e d _ >>= _) _ (s.touch 1 mnemonicLength)
    exact wlp_of_wpx (hrest _ _ touch_touched)
  | address =>
    show wlp (get >>= _) _ s
    rw [wlp_bind, wlp_get, wlp_bind]
    refine wlp_mono (wlp_true _ s) fun r t _ => ?_
    apply wlp_writeBuffer_bind
    · rw [List.length_take, r.2.toList_length]
      rfl
    exact Always.pure _
  | sign =>
    show wlp (get >>= _) _ s
    rw [wlp_bind, wlp_get, wlp_bind]
    refine wlp_mono signRawTx_touches fun res t ht => ?_
    exact wlp_of_wpx (Always.bind setParam_touched (fun _ => Always.pure _) t ht)

/-! ## when a command respects the buffers -/

theorem checked_types {types : Nat} {body : O Nat} (h : paramTypes ≠ types) :
    checked types paramTypes body s = .ok (teeErrorBadParameters, s) := by
  rw [checked, if_pos h]
  rfl

theorem checked_pin {types : Nat} {body : O Nat} (h : paramTypes = types)
    (hpin : (s.params 0).a ≠ 1234) :
    ∃ t, checked types paramTypes body s = .ok (teeSuccess, t) := by
  rw [checked, if_neg (not_not_intro h), bind_of_ok rfl, if_pos hpin]
  exact ⟨_, rfl⟩

theorem checked_body {types : Nat} {body : O Nat} (h : paramTypes = types)
    (hpin : (s.params 0).a = 1234) : checked types paramTypes body s = body s := by
  rw [checked, if_neg (not_not_intro h), bind_of_ok rfl, if_neg (not_not_intro hpin)]

/-- **The buffers of a client are respected** just when its parameter types are not those of the
command, or the buffer has the bytes that the command moves. -/
theorem respects_iff (e : Env) (d : Draw) (paramTypes : Nat) (c : Command) (s : Sys) :
    Respects e d paramTypes c s ↔ paramTypes ≠ c.types ∨ c.need ≤ (s.params c.memref).size := by
  constructor
  · intro h
    by_contra hno
    rw [not_or, not_not, Nat.not_le] at hno
    obtain ⟨htypes, hsize⟩ := hno
    obtain ⟨rc, t, hrun, hrc, -⟩ := h.refuses hsize
    have hins := h.inside
    rw [hrun] at hins
    rw [run_eq] at hrun
    by_cases hpin : (s.fresh.params 0).a = 1234
    · rw [checked_body htypes hpin] at hrun
      have ht : Touched c.memref c.need t := (wlp_of_eq hrun).mp body_touches
      exact Nat.not_le.mpr hsize (hins _ ht)
    · obtain ⟨u, hu⟩ : ∃ u, checked c.types paramTypes (c.body e d) s.fresh = .ok (teeSuccess, u) :=
        checked_pin htypes hpin
      rw [hu] at hrun
      cases hrun
      rcases hrc with hrc | hrc <;> exact absurd hrc (by decide)
  · rintro (htypes | hsize)
    · have hrun : c.run e d paramTypes s.fresh = .ok (teeErrorBadParameters, s.fresh) := by
        rw [run_eq]
        exact checked_types htypes
      refine ⟨?_, fun _ => ⟨_, _, hrun, Or.inr rfl, rfl⟩⟩
      rw [hrun]
      intro x hx
      exact absurd hx List.not_mem_nil
    · have hfresh : Inside s s.fresh := ⟨fun x hx => absurd hx List.not_mem_nil, fun _ => rfl⟩
      exact ⟨((run_inside hsize).endState hfresh).log, fun hlt => absurd hsize (by omega)⟩

/-- a mnemonic is read from a buffer that is said to be empty -/
theorem restore_beyond_empty :
    ¬ Respects someEnv someDraw restoreTypes .restore (someSys (fun _ => 0) 0) := by
  intro h
  have hread : ⟨1, 240⟩ ∈ (endState (Command.run someEnv someDraw restoreTypes .restore
      (someSys (fun _ => 0) 0).fresh)).log := by decide +kernel
  exact absurd (h.inside _ hread) (by decide)

end

end MTower.Wallet.Ta
