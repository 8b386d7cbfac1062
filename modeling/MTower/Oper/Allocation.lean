import MTower.Cryp.Room
import MTower.Oper.Handles

/-!
# Allocating and releasing handles

* `Life`, `life`       the two calls; `liveStep` keeps a record of the handles in use beside them;
* `Exact`              the registry holds exactly the handles in use, each once;
* `AsBefore`           the registry, the lists of the context and all blocks are as they were;
* `Life.Clean`         a call that fails before the handle is registered, or for which every
                       allocation and every request of the kernel is served;
* `exact_run`          along clean calls the registry is exact, and a failed call leaves no trace.

A failure in between leaves the element of the registry behind, and the objects of the keys in the
object list.
-/

set_option linter.unusedVariables false

namespace MTower.Oper
open Lib Kernel Cryp

variable {c : Crypto} {s t : Sys} {h : Nat}

/-! ## runs -/

inductive Life where
  | allocate (algorithm mode maxKeySize : Nat)
  | free (operation : Nat)
deriving DecidableEq, Repr

/-- the result, and the handle that is given out -/
def life (c : Crypto) : Life → O (Nat × Nat)
  | .allocate m k n => teeAllocateOperation c true m k n
  | .free h => do
    teeFreeOperation c h
    pure (teeSuccess, 0)

/-- the handles in use after a call -/
def Life.note (x : Life) (r : Nat × Nat) (live : List Nat) : List Nat :=
  match x with
  | .allocate _ _ _ => if r.1 = teeSuccess then r.2 :: live else live
  | .free h => live.filter (· ≠ h)

/-- a call, with the record of the handles in use -/
def liveStep (c : Crypto) (x : Life) : Exec Stop (Sys × List Nat) (Nat × Nat) :=
  ghost (fun r _ _ live => x.note r live) (life c x)

def Stop.IsPanic : Stop → Prop
  | .panic _ => True
  | .fault _ => False

/-- the registry holds the handles in use, each of them once -/
structure Exact (w : Sys × List Nat) : Prop where
  nodup : w.1.elems.Nodup
  elem : ∀ e ∈ w.1.elems, ∃ h, w.1.frame.Holds e h
  once : ∀ e e' h, w.1.frame.Holds e h → w.1.frame.Holds e' h → e = e'
  iff : ∀ h, Registered w.1 h ↔ h ∈ w.2

/-- no list and no block changed -/
structure AsBefore (s t : Sys) : Prop where
  elems : t.elems = s.elems
  objects : t.utc.objects = s.utc.objects
  crypStates : t.utc.crypStates = s.utc.crypStates
  blocks : t.heap.blocks = s.heap.blocks
  utcBlocks : t.utc.heap.blocks = s.utc.heap.blocks

/-- a call that fails leaves no trace -/
def NoTrace (c : Crypto) (x : Life) (s : Sys) : Prop :=
  wpx Stop.IsPanic (life c x) (fun r t => r.1 ≠ teeSuccess → AsBefore s t) s

/-! ## clean calls -/

/-- the size of each key -/
def keySizeOf (m n : Nat) : Nat := if m = teeAlgAesXts then n / 2 else n

/-- the blocks of the keys -/
def keyBlocks (m : Nat) (a : Setup) : Nat :=
  if teeAlgGetClass m = teeOperationDigest then 0
  else
    match teeSvcFindTypeProps (teeAlgGetKeyType m a.withPrivateKey) with
    | none => 0
    | some tp => if m = teeAlgAesXts then 2 * objBlocks tp else objBlocks tp

/-- every step behind the registration finds what it needs -/
structure Prepares (c : Crypto) (a : Setup) (m n : Nat) (s : Sys) : Prop where
  room : s.heap.Room (if 1 < a.blockSize then 3 else 2)
  key : teeAlgGetClass m ≠ teeOperationDigest → ∃ tp,
    teeSvcFindTypeProps (teeAlgGetKeyType m a.withPrivateKey) = some tp ∧ SizeOk tp (keySizeOf m n)
  supported : Supported c.provider m = true
  memory : s.utc.heap.Room (keyBlocks m a + stateBlocks m)

/-- the call fails before the handle is registered, or has all it needs -/
def Life.Clean (c : Crypto) (x : Life) (s : Sys) : Prop :=
  match x with
  | .free _ => True
  | .allocate m k n => maxKeySizeOk m n = false ∨ setupOf m k = none ∨ ¬ s.heap.Room 2 ∨
      ∃ a, setupOf m k = some a ∧ Prepares c a m n s

/-! ## the state during a run -/

/-- what holds between the calls -/
structure Steady (c : Crypto) (w : Sys × List Nat) : Prop extends Exact w where
  ok : WellFormed w.1
  core : Core c.provider w.1.utc
  handle : ∀ h ∈ w.2, ∃ b, w.1.frame.shapes h = some (.op b)

theorem start_steady {u : Utc} (hu : Core c.provider u) (answers : Nat → Nat) :
    Steady c (Sys.start u answers, []) where
  nodup := List.nodup_nil
  elem := by
    intro e he
    cases he
  once := by
    rintro e e' h ⟨he, -⟩
    cases he
  iff := by
    intro h
    constructor
    · rintro ⟨e, he, -⟩
      cases he
    · intro hm
      cases hm
  ok := start_wellFormed u answers
  core := hu
  handle := by
    intro h hm
    cases hm

theorem Steady.congr {live : List Nat} (hs : Steady c (s, live)) (hf : t.frame = s.frame)
    (hc : Core c.provider t.utc) : Steady c (t, live) where
  nodup := by
    have he : t.elems = s.elems := congrArg Frame.elems hf
    show t.elems.Nodup
    rw [he]
    exact hs.nodup
  elem := by
    have he : t.elems = s.elems := congrArg Frame.elems hf
    show ∀ e ∈ t.elems, ∃ h, t.frame.Holds e h
    rw [he, hf]
    exact hs.elem
  once := by
    show ∀ e e' h, t.frame.Holds e h → t.frame.Holds e' h → e = e'
    rw [hf]
    exact hs.once
  iff := by
    intro h
    show t.frame.Registered h ↔ _
    rw [hf]
    exact hs.iff h
  ok := by
    show t.frame.Ok
    rw [hf]
    exact hs.ok
  core := hc
  handle := by
    show ∀ h ∈ live, ∃ b, t.frame.shapes h = some (.op b)
    rw [hf]
    exact hs.handle

/-! ## releasing -/

theorem wpx_teePanic {α : Type} {code : Nat} {Q : α → Sys → Prop} :
    wpx Stop.IsPanic (teePanic code) Q s := trivial

theorem wpx_sys {α : Type} {x : C α} {Q : α → Sys → Prop}
    (hx : wp x (fun a u => Q a { s with utc := u }) s.utc) : wpx Stop.IsPanic (sys x) Q s := by
  obtain ⟨a, u, e, hq⟩ := wp_iff.mp hx
  rw [wpx_of_eq (sys_ok e)]
  exact hq

theorem stateFree_core {p : Provider} {u : Utc} (hc : Core p u) (st : Nat) :
    wp (uteeCrypStateFree p st) (fun _ t => Core p t) u := by
  rw [uteeCrypStateFree, wp_bind, wp_teeSvcCrypGetState hc]
  by_cases hm : st ∈ u.crypStates
  · obtain ⟨cs, hcs⟩ := hc.stBlock hm
    rw [if_pos hm, if_neg (not_not.mpr rfl), wp_bind]
    exact wp_mono (crypStateFree_spec hc (Utc.st_iff.mpr hcs)) fun _ _ h => h.core
  · rw [if_neg hm, if_pos (by decide)]
    exact hc

/-- the elements that hold an address after the release of `h` -/
theorem released_holds (hw : WellFormed s) {e : Nat} {o : Operation} (he : s.frame.Holds e h)
    (ho : s.heap.blocks h = some (.op o)) (e' x : Nat) :
    (s.released h e o.buffer).frame.Holds e' x ↔ e' ≠ e ∧ s.frame.Holds e' x := by
  have hshape : ∀ q, (s.released h e o.buffer).frame.shapes q =
      if q = h then none else if q = e then none else if q = o.buffer then none
        else s.frame.shapes q := by
    intro q
    rw [released_frame]
    show (((s.frame.erase o.buffer).erase e).erase h).shapes q = _
    rw [erase_shapes, erase_shapes, erase_shapes]
  have helems : (s.released h e o.buffer).frame.elems = s.elems.erase e := rfl
  have hnodup : s.elems.Nodup := hw.nodup
  constructor
  · rintro ⟨hm, hx⟩
    rw [helems, hnodup.mem_erase_iff] at hm
    rw [hshape] at hx
    split at hx
    · cases hx
    · split at hx
      · cases hx
      · split at hx
        · cases hx
        · exact ⟨hm.1, hm.2, hx⟩
  · rintro ⟨hne, hm, hx⟩
    have hxe := frame_elem.mp hx
    have hh : e' ≠ h := by
      rintro rfl
      rw [ho] at hxe
      cases hxe
    refine ⟨?_, ?_⟩
    · rw [helems, hnodup.mem_erase_iff]
      exact ⟨hne, hm⟩
    · rw [hshape, if_neg hh, if_neg hne, if_neg (hw.elem_ne_buffer ho hxe)]
      exact hx

theorem Steady.release {live : List Nat} (hs : Steady c (s, live)) {e : Nat} {o : Operation}
    (he : s.frame.Holds e h) (ho : s.heap.blocks h = some (.op o)) (hc : Core c.provider s.utc) :
    Steady c (s.released h e o.buffer, live.filter (· ≠ h)) := by
  have hw : WellFormed s := hs.ok
  have hh := released_holds hw he ho
  have hnodup : s.elems.Nodup := hs.nodup
  have hop : s.frame.shapes h = some (.op o.buffer) := frame_op.mpr ⟨o, ho, rfl⟩
  refine { nodup := hnodup.erase e, elem := ?_, once := ?_, iff := ?_, ok := hw.released he ho,
           core := hc, handle := ?_ }
  · intro e' hm
    have hm : e' ∈ s.elems.erase e := hm
    obtain ⟨hne, hm⟩ := hnodup.mem_erase_iff.mp hm
    obtain ⟨x, hx⟩ := hs.elem e' hm
    exact ⟨x, (hh e' x).mpr ⟨hne, hx⟩⟩
  · intro e1 e2 x h1 h2
    exact hs.once e1 e2 x ((hh e1 x).mp h1).2 ((hh e2 x).mp h2).2
  · intro x
    have hmem : x ∈ live.filter (· ≠ h) ↔ x ∈ live ∧ x ≠ h := by simp
    show (∃ e', _) ↔ x ∈ live.filter (· ≠ h)
    rw [hmem, ← hs.iff x]
    constructor
    · rintro ⟨e', hx⟩
      obtain ⟨hne, hold⟩ := (hh e' x).mp hx
      refine ⟨⟨e', hold⟩, ?_⟩
      rintro rfl
      exact hne (hs.once e' e x hold he)
    · rintro ⟨⟨e', hx⟩, hne⟩
      refine ⟨e', (hh e' x).mpr ⟨?_, hx⟩⟩
      rintro rfl
      have h1 := hx.2
      rw [he.2] at h1
      cases h1
      exact hne rfl
  · intro x hx
    obtain ⟨hx, hne⟩ : x ∈ live ∧ x ≠ h := by simpa using hx
    obtain ⟨b, hb⟩ := hs.handle x hx
    have h0 : x ≠ 0 := by
      rintro rfl
      rw [Frame.Ok.null hw] at hb
      cases hb
    refine ⟨b, ?_⟩
    show (s.released h e o.buffer).frame.shapes x = _
    rw [released_frame]
    show (((s.frame.erase o.buffer).erase e).erase h).shapes x = _
    rw [erase_shapes, erase_shapes, erase_shapes, if_neg hne, if_neg, if_neg]
    · exact hb
    · rintro rfl
      rw [hw.buffer h o.buffer hop h0] at hb
      cases hb
    · rintro rfl
      rw [he.2] at hb
      cases hb

/-- **The release of a handle.** -/
theorem free_steady {live : List Nat} (hs : Steady c (s, live)) :
    wpx Stop.IsPanic (teeFreeOperation c h) (fun _ t => Steady c (t, live.filter (· ≠ h))) s := by
  have hw : WellFormed s := hs.ok
  by_cases hreg : Registered s h
  · obtain ⟨b, hb⟩ := hs.handle h ((hs.iff h).mp hreg)
    obtain ⟨o, ho, rfl⟩ := frame_op.mp hb
    obtain ⟨res, u, hu, hcu⟩ := wp_iff.mp (stateFree_core hs.core o.state)
    by_cases hr : res = teeSuccess
    · obtain ⟨e, he, hd⟩ := teeFreeOperation_eq hw hreg ho (hr ▸ hu)
      rw [wpx_of_eq hd]
      have hs' : Steady c ({ s with utc := u }, live) := hs.congr rfl hcu
      exact hs'.release he ho hcu
    · have h0 : h ≠ 0 := by
        rintro rfl
        rw [hw.null] at ho
        cases ho
      have hp : teeFreeOperation c h s = .error (.panic res) := by
        unfold teeFreeOperation
        rw [bind_of_ok (unknown_false hw hreg h0), if_neg (by simp), bind_of_ok (opAt_eq ho),
          bind_of_ok (sys_ok hu), if_pos hr]
        rfl
      rw [wpx_of_error hp]
      trivial
  · have hp : teeFreeOperation c h s = .error (.panic 0) :=
      panic_unknown hw hreg rfl
    rw [wpx_of_error hp]
    trivial

/-! ## a handle that is being prepared -/

/-- `t` is `s` with the handle `op` of content `o`, its buffer and its element `e` -/
structure Pending (s : Sys) (op e : Nat) (o : Operation) (t : Sys) : Prop where
  ok : WellFormed t
  elems : t.elems = e :: s.elems
  freshOp : s.heap.blocks op = none
  freshElem : s.heap.blocks e = none
  freshBuffer : o.buffer ≠ 0 → s.heap.blocks o.buffer = none
  handle : t.heap.blocks op = some (.op o)
  elem : t.heap.blocks e = some (.elem op)
  others : ∀ q, q ≠ op → q ≠ e → q ≠ o.buffer → t.heap.blocks q = s.heap.blocks q

section
variable {op e : Nat} {o o' : Operation} {live : List Nat}

theorem Pending.ne (hp : Pending s op e o t) : e ≠ op := by
  rintro rfl
  have h1 := hp.elem
  rw [hp.handle] at h1
  cases h1

theorem Pending.congr {t' : Sys} (hp : Pending s op e o t) (he : t'.elems = t.elems)
    (hb : t'.heap.blocks = t.heap.blocks) : Pending s op e o t' where
  ok := by
    have hf : t'.frame = t.frame := by
      show Frame.mk _ _ = Frame.mk _ _
      rw [he, hb]
    show t'.frame.Ok
    rw [hf]
    exact hp.ok
  elems := he.trans hp.elems
  freshOp := hp.freshOp
  freshElem := hp.freshElem
  freshBuffer := hp.freshBuffer
  handle := by rw [hb]; exact hp.handle
  elem := by rw [hb]; exact hp.elem
  others := by rw [hb]; exact hp.others

/-- other data in the handle -/
theorem Pending.update (hp : Pending s op e o t) (hb : o'.buffer = o.buffer) :
    Pending s op e o' (t.store op (.op o')) where
  ok := by
    have hf : (t.store op (.op o')).frame = t.frame := by
      refine store_frame hp.handle ?_
      show Shape.op _ = Shape.op _
      rw [hb]
    show (t.store op (.op o')).frame.Ok
    rw [hf]
    exact hp.ok
  elems := hp.elems
  freshOp := hp.freshOp
  freshElem := hp.freshElem
  freshBuffer := by rw [hb]; exact hp.freshBuffer
  handle := store_self _
  elem := (store_of_ne _ hp.ne).trans hp.elem
  others := by
    intro q h1 h2 h3
    rw [store_of_ne _ h1]
    exact hp.others q h1 h2 (hb ▸ h3)

theorem Pending.updateOp (hp : Pending s op e o t) {f : Operation → Operation} :
    updateOp op f t = .ok ((), t.store op (.op (f o))) := updateOp_eq hp.handle

theorem Pending.old (hp : Pending s op e o t) (hn : s.heap.blocks 0 = none) {q : Nat} {b : Block}
    (hq : s.heap.blocks q = some b) : q ≠ op ∧ q ≠ e ∧ q ≠ o.buffer ∧
      t.heap.blocks q = some b := by
  have h1 : q ≠ op := by
    rintro rfl
    rw [hp.freshOp] at hq
    cases hq
  have h2 : q ≠ e := by
    rintro rfl
    rw [hp.freshElem] at hq
    cases hq
  have h3 : q ≠ o.buffer := by
    rintro rfl
    by_cases h0 : o.buffer = 0
    · rw [h0, hn] at hq
      cases hq
    · rw [hp.freshBuffer h0] at hq
      cases hq
  exact ⟨h1, h2, h3, (hp.others q h1 h2 h3).trans hq⟩

/-- the elements that hold an address -/
theorem Pending.holds (hp : Pending s op e o t) (hw : WellFormed s) (e' x : Nat) :
    t.frame.Holds e' x ↔ e' = e ∧ x = op ∨ s.frame.Holds e' x := by
  have hmem : e' ∈ t.frame.elems ↔ e' = e ∨ e' ∈ s.elems := by
    show e' ∈ t.elems ↔ _
    rw [hp.elems]
    exact List.mem_cons
  have hself := frame_elem.mpr hp.elem
  constructor
  · rintro ⟨hm, hx⟩
    rcases hmem.mp hm with rfl | hm
    · rw [hself] at hx
      cases hx
      exact .inl ⟨rfl, rfl⟩
    · obtain ⟨y, hy⟩ := hw.readable e' hm
      obtain ⟨-, -, -, hty⟩ := hp.old hw.null hy
      have h1 := frame_elem.mp hx
      rw [hty] at h1
      cases h1
      exact .inr ⟨hm, frame_elem.mpr hy⟩
  · rintro (⟨rfl, rfl⟩ | ⟨hm, hx⟩)
    · exact ⟨hmem.mpr (.inl rfl), hself⟩
    · obtain ⟨-, -, -, hty⟩ := hp.old hw.null (frame_elem.mp hx)
      exact ⟨hmem.mpr (.inr hm), frame_elem.mpr hty⟩

/-- a handle that is given out -/
theorem Pending.steady (hp : Pending s op e o t) (hs : Steady c (s, live))
    (hc : Core c.provider t.utc) : Steady c (t, op :: live) := by
  have hw : WellFormed s := hs.ok
  have hh := hp.holds hw
  have hnodup : s.elems.Nodup := hs.nodup
  have hnew : e ∉ s.elems := hw.readable.notMem hp.freshElem
  have hlive : ∀ x ∈ live, x ≠ op ∧ ∃ b, t.frame.shapes x = some (.op b) := by
    intro x hx
    obtain ⟨b, hb⟩ := hs.handle x hx
    obtain ⟨y, hy, hyb⟩ := frame_op.mp hb
    obtain ⟨h1, -, -, ht⟩ := hp.old hw.null hy
    exact ⟨h1, b, frame_op.mpr ⟨y, ht, hyb⟩⟩
  have hfresh : ¬ Registered s op := by
    intro hr
    obtain ⟨b, hb⟩ := hs.handle op ((hs.iff op).mp hr)
    obtain ⟨y, hy, -⟩ := frame_op.mp hb
    rw [hp.freshOp] at hy
    cases hy
  refine { nodup := ?_, elem := ?_, once := ?_, iff := ?_, ok := hp.ok, core := hc, handle := ?_ }
  · show t.elems.Nodup
    rw [hp.elems]
    exact List.nodup_cons.mpr ⟨hnew, hnodup⟩
  · intro e' hm
    have hm : e' ∈ t.elems := hm
    rw [hp.elems] at hm
    rcases List.mem_cons.mp hm with rfl | hm
    · exact ⟨op, (hh e' op).mpr (.inl ⟨rfl, rfl⟩)⟩
    · obtain ⟨x, hx⟩ := hs.elem e' hm
      exact ⟨x, (hh e' x).mpr (.inr hx)⟩
  · intro e1 e2 x h1 h2
    rcases (hh e1 x).mp h1 with ⟨rfl, rfl⟩ | old1
    · rcases (hh e2 x).mp h2 with ⟨rfl, -⟩ | old2
      · rfl
      · exact absurd ⟨e2, old2⟩ hfresh
    · rcases (hh e2 x).mp h2 with ⟨rfl, rfl⟩ | old2
      · exact absurd ⟨e1, old1⟩ hfresh
      · exact hs.once e1 e2 x old1 old2
  · intro x
    rw [List.mem_cons, ← hs.iff x]
    constructor
    · rintro ⟨e', hx⟩
      rcases (hh e' x).mp hx with ⟨-, rfl⟩ | hx
      · exact .inl rfl
      · exact .inr ⟨e', hx⟩
    · rintro (rfl | ⟨e', hx⟩)
      · exact ⟨e, (hh e x).mpr (.inl ⟨rfl, rfl⟩)⟩
      · exact ⟨e', (hh e' x).mpr (.inr hx)⟩
  · intro x hx
    rcases List.mem_cons.mp hx with rfl | hx
    · exact ⟨o.buffer, frame_op.mpr ⟨o, hp.handle, rfl⟩⟩
    · exact (hlive x hx).2

/-- a handle that is abandoned -/
theorem Pending.undone (hp : Pending s op e o t) (hs : Steady c (s, live)) {u : Utc}
    (hu : uteeCrypStateFree c.provider o.state t.utc = .ok (teeSuccess, u)) :
    ∃ v, teeFreeOperation c op t = .ok ((), v) ∧ v.utc = u ∧ v.elems = s.elems ∧
      v.heap.blocks = s.heap.blocks := by
  have hw : WellFormed s := hs.ok
  have hh := hp.holds hw
  have hreg : Registered t op := ⟨e, (hh e op).mpr (.inl ⟨rfl, rfl⟩)⟩
  obtain ⟨e', he, hd⟩ := teeFreeOperation_eq hp.ok hreg hp.handle hu
  have hfresh : ¬ s.frame.Holds e' op := by
    intro hr
    obtain ⟨b, hb⟩ := hs.handle op ((hs.iff op).mp ⟨e', hr⟩)
    obtain ⟨y, hy, -⟩ := frame_op.mp hb
    rw [hp.freshOp] at hy
    cases hy
  obtain rfl : e' = e := by
    rcases (hh e' op).mp he with ⟨h1, -⟩ | h1
    · exact h1
    · exact absurd h1 hfresh
  refine ⟨_, hd, rfl, ?_, ?_⟩
  · show t.elems.erase e' = s.elems
    rw [hp.elems, List.erase_cons_head]
  · funext q
    show Function.update (Function.update (Function.update t.heap.blocks o.buffer none) e' none) op
      none q = _
    rw [Function.update_apply, Function.update_apply, Function.update_apply]
    split
    · next h1 => rw [h1, hp.freshOp]
    · next h1 =>
      split
      · next h2 => rw [h2, hp.freshElem]
      · next h2 =>
        split
        · next h3 =>
          rw [h3]
          by_cases h0 : o.buffer = 0
          · rw [h0, hw.null]
          · rw [hp.freshBuffer h0]
        · next h3 => exact hp.others q h1 h2 h3

/-! ## the steps of the preparation -/

theorem wpx_andThen {x y : O Nat} {Q : Nat → Sys → Prop}
    (hx : wpx Stop.IsPanic x (fun res t => res = teeSuccess ∧ wpx Stop.IsPanic y Q t) s) :
    wpx Stop.IsPanic (andThen x y) Q s := by
  unfold andThen
  rw [wpx_bind]
  refine wpx_mono hx ?_
  rintro _ t ⟨rfl, ht⟩
  rw [if_neg (not_not.mpr rfl)]
  exact ht

theorem allocBuffer_pending {a : Setup} (hw : WellFormed s) (hp : Pending s op e o t)
    (h0 : o.buffer = 0)
    (hr : 1 < a.blockSize → ¬ t.heap.Full) :
    wpx Stop.IsPanic (allocBuffer op a) (fun res v => res = teeSuccess ∧ v.utc = t.utc ∧
      ∃ b, Pending s op e { o with buffer := b } v) t := by
  by_cases hsz : 1 < a.blockSize
  · have hf := hr hsz
    obtain ⟨hb0, -, hn⟩ := Heap.not_full_iff.mp hf
    generalize hb : t.heap.answers t.heap.calls = b at hb0 hn
    generalize hd : Block.buffer (List.replicate (if a.bufferTwoBlocks then a.blockSize * 2
      else a.blockSize) 0) = d
    have hne : op ≠ b := by
      rintro rfl
      rw [hp.handle] at hn
      cases hn
    have hne' : e ≠ b := by
      rintro rfl
      rw [hp.elem] at hn
      cases hn
    have hop : (t.tick.store b d).heap.blocks op = some (.op o) :=
      (store_of_ne (s := t.tick) d hne).trans hp.handle
    have heq : allocBuffer op a t = .ok (teeSuccess,
        (t.tick.store b d).store op (.op { o with buffer := b })) := by
      unfold allocBuffer
      rw [if_pos hsz, hd, bind_of_ok (malloc_new hf), hb, bind_of_ok (updateOp_eq hop), if_neg hb0]
      rfl
    have hok := allocBuffer_spec (a := a) hp.ok (frame_op.mpr ⟨o, hp.handle, h0⟩)
    rw [wlp_of_eq heq] at hok
    rw [wpx_of_eq heq]
    refine ⟨rfl, rfl, b, ⟨hok.ok, hp.elems, hp.freshOp, hp.freshElem, ?_, store_self _, ?_, ?_⟩⟩
    · intro _
      refine (hp.others b hne.symm hne'.symm ?_).symm.trans hn
      rw [h0]
      exact hb0
    · rw [store_of_ne _ hp.ne]
      exact (store_of_ne (s := t.tick) d hne').trans hp.elem
    · intro q h1 h2 h3
      rw [store_of_ne _ h1]
      refine (store_of_ne (s := t.tick) d h3).trans ?_
      show t.heap.blocks q = _
      by_cases hq : q = 0
      · rw [hq, hp.ok.null, hw.null]
      · exact hp.others q h1 h2 (by rw [h0]; exact hq)
  · have heq : allocBuffer op a t = .ok (teeSuccess, t) := by
      unfold allocBuffer
      rw [if_neg hsz]
      rfl
    rw [wpx_of_eq heq]
    exact ⟨rfl, rfl, o.buffer, hp⟩

theorem setBlockSize_pending {a : Setup} (hp : Pending s op e o t) :
    wpx Stop.IsPanic (setBlockSize op a) (fun res v => res = teeSuccess ∧ v.utc = t.utc ∧
      Pending s op e { o with blockSize := a.blockSize, bufferTwoBlocks := a.bufferTwoBlocks } v)
      t := by
  rw [setBlockSize, wpx_bind, wpx_of_eq hp.updateOp]
  exact ⟨rfl, rfl, hp.update rfl⟩

theorem setInitial_pending (hp : Pending s op e o t) :
    wpx Stop.IsPanic (setInitial op) (fun res v => res = teeSuccess ∧ v.utc = t.utc ∧
      ∃ o', Pending s op e o' v) t := by
  rw [setInitial, wpx_bind, wpx_of_eq hp.updateOp]
  exact ⟨rfl, rfl, _, hp.update rfl⟩

theorem allocKey_pending {tp : TypeProps} {ty size n : Nat} {put : Operation → Nat → Operation}
    (hput : ∀ o k, (put o k).buffer = o.buffer) (hp : Pending s op e o t)
    (hc : Core c.provider t.utc) (htp : teeSvcFindTypeProps ty = some tp) (hs : SizeOk tp size)
    (hr : t.utc.heap.Room (n + objBlocks tp)) :
    wpx Stop.IsPanic (allocKey op ty size put) (fun res v => res = teeSuccess ∧
      Core c.provider v.utc ∧ v.utc.heap.Room n ∧ ∃ o', Pending s op e o' v) t := by
  have hty : ty ≠ teeTypeData := by
    rintro rfl
    rw [show teeSvcFindTypeProps teeTypeData = none by decide] at htp
    cases htp
  rw [allocKey, wpx_bind, teeAllocateTransientObject, wpx_bind]
  refine wpx_sys (wp_mono (wp_and (uteeCrypObjAlloc_spec hc) (uteeCrypObjAlloc_room hty htp hs hr))
    ?_)
  rintro r u ⟨hspec, hok, hru⟩
  obtain ⟨hne, -⟩ | ⟨-, x, -, hadd, -⟩ := hspec
  · exact absurd hok hne
  · have hl : leave [teeSuccess, teeErrorOutOfMemory, teeErrorNotSupported] r.1 =
        (pure teeSuccess : O Nat) := by
      rw [hok]
      exact if_pos (by decide)
    rw [hl, wpx_bind, wpx_pure, wpx_pure, if_neg (not_not.mpr rfl), wpx_bind]
    have hp' : Pending s op e o { t with utc := u } := hp.congr rfl rfl
    rw [wpx_of_eq hp'.updateOp]
    exact ⟨rfl, hadd.core, hru, _, hp'.update (hput _ _)⟩

/-- only one algorithm has two keys -/
theorem expectTwoKeys_iff {m : Nat} (ho : o.info.handleState = handleStateOf m) :
    o.has teeHandleFlagExpectTwoKeys = true ↔ m = teeAlgAesXts := by
  unfold Operation.has
  rw [ho]
  unfold handleStateOf
  by_cases h1 : m = teeAlgAesXts
  · subst h1
    decide
  · rw [if_neg h1]
    by_cases h2 : m ∈ teeAlgDigest
    · rw [if_pos h2]
      exact iff_of_false (by decide) h1
    · rw [if_neg h2]
      exact iff_of_false (by decide) h1

theorem allocKeys_pending {a : Setup} {m n size : Nat} (hp : Pending s op e o t)
    (ho : o.info.handleState = handleStateOf m) (hc : Core c.provider t.utc)
    (hkey : teeAlgGetClass m ≠ teeOperationDigest → ∃ tp,
      teeSvcFindTypeProps (teeAlgGetKeyType m a.withPrivateKey) = some tp ∧
        SizeOk tp (keySizeOf m size))
    (hr : t.utc.heap.Room (keyBlocks m a + n)) :
    wpx Stop.IsPanic (allocKeys op a m size) (fun res v => res = teeSuccess ∧
      Core c.provider v.utc ∧ v.utc.heap.Room n ∧ ∃ o', Pending s op e o' v ∧
      (teeAlgGetClass m = teeOperationDigest → v.utc = t.utc ∧ o' = o)) t := by
  by_cases hd : teeAlgGetClass m = teeOperationDigest
  · rw [allocKeys, if_pos hd, wpx_pure]
    exact ⟨rfl, hc, hr.mono (by omega), o, hp, fun _ => ⟨rfl, rfl⟩⟩
  · obtain ⟨tp, htp, hsize⟩ := hkey hd
    have hblocks : keyBlocks m a =
        if m = teeAlgAesXts then 2 * objBlocks tp else objBlocks tp := by
      rw [keyBlocks, if_neg hd, htp]
    rw [allocKeys, if_neg hd, wpx_bind, wpx_of_eq (opAt_eq hp.handle)]
    by_cases hx : m = teeAlgAesXts
    · rw [if_pos ((expectTwoKeys_iff ho).mpr hx)]
      rw [hblocks, if_pos hx] at hr
      rw [keySizeOf, if_pos hx] at hsize
      refine wpx_andThen (wpx_mono (allocKey_pending (n := objBlocks tp + n) (fun _ _ => rfl) hp hc
        htp hsize (hr.mono (by omega))) ?_)
      rintro res v ⟨rfl, hcv, hrv, o1, hp1⟩
      refine ⟨rfl, wpx_mono (allocKey_pending (n := n) (fun _ _ => rfl) hp1 hcv htp hsize
        (hrv.mono (by omega))) ?_⟩
      rintro res w ⟨rfl, hcw, hrw, o2, hp2⟩
      exact ⟨rfl, hcw, hrw, o2, hp2, fun h => absurd h hd⟩
    · rw [if_neg fun h => hx ((expectTwoKeys_iff ho).mp h)]
      rw [hblocks, if_neg hx] at hr
      rw [keySizeOf, if_neg hx] at hsize
      refine wpx_mono (allocKey_pending (n := n) (fun _ _ => rfl) hp hc htp hsize
        (hr.mono (by omega))) ?_
      rintro res w ⟨rfl, hcw, hrw, o2, hp2⟩
      exact ⟨rfl, hcw, hrw, o2, hp2, fun h => absurd h hd⟩

/-- the state of a digest handle, which leaves no trace in `u` when it is freed -/
structure Undoable (c : Crypto) (m : Nat) (u : Utc) (o : Operation) (t : Sys) : Prop where
  ne_zero : o.state ≠ 0
  state : ∃ cs, t.utc.st o.state = some cs ∧ cs.algo = m
  undo : ∃ v, uteeCrypStateFree c.provider o.state t.utc = .ok (teeSuccess, v) ∧ SameLists u v ∧
    v.heap.blocks = u.heap.blocks

theorem allocState_pending {m k : Nat} (hp : Pending s op e o t) (hc : Core c.provider t.utc)
    (hsup : Supported c.provider m = true) (hr : t.utc.heap.Room (stateBlocks m)) :
    wpx Stop.IsPanic (allocState c op m k) (fun res v => res = teeErrorBadParameters ∨
      res = teeSuccess ∧ Core c.provider v.utc ∧ ∃ o', Pending s op e o' v ∧
      (teeAlgGetClass m = teeOperationDigest → o.key1 = 0 → o.key2 = 0 →
        Undoable c m t.utc o' v)) t := by
  have hroom : wlp (uteeCrypStateAlloc c.provider m k o.key1 o.key2) (fun r _ => Decided r.1) t.utc :=
    uteeCrypStateAlloc_room (n := 0) hsup (hr.mono (by omega))
  rw [allocState, wpx_bind, wpx_of_eq (opAt_eq hp.handle), wpx_bind]
  obtain ⟨r, u, hru, hspec⟩ := wp_iff.mp (show
    wp (uteeCrypStateAlloc c.provider m k o.key1 o.key2) _ t.utc from uteeCrypStateAlloc_spec hc)
  rw [wlp_of_eq hru] at hroom
  rw [wpx_of_eq (sys_ok hru)]
  rcases hroom with hok | hbad
  · obtain ⟨hne, -⟩ | ⟨-, hreg⟩ := hspec
    · exact absurd hok hne
    · rw [if_neg (not_not.mpr hok), wpx_bind]
      have hp' : Pending s op e o { t with utc := u } := hp.congr rfl rfl
      rw [wpx_of_eq hp'.updateOp]
      refine .inr ⟨rfl, hreg.core, _, hp'.update rfl, ?_⟩
      intro hd hk1 hk2
      rw [hk1, hk2] at hru
      have hundo : wp (uteeCrypStateAlloc c.provider m k 0 0) _ t.utc := digestState_undone hc hd
      rw [wp_of_eq hru] at hundo
      obtain ⟨-, h0, hfree⟩ := hundo hok
      obtain ⟨res, v, hv, hres, hl, hb⟩ := wp_iff.mp hfree
      obtain ⟨ctx, hst⟩ := hreg.st
      refine ⟨h0, ⟨⟨m, k, o.key1, o.key2, ctx, false⟩, ?_, rfl⟩, v, hres ▸ hv, hl, hb⟩
      show u.st r.2 = _
      rw [hst, Function.update_self]
  · rw [if_pos (by rw [hbad]; decide)]
    exact .inl hbad

theorem getState_eq {u : Utc} {q : Nat} {cs : CrypState} (hc : Core c.provider u)
    (hq : u.st q = some cs) : teeSvcCrypGetState q u = .ok (teeSuccess, u) := by
  have hmem : q ∈ u.crypStates := (hc.stMem q).mpr (by rw [hq]; rfl)
  obtain ⟨r, v, hv, hr⟩ := wp_iff.mp ((wp_teeSvcCrypGetState hc (Q := fun r v =>
    r = teeSuccess ∧ v = u)).mpr (by rw [if_pos hmem]; exact ⟨rfl, rfl⟩))
  rw [hr.1, hr.2] at hv
  exact hv

theorem initDigest_pending {m : Nat} {u : Utc} (hp : Pending s op e o t)
    (hc : Core c.provider t.utc)
    (hu : teeAlgGetClass m = teeOperationDigest → Undoable c m u o t) :
    wpx Stop.IsPanic (initDigest c op m) (fun res v => Core c.provider v.utc ∧
      ∃ o', Pending s op e o' v ∧ (res ≠ teeSuccess → Undoable c m u o' v)) t := by
  by_cases hd : teeAlgGetClass m = teeOperationDigest
  · obtain ⟨h0, ⟨cs, hcs, halgo⟩, hundo⟩ := hu hd
    have hget := getState_eq hc hcs
    rw [initDigest, if_pos hd, wpx_bind, wpx_of_eq (opAt_eq hp.handle), wpx_bind, uteeHashInit,
      wpx_bind, wpx_of_eq (sys_ok hget), if_neg (not_not.mpr rfl), wpx_bind,
      wpx_of_eq (sys_ok (stateAt_eq (Utc.st_iff.mp hcs))), halgo, if_pos hd]
    generalize hlog : (if c.ran t.log (.init o.state [] none []) then
      Event.init o.state [] none [] :: t.log else t.log) = log
    have hcrypto : crypto c (.init o.state [] none []) t =
        .ok (c.answer t.log (.init o.state [] none []), { t with log := log }) := by
      rw [← hlog]
      rfl
    have hp' : Pending s op e o { t with log := log } := hp.congr rfl rfl
    rw [wpx_of_eq hcrypto]
    by_cases hr : c.answer t.log (.init o.state [] none []) ≠ teeSuccess
    · rw [if_pos hr, wpx_pure]
      exact ⟨hc, o, hp', fun _ => ⟨h0, ⟨cs, hcs, halgo⟩, hundo⟩⟩
    · rw [if_neg hr, wpx_bind, wpx_of_eq hp'.updateOp]
      exact ⟨hc, _, hp'.update rfl, fun h => absurd rfl h⟩
  · rw [initDigest, if_neg hd, wpx_pure]
    exact ⟨hc, o, hp, fun h => absurd rfl h⟩

/-- the steps behind the registration, when they find what they need -/
theorem prepareOperation_pending {a : Setup} {m k size : Nat} (hw : WellFormed s)
    (hp : Pending s op e (Operation.start a m k size) t) (hc : Core c.provider t.utc)
    (hbuf : 1 < a.blockSize → ¬ t.heap.Full)
    (hkey : teeAlgGetClass m ≠ teeOperationDigest → ∃ tp,
      teeSvcFindTypeProps (teeAlgGetKeyType m a.withPrivateKey) = some tp ∧
        SizeOk tp (keySizeOf m size))
    (hsup : Supported c.provider m = true)
    (hr : t.utc.heap.Room (keyBlocks m a + stateBlocks m)) :
    wpx Stop.IsPanic (prepareOperation c op a m k size) (fun res v =>
      res = teeErrorBadParameters ∨ Core c.provider v.utc ∧ ∃ o', Pending s op e o' v ∧
      (res ≠ teeSuccess → Undoable c m t.utc o' v)) t := by
  rw [prepareOperation]
  refine wpx_andThen (wpx_mono (allocBuffer_pending hw hp rfl hbuf) ?_)
  rintro _ t1 ⟨rfl, h1, b, hp1⟩
  refine ⟨rfl, wpx_andThen (wpx_mono (setBlockSize_pending (a := a) hp1) ?_)⟩
  rintro _ t2 ⟨rfl, h2, hp2⟩
  have hutc : t2.utc = t.utc := h2.trans h1
  refine ⟨rfl, wpx_andThen (wpx_mono (allocKeys_pending hp2 rfl (by rw [hutc]; exact hc) hkey
    (by rw [hutc]; exact hr)) ?_)⟩
  rintro _ t3 ⟨rfl, hc3, hr3, o3, hp3, hd3⟩
  refine ⟨rfl, ?_⟩
  unfold andThen
  rw [wpx_bind]
  refine wpx_mono (allocState_pending (k := k) hp3 hc3 hsup hr3) ?_
  rintro res t4 (rfl | ⟨rfl, hc4, o4, hp4, hd4⟩)
  · exact .inl rfl
  · rw [if_neg (not_not.mpr rfl), wpx_bind]
    refine wpx_mono (initDigest_pending (u := t.utc) hp4 hc4 ?_) ?_
    · intro hd
      obtain ⟨h3, rfl⟩ := hd3 hd
      have hu := hd4 hd rfl rfl
      rw [h3, hutc] at hu
      exact hu
    · rintro res t5 ⟨hc5, o5, hp5, hd5⟩
      by_cases hr5 : res ≠ teeSuccess
      · rw [if_pos hr5]
        exact .inr ⟨hc5, o5, hp5, hd5⟩
      · rw [if_neg hr5]
        refine wpx_mono (setInitial_pending hp5) ?_
        rintro _ t6 ⟨rfl, h6, o6, hp6⟩
        exact .inr ⟨by rw [h6]; exact hc5, o6, hp6, fun h => absurd rfl h⟩

/-- the `out` label -/
theorem abandonOperation_pending {m res : Nat} (hs : Steady c (s, live))
    (hp : Pending s op e o t) (hu : Undoable c m s.utc o t) :
    wpx Stop.IsPanic (abandonOperation c op res)
      (fun _ v => AsBefore s v ∧ Steady c (v, live)) t := by
  rw [abandonOperation]
  by_cases hr : res ≠ teeErrorOutOfMemory ∧ res ≠ teeErrorNotSupported
  · rw [if_pos hr]
    exact wpx_teePanic
  · obtain ⟨u, hfree, hl, hb⟩ := hu.undo
    obtain ⟨v, hv, hvu, helems, hblocks⟩ := hp.undone hs hfree
    have hframe : v.frame = s.frame := by
      show Frame.mk _ _ = Frame.mk _ _
      rw [helems, hblocks]
    have hcore : Core c.provider v.utc := by
      rw [hvu]
      exact (Core.unchanged hs.core hl hb).core
    rw [if_neg hr, wpx_bind, wpx_of_eq (opAt_eq hp.handle), if_pos hu.ne_zero, wpx_of_eq hv]
    refine ⟨⟨helems, ?_, ?_, hblocks, ?_⟩, hs.congr hframe hcore⟩
    · rw [hvu, hl.objects]
    · rw [hvu, hl.crypStates]
    · rw [hvu, hb]

end

/-! ## allocating -/

section
variable {live : List Nat} {a : Setup} {m k n : Nat}

/-- a call that fails and leaves the blocks and lists -/
theorem Steady.asBefore (hs : Steady c (s, live)) (hu : t.utc = s.utc) (he : t.elems = s.elems)
    (hb : t.heap.blocks = s.heap.blocks) : AsBefore s t ∧ Steady c (t, live) := by
  have hf : t.frame = s.frame := by
    show Frame.mk _ _ = Frame.mk _ _
    rw [he, hb]
  refine ⟨⟨he, ?_, ?_, hb, ?_⟩, hs.congr hf ?_⟩
  · rw [hu]
  · rw [hu]
  · rw [hu]
  · rw [hu]
    exact hs.core

/-- with a fresh block that is released at once -/
theorem erase_store {a : Nat} {b : Block} (ha : s.heap.blocks a = none) :
    ((s.store a b).erase a).heap.blocks = s.heap.blocks := by
  show Function.update (Function.update s.heap.blocks a (some b)) a none = _
  rw [Function.update_idem, ← ha, Function.update_eq_self]

theorem registerOperation_steady (hs : Steady c (s, live))
    (hp : s.heap.Room 2 → Prepares c a m n s) :
    wpx Stop.IsPanic (registerOperation c a m k n) (fun r t =>
      r.1 = teeSuccess ∧ Steady c (t, r.2 :: live) ∨
      r.1 ≠ teeSuccess ∧ AsBefore s t ∧ Steady c (t, live)) s := by
  have hw : WellFormed s := hs.ok
  have hoom : teeErrorOutOfMemory ≠ teeSuccess := by decide
  rw [registerOperation, wpx_bind]
  by_cases hf : s.heap.Full
  · rw [wpx_of_eq (malloc_full hf), if_pos rfl]
    exact .inr ⟨hoom, hs.asBefore rfl rfl rfl⟩
  obtain ⟨hop0, -, hop⟩ := Heap.not_full_iff.mp hf
  rw [wpx_of_eq (malloc_new hf), if_neg hop0, wpx_bind]
  generalize hopdef : s.heap.answers s.heap.calls = op at hop0 hop ⊢
  have hheap : (s.heap.alloc (.op Operation.zero)).2 =
      (s.tick.store op (.op Operation.zero)).heap := by
    rw [Heap.alloc_not_full _ hf, hopdef]
    rfl
  by_cases hf' : (s.tick.store op (.op Operation.zero)).heap.Full
  · have hn : ((s.tick.store op (.op Operation.zero)).tick).heap.blocks 0 = none :=
      (store_of_ne (s := s.tick) _ hop0.symm).trans hw.null
    rw [wpx_of_eq (malloc_full hf'), if_pos rfl, wpx_bind, wpx_of_eq (free_eq hn ?_)]
    · exact .inr ⟨hoom, hs.asBefore rfl rfl (erase_store (s := s.tick) hop)⟩
    · intro _
      show (s.tick.store op (.op Operation.zero)).heap.blocks op ≠ none
      rw [store_self]
      exact Option.some_ne_none _
  obtain ⟨he0, -, he⟩ := Heap.not_full_iff.mp hf'
  rw [wpx_of_eq (malloc_new hf'), if_neg he0]
  generalize hedef : (s.tick.store op (.op Operation.zero)).heap.answers
    (s.tick.store op (.op Operation.zero)).heap.calls = e at he0 he ⊢
  have hne : e ≠ op := by
    rintro rfl
    rw [store_self] at he
    cases he
  have he' : s.heap.blocks e = none := (store_of_ne (s := s.tick) _ hne).symm.trans he
  obtain ⟨hreg, -⟩ := registered_wellFormed hw hop0 hop he0 he' hne
    (o := Operation.start a m k n) rfl
  have hroom : s.heap.Room 2 := by
    rw [Heap.room_succ (.op Operation.zero), hheap]
    refine ⟨hf, ?_⟩
    rw [Heap.room_succ (.op Operation.zero)]
    exact ⟨hf', fun i hi => absurd hi (by omega), fun i hi => absurd hi (by omega)⟩
  obtain ⟨hr3, hkey, hsup, hmem⟩ := hp hroom
  have hpend : Pending s op e (Operation.start a m k n)
      ((s.registered op e).store op (.op (Operation.start a m k n))) := by
    refine ⟨hreg, rfl, hop, he', fun h => absurd rfl h, store_self _, ?_, ?_⟩
    · rw [store_of_ne _ hne]
      exact store_self _
    · intro q h1 h2 h3
      rw [store_of_ne _ h1]
      refine (store_of_ne (s := (s.tick.store op (.op Operation.zero)).tick.store e (.elem 0)) _
        h2).trans ((store_of_ne (s := (s.tick.store op (.op Operation.zero)).tick) _ h2).trans ?_)
      exact store_of_ne (s := s.tick) _ h1
  have hbuf : 1 < a.blockSize →
      ¬ ((s.registered op e).store op (.op (Operation.start a m k n))).heap.Full := by
    intro hsz
    rw [if_pos hsz, Heap.room_succ (.op Operation.zero), hheap, Heap.room_succ (.elem 0),
      Heap.alloc_not_full _ hf', hedef] at hr3
    have h1 : ((s.tick.store op (.op Operation.zero)).tick.store e (.elem 0)).heap.Room 1 :=
      hr3.2.2
    have h2 := h1.store (a := e) (by
      show ((s.tick.store op (.op Operation.zero)).tick.store e (.elem 0)).heap.blocks e ≠ none
      rw [store_self]
      exact Option.some_ne_none _) (.elem op)
    refine (h2.store (a := op) ?_ (.op (Operation.start a m k n))).not_full
    show (s.registered op e).heap.blocks op ≠ none
    have h3 : (s.registered op e).frame.shapes op = some (.op 0) := by
      rw [registered_frame]
      show ((s.frame.put op (.op 0)).put e (.elem op)).shapes op = _
      rw [put_shapes, put_shapes, if_neg hne.symm, if_pos rfl]
    intro h4
    rw [frame_none.mpr h4] at h3
    cases h3
  rw [wpx_bind]
  show wpx _ (insertElem e >>= _) _ _
  rw [wpx_bind, wpx_of_eq (insertElem_registered hw.readable hop he'), wpx_bind]
  show wpx _ (prepareOperation c op a m k n >>= _) _
    ((s.registered op e).store op (.op (Operation.start a m k n)))
  rw [wpx_bind]
  refine wpx_mono (prepareOperation_pending hw hpend hs.core hbuf hkey hsup hmem) ?_
  intro res t ht
  by_cases hr : res ≠ teeSuccess
  · rw [if_pos hr, wpx_bind]
    rcases ht with rfl | ⟨-, o, hpo, hu⟩
    · rw [abandonOperation, if_pos (by decide)]
      exact wpx_teePanic
    · refine wpx_mono (abandonOperation_pending hs hpo (hu hr)) ?_
      intro _ v hv
      exact .inr ⟨hr, hv⟩
  · rw [if_neg hr]
    obtain hbad | ⟨hc, o, hpo, -⟩ := ht
    · rw [hbad] at hr
      exact absurd (by decide) hr
    · exact .inl ⟨rfl, hpo.steady hs hc⟩

/-- **The allocation of a handle.** -/
theorem allocate_steady (hs : Steady c (s, live)) (hx : (Life.allocate m k n).Clean c s) :
    wpx Stop.IsPanic (teeAllocateOperation c true m k n) (fun r t =>
      r.1 = teeSuccess ∧ Steady c (t, r.2 :: live) ∨
      r.1 ≠ teeSuccess ∧ AsBefore s t ∧ Steady c (t, live)) s := by
  have hns : teeErrorNotSupported ≠ teeSuccess := by decide
  have hnone : AsBefore s s ∧ Steady c (s, live) := hs.asBefore rfl rfl rfl
  rw [teeAllocateOperation, if_neg (by simp)]
  by_cases hk : maxKeySizeOk m n = false
  · rw [if_pos hk, wpx_pure]
    exact .inr ⟨hns, hnone⟩
  · rw [if_neg hk]
    cases hsetup : setupOf m k with
    | none => exact .inr ⟨hns, hnone⟩
    | some a =>
      refine registerOperation_steady hs ?_
      intro hroom
      rcases hx with h | h | h | ⟨a', ha', h⟩
      · exact absurd h hk
      · rw [hsetup] at h
        cases h
      · exact absurd hroom h
      · rw [hsetup] at ha'
        cases ha'
        exact h

/-! ## runs -/

/-- one call, and what it leaves when it fails -/
theorem life_steady {x : Life} (hs : Steady c (s, live)) (hx : x.Clean c s) :
    wpx Stop.IsPanic (life c x) (fun r t => Steady c (t, x.note r live) ∧
      (r.1 ≠ teeSuccess → AsBefore s t)) s := by
  cases x with
  | allocate m k n =>
    refine wpx_mono (allocate_steady hs hx) ?_
    rintro r t (⟨hr, ht⟩ | ⟨hr, hb, ht⟩)
    · refine ⟨?_, fun h => absurd hr h⟩
      show Steady c (t, if r.1 = teeSuccess then r.2 :: live else live)
      rw [if_pos hr]
      exact ht
    · refine ⟨?_, fun _ => hb⟩
      show Steady c (t, if r.1 = teeSuccess then r.2 :: live else live)
      rw [if_neg hr]
      exact ht
  | free h =>
    show wpx _ (teeFreeOperation c h >>= fun _ => pure (teeSuccess, 0)) _ s
    rw [wpx_bind]
    refine wpx_mono (free_steady hs) ?_
    intro _ t ht
    exact ⟨ht, fun h => absurd rfl h⟩

theorem liveStep_steady {x : Life} {w : Sys × List Nat} (hs : Steady c w)
    (hx : x.Clean c w.1) : wpx Stop.IsPanic (liveStep c x) (fun _ v => Steady c v) w := by
  unfold liveStep
  rw [wpx_ghost]
  exact wpx_mono (life_steady hs hx) fun _ _ h => h.1

/-- in every state reached the registry is exact, and the next call leaves no trace if it fails -/
def ExactAlong (c : Crypto) (u : Utc) (answers : Nat → Nat) (l : List Life) : Prop :=
  (∀ m, m <+: l → wpx Stop.IsPanic (run (liveStep c) m) (fun _ w => Exact w)
    (Sys.start u answers, [])) ∧
  ∀ m x, m ++ [x] <+: l → wpx Stop.IsPanic (run (liveStep c) m) (fun _ w => NoTrace c x w.1)
    (Sys.start u answers, [])

/-- **Along clean calls the registry is exact and a failed call leaves no trace.** -/
theorem exact_run {u : Utc} (hu : Core c.provider u) (answers : Nat → Nat) (l : List Life)
    (hg : Guarded (liveStep c) (fun x w => x.Clean c w.1) l (Sys.start u answers, [])) :
    ExactAlong c u answers l := by
  have hs := start_steady hu answers
  constructor
  · intro m hm
    refine wpx_mono (wpx_run_guarded (fun _ _ hw hx => liveStep_steady hw hx) (hg.take hm) hs) ?_
    exact fun _ _ hw => hw.toExact
  · intro m x hm
    refine wpx_mono (wpx_run_snoc (fun _ _ hw hx => liveStep_steady hw hx) (hg.take hm) hs) ?_
    rintro _ w ⟨hw, hx⟩
    exact wpx_mono (life_steady (show Steady c (w.1, w.2) from hw) hx) fun _ _ h => h.2

/-- a digest is allocated and released, and an unknown algorithm is refused -/
def digestLife : List Life :=
  [.allocate teeAlgSha256 teeModeDigest 0, .free (Cryp.sampleAnswers 0), .allocate 0 0 0]

theorem digestLife_exact :
    ExactAlong sampleCrypto (Utc.empty Cryp.sampleAnswers) Cryp.sampleAnswers digestLife := by
  refine exact_run (Core.empty Cryp.sampleAnswers) Cryp.sampleAnswers digestLife ⟨?_, ?_⟩
  · refine .inr (.inr (.inr ⟨⟨0, false, 1, false⟩, rfl, ⟨⟨?_, ?_⟩, ?_, ?_, ⟨?_, ?_⟩⟩⟩))
    all_goals decide
  · intro _ _ _
    exact ⟨trivial, fun _ _ _ => ⟨.inr (.inl rfl), fun _ _ _ => trivial⟩⟩

/-- the registry and the handles in use behind the calls `l` -/
def lifeAfter (c : Crypto) (u : Utc) (answers : Nat → Nat) (l : List Life) :
    Option (List Nat × List Nat) :=
  match run (liveStep c) l (Sys.start u answers, []) with
  | .ok (_, w) => some (w.1.elems, w.2)
  | .error _ => none

/-- an element without a handle in use -/
theorem not_exactAlong {u : Utc} {answers : Nat → Nat} {l : List Life} {e : Nat}
    (hx : lifeAfter c u answers l = some ([e], [])) : ¬ ExactAlong c u answers l := by
  rintro ⟨hall, -⟩
  have hall := hall l List.prefix_rfl
  unfold lifeAfter at hx
  cases hrun : run (liveStep c) l (Sys.start u answers, []) with
  | error y =>
    rw [hrun] at hx
    cases hx
  | ok r =>
    rw [hrun] at hx
    rw [wpx_of_eq hrun] at hall
    obtain ⟨he, hl⟩ := Prod.mk.inj (Option.some.inj hx)
    have hm : e ∈ r.2.1.elems := by
      rw [he]
      exact List.mem_cons_self
    obtain ⟨h, hh⟩ := hall.elem e hm
    have hlive := (hall.iff h).mp ⟨e, hh⟩
    rw [hl] at hlive
    cases hlive

/-- the third call of the allocator fails -/
def noBuffer (i : Nat) : Nat := if i = 2 then 0 else Cryp.sampleAnswers i

def teeAlgAesCbcNopad : Nat := 0x10000110

/-- a cipher whose buffer cannot be allocated -/
theorem exactAlong_fails : ¬ ExactAlong sampleCrypto (Utc.empty Cryp.sampleAnswers) noBuffer
    [.allocate teeAlgAesCbcNopad teeModeEncrypt 128] :=
  not_exactAlong (e := Cryp.sampleAnswers 1) (by decide +kernel)

end

end MTower.Oper
