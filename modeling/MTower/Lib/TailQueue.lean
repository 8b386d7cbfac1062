import Mathlib

/-!
# Doubly linked tail queues

A queue head has the address of its first element and the place of the last link; an element has the
address of the next one and the place of the link that leads to it.  A place is a head or the `next`
field of an element, and `0` is the null address.  Several queues can share the link fields, and an
element knows nothing of the queue it is in: removal is told the head, and only uses it for `last`.

* `Seg`              the elements from one place to another;
* `Chain`            the elements of a queue, whatever its `last` says;
* `Queue`            the representation invariant, with `last`;
* `insertHead_seg`, `remove_seg`, `remove_other`  the two operations on the queue and on another;
* `remove_remove`    a second removal of an element changes `last` at most;
* `elems`            the loop over a queue.
-/

set_option linter.unusedVariables false

namespace Lib

/-- where the address of an element is kept -/
inductive Place (η : Type) where
  | head (q : η)
  | next (a : Nat)
deriving DecidableEq, Repr

structure Links (η : Type) where
  first : η → Nat
  last : η → Place η
  next : Nat → Nat
  prev : Nat → Place η

namespace Links
variable {η : Type}

def empty (η : Type) : Links η := ⟨fun _ => 0, .head, fun _ => 0, .next⟩

def read (l : Links η) : Place η → Nat
  | .head q => l.first q
  | .next a => l.next a

/-- the elements `xs` lead from the place `r` to the place `z` -/
def Seg (l : Links η) : Place η → List Nat → Place η → Prop
  | r, [], z => r = z
  | r, x :: xs, z => x ≠ 0 ∧ l.read r = x ∧ l.prev x = r ∧ l.Seg (.next x) xs z

/-- the elements of the queue are `xs` -/
def Chain (l : Links η) (q : η) (xs : List Nat) : Prop :=
  xs.Nodup ∧ ∃ z, l.Seg (.head q) xs z ∧ l.read z = 0

/-- the queue is well formed and its elements are `xs` -/
def Queue (l : Links η) (q : η) (xs : List Nat) : Prop :=
  xs.Nodup ∧ l.Seg (.head q) xs (l.last q) ∧ l.read (l.last q) = 0

variable {l : Links η} {q : η} {r z : Place η} {xs ys : List Nat} {e : Nat}

theorem Queue.chain (h : l.Queue q xs) : l.Chain q xs := ⟨h.1, l.last q, h.2⟩

theorem seg_append : l.Seg r (xs ++ ys) z ↔ ∃ m, l.Seg r xs m ∧ l.Seg m ys z := by
  induction xs generalizing r with
  | nil =>
    constructor
    · intro h
      exact ⟨r, rfl, h⟩
    · intro h
      obtain ⟨m, e, h⟩ := h
      have e : r = m := e
      rw [e]
      exact h
  | cons x xs ih =>
    constructor
    · intro h
      obtain ⟨h0, hr, hp, hs⟩ := h
      obtain ⟨m, h1, h2⟩ := ih.mp hs
      exact ⟨m, ⟨h0, hr, hp, h1⟩, h2⟩
    · intro h
      obtain ⟨m, ⟨h0, hr, hp, h1⟩, h2⟩ := h
      exact ⟨h0, hr, hp, ih.mpr ⟨m, h1, h2⟩⟩

theorem Seg.ne_zero (h : l.Seg r xs z) : ∀ x ∈ xs, x ≠ 0 := by
  induction xs generalizing r with
  | nil => exact fun x hx => absurd hx List.not_mem_nil
  | cons x xs ih =>
    intro y hy
    rcases List.mem_cons.mp hy with rfl | hy
    · exact h.1
    · exact ih h.2.2.2 y hy

/-- the last place of a segment -/
theorem Seg.end_mem (h : l.Seg r xs z) : z = r ∨ ∃ y ∈ xs, z = .next y := by
  induction xs generalizing r with
  | nil => exact Or.inl (Eq.symm h)
  | cons y ys ih =>
    rcases ih h.2.2.2 with e | ⟨w, hw, e⟩
    · exact Or.inr ⟨y, List.mem_cons_self, e⟩
    · exact Or.inr ⟨w, List.mem_cons_of_mem _ hw, e⟩

theorem Seg.next_mem {a : Nat} (h : l.Seg r xs (.next a)) (hr : r ≠ .next a) : a ∈ xs := by
  rcases h.end_mem with e | ⟨y, hy, e⟩
  · exact absurd e.symm hr
  · cases e
    exact hy

/-- a segment does not read its last place -/
theorem Seg.congr {l' : Links η} (h : l.Seg r xs z) (hnd : xs.Nodup) (hr : ∀ x ∈ xs, r ≠ .next x)
    (hread : ∀ p, p ≠ z → (p = r ∨ ∃ x ∈ xs, p = .next x) → l'.read p = l.read p)
    (hprev : ∀ x ∈ xs, l'.prev x = l.prev x) : l'.Seg r xs z := by
  induction xs generalizing r with
  | nil => exact h
  | cons x xs ih =>
    obtain ⟨h0, hrx, hp, hs⟩ := h
    obtain ⟨hx, hnd⟩ := List.nodup_cons.mp hnd
    have hrz : r ≠ z := by
      rcases hs.end_mem with e | ⟨y, hy, e⟩
      · rw [e]
        exact hr x List.mem_cons_self
      · rw [e]
        exact hr y (List.mem_cons_of_mem x hy)
    refine ⟨h0, ?_, ?_, ih hs hnd ?_ ?_ ?_⟩
    · rw [hread r hrz (Or.inl rfl), hrx]
    · rw [hprev x List.mem_cons_self, hp]
    · intro y hy e
      cases e
      exact hx hy
    · intro p hpz hp
      refine hread p hpz (Or.inr ?_)
      rcases hp with e | ⟨y, hy, e⟩
      · exact ⟨x, List.mem_cons_self, e⟩
      · exact ⟨y, List.mem_cons_of_mem x hy, e⟩
    · exact fun y hy => hprev y (List.mem_cons_of_mem x hy)

/-- the element after `e` is the first of the rest, if there is one -/
theorem Seg.next_cases (h : l.Seg r (xs ++ e :: ys) z) (hz : l.read z = 0)
    (hnd : (xs ++ e :: ys).Nodup) : l.next e ≠ e ∧ (l.next e = 0 ∧ ys = [] ∨
      ∃ y ys', ys = y :: ys' ∧ l.next e = y ∧ y ≠ 0) := by
  obtain ⟨m, -, h0, -, -, h2⟩ := seg_append.mp h
  obtain ⟨-, hys, -⟩ := List.nodup_append.mp hnd
  obtain ⟨hey, -⟩ := List.nodup_cons.mp hys
  have hne : l.next e = l.read (.next e) := rfl
  cases ys with
  | nil =>
    have hq : Place.next e = z := h2
    have hn : l.next e = 0 := by rw [hne, hq, hz]
    refine ⟨?_, Or.inl ⟨hn, rfl⟩⟩
    rw [hn]
    exact Ne.symm h0
  | cons y ys' =>
    have hn : l.next e = y := h2.2.1
    refine ⟨?_, Or.inr ⟨y, ys', rfl, hn, h2.1⟩⟩
    rw [hn]
    exact fun h => hey (h ▸ List.mem_cons_self)

/-- the place of `e` is the end of the elements before it -/
theorem Seg.prev_spec (h : l.Seg (.head q) (xs ++ e :: ys) z) (hnd : (xs ++ e :: ys).Nodup) :
    l.Seg (.head q) xs (l.prev e) ∧ l.read (l.prev e) = e ∧ l.prev e ≠ .next e := by
  obtain ⟨m, h1, h0, hm, hp, h2⟩ := seg_append.mp h
  obtain ⟨-, -, hdis⟩ := List.nodup_append.mp hnd
  have hex : e ∉ xs := fun hx => hdis e hx e List.mem_cons_self rfl
  rw [hp]
  refine ⟨h1, hm, ?_⟩
  intro hme
  rw [hme] at h1
  exact hex (h1.next_mem fun h => nomatch h)

theorem Chain.next_mem (h : l.Chain q (xs ++ e :: ys)) (hn : l.next e ≠ 0) : l.next e ∈ ys := by
  obtain ⟨hnd, z, hs, hz⟩ := h
  rcases (hs.next_cases hz hnd).2 with ⟨h0, -⟩ | ⟨y, ys', rfl, h, -⟩
  · exact absurd h0 hn
  · rw [h]
    exact List.mem_cons_self

theorem Chain.prev_mem (h : l.Chain q (xs ++ e :: ys)) {a : Nat} (hp : l.prev e = .next a) :
    a ∈ xs := by
  obtain ⟨hnd, z, hs, -⟩ := h
  have h1 := (hs.prev_spec hnd).1
  rw [hp] at h1
  exact h1.next_mem fun h => nomatch h

/-! ## operations -/

section
variable [DecidableEq η]

/-- `*r = a` -/
def write (l : Links η) : Place η → Nat → Links η
  | .head q, a => { l with first := Function.update l.first q a }
  | .next b, a => { l with next := Function.update l.next b a }

def insertHead (l : Links η) (q : η) (e : Nat) : Links η where
  first := Function.update l.first q e
  last := if l.first q ≠ 0 then l.last else Function.update l.last q (.next e)
  next := Function.update l.next e (l.first q)
  prev := Function.update
    (if l.first q ≠ 0 then Function.update l.prev (l.first q) (.next e) else l.prev) e (.head q)

/-- the links around `e` before `*prev = next` -/
def unhook (l : Links η) (q : η) (e : Nat) : Links η :=
  if l.next e ≠ 0 then { l with prev := Function.update l.prev (l.next e) (l.prev e) }
  else { l with last := Function.update l.last q (l.prev e) }

def remove (l : Links η) (q : η) (e : Nat) : Links η :=
  (l.unhook q e).write ((l.unhook q e).prev e) ((l.unhook q e).next e)

@[simp] theorem read_write_self (l : Links η) (p : Place η) (a : Nat) :
    (l.write p a).read p = a := by
  cases p with
  | head q => exact Function.update_self q a l.first
  | next b => exact Function.update_self b a l.next

theorem read_write_of_ne (l : Links η) {p p' : Place η} (a : Nat) (h : p' ≠ p) :
    (l.write p a).read p' = l.read p' := by
  cases p with
  | head q =>
    cases p' with
    | head q' =>
      have hq : q' ≠ q := fun e => h (congrArg Place.head e)
      exact Function.update_of_ne hq a l.first
    | next b => rfl
  | next b =>
    cases p' with
    | head q => rfl
    | next b' =>
      have hb : b' ≠ b := fun e => h (congrArg Place.next e)
      exact Function.update_of_ne hb a l.next

@[simp] theorem prev_write (l : Links η) (p : Place η) (a : Nat) : (l.write p a).prev = l.prev := by
  cases p <;> rfl

@[simp] theorem last_write (l : Links η) (p : Place η) (a : Nat) : (l.write p a).last = l.last := by
  cases p <;> rfl

/-- writing what is there -/
theorem write_read (l : Links η) (p : Place η) : l.write p (l.read p) = l := by
  cases p with
  | head q => simp only [write, read, Function.update_eq_self]
  | next b => simp only [write, read, Function.update_eq_self]

end

/-! ## insertion -/

section
variable [DecidableEq η]

theorem insertHead_read (l : Links η) (q : η) (e : Nat) {p : Place η} (hq : p ≠ .head q)
    (he : p ≠ .next e) : (l.insertHead q e).read p = l.read p := by
  cases p with
  | head q' =>
    have h : q' ≠ q := fun h => hq (congrArg Place.head h)
    exact Function.update_of_ne h e l.first
  | next a =>
    have h : a ≠ e := fun h => he (congrArg Place.next h)
    exact Function.update_of_ne h _ l.next

theorem insertHead_prev (l : Links η) (q : η) {x : Nat} (he : x ≠ e) (hx : x ≠ l.first q) :
    (l.insertHead q e).prev x = l.prev x := by
  show Function.update _ e _ x = _
  rw [Function.update_of_ne he]
  split
  · exact Function.update_of_ne hx _ _
  · rfl

/-- **`insertHead` on its queue.** -/
theorem insertHead_seg (h : l.Seg (.head q) xs z) (hz : l.read z = 0) (hnd : xs.Nodup)
    (h0 : e ≠ 0) (he : e ∉ xs) :
    (l.insertHead q e).Seg (.head q) (e :: xs) (if xs = [] then .next e else z) ∧
      (l.insertHead q e).read (if xs = [] then .next e else z) = 0 := by
  have hfirst : (l.insertHead q e).read (.head q) = e := by
    show Function.update l.first q e q = e
    rw [Function.update_self]
  have hprev : (l.insertHead q e).prev e = .head q := Function.update_self e _ _
  have hnext : (l.insertHead q e).read (.next e) = l.first q := Function.update_self e _ l.next
  cases xs with
  | nil =>
    rw [if_pos rfl]
    refine ⟨⟨h0, hfirst, hprev, rfl⟩, ?_⟩
    have hq : Place.head q = z := h
    rw [hnext]
    rw [← hq] at hz
    exact hz
  | cons x xs =>
    have hcons : x :: xs ≠ [] := List.cons_ne_nil x xs
    rw [if_neg hcons]
    obtain ⟨hx0, hx, hp, hs⟩ := h
    obtain ⟨hxs, hnd⟩ := List.nodup_cons.mp hnd
    have hex : x ≠ e := fun h => he (h ▸ List.mem_cons_self)
    have hes : ∀ y ∈ xs, y ≠ e := fun y hy h => he (h ▸ List.mem_cons_of_mem x hy)
    have hx : l.first q = x := hx
    have hplace : ∀ p, (p = .next x ∨ ∃ y ∈ xs, p = .next y) →
        (l.insertHead q e).read p = l.read p := by
      intro p hp
      refine insertHead_read l q e ?_ ?_
      · rcases hp with rfl | ⟨y, -, rfl⟩ <;> exact fun h => nomatch h
      · rcases hp with rfl | ⟨y, hy, rfl⟩
        · exact fun h => hex (Place.next.inj h)
        · exact fun h => hes y hy (Place.next.inj h)
    refine ⟨⟨h0, hfirst, hprev, hx0, ?_, ?_, hs.congr hnd ?_ ?_ ?_⟩, ?_⟩
    · rw [hnext, hx]
    · show Function.update _ e _ x = _
      have hne : l.first q ≠ 0 := by
        rw [hx]
        exact hx0
      rw [Function.update_of_ne hex, if_pos hne, hx, Function.update_self]
    · intro y hy h
      cases h
      exact hxs hy
    · exact fun p _ hp => hplace p hp
    · intro y hy
      refine insertHead_prev l q (hes y hy) ?_
      rw [hx]
      intro h
      exact hxs (h ▸ hy)
    · rw [hplace z hs.end_mem, hz]

theorem Chain.insertHead (h : l.Chain q xs) (h0 : e ≠ 0) (he : e ∉ xs) :
    (l.insertHead q e).Chain q (e :: xs) := by
  obtain ⟨hnd, z, hs, hz⟩ := h
  exact ⟨List.nodup_cons.mpr ⟨he, hnd⟩, _, insertHead_seg hs hz hnd h0 he⟩

theorem Queue.insertHead (h : l.Queue q xs) (h0 : e ≠ 0) (he : e ∉ xs) :
    (l.insertHead q e).Queue q (e :: xs) := by
  obtain ⟨hnd, hs, hz⟩ := h
  have hlast : (l.insertHead q e).last q = if xs = [] then .next e else l.last q := by
    show (if l.first q ≠ 0 then l.last else Function.update l.last q (.next e)) q = _
    cases xs with
    | nil =>
      have hq : Place.head q = l.last q := hs
      have hf : ¬ l.first q ≠ 0 := by
        rw [← hq] at hz
        exact fun h => h hz
      rw [if_neg hf, if_pos rfl, Function.update_self]
    | cons x xs =>
      have hx : l.first q = x := hs.2.1
      have hf : l.first q ≠ 0 := by
        rw [hx]
        exact hs.1
      rw [if_pos hf, if_neg (List.cons_ne_nil x xs)]
  rw [Queue, hlast]
  exact ⟨List.nodup_cons.mpr ⟨he, hnd⟩, insertHead_seg hs hz hnd h0 he⟩

end

/-! ## removal -/

section
variable [DecidableEq η]

theorem unhook_prev (l : Links η) (q : η) {x : Nat} (hx : x ≠ l.next e) :
    (l.unhook q e).prev x = l.prev x := by
  unfold unhook
  split
  · exact Function.update_of_ne hx _ _
  · rfl

theorem unhook_read (l : Links η) (q : η) (p : Place η) : (l.unhook q e).read p = l.read p := by
  unfold unhook
  split
  · cases p <;> rfl
  · cases p <;> rfl

/-- what removal does to places and to the links back -/
theorem remove_spec (l : Links η) (q : η) (he : l.next e ≠ e) :
    l.remove q e = (l.unhook q e).write (l.prev e) (l.next e) := by
  have hn : (l.unhook q e).next e = l.next e := unhook_read l q (.next e)
  rw [remove, unhook_prev l q (Ne.symm he), hn]

/-- **`remove` on the queue of the element, told any head.** -/
theorem remove_seg (q' : η) (h : l.Seg (.head q) (xs ++ e :: ys) z) (hz : l.read z = 0)
    (hnd : (xs ++ e :: ys).Nodup) :
    (l.remove q' e).Seg (.head q) (xs ++ ys) (if ys = [] then l.prev e else z) ∧
      (l.remove q' e).read (if ys = [] then l.prev e else z) = 0 := by
  obtain ⟨m, h1, h0, hm, hp, h2⟩ := seg_append.mp h
  obtain ⟨hxs, hys, hdis⟩ := List.nodup_append.mp hnd
  obtain ⟨hey, hys⟩ := List.nodup_cons.mp hys
  have hex : e ∉ xs := fun hx => hdis e hx e List.mem_cons_self rfl
  have hxy : ∀ x ∈ xs, x ∉ ys := fun x hx hy => hdis x hx x (List.mem_cons_of_mem e hy) rfl
  obtain ⟨hself, hnext⟩ := h.next_cases hz hnd
  have hnx : ∀ x ∈ xs, x ≠ l.next e := by
    intro x hx
    rcases hnext with ⟨hn, -⟩ | ⟨y, ys', rfl, hn, -⟩
    · rw [hn]
      exact h1.ne_zero x hx
    · rw [hn]
      exact fun h => hxy x hx (h ▸ List.mem_cons_self)
  have hmplace : ∀ y ∈ ys, m ≠ .next y := by
    intro y hy hmy
    rw [hmy] at h1
    exact hxy y (h1.next_mem fun h => nomatch h) hy
  rw [remove_spec l q' hself, hp]
  have hfront : ((l.unhook q' e).write m (l.next e)).Seg (.head q) xs m := by
    refine h1.congr hxs (fun _ _ h => nomatch h) ?_ ?_
    · intro p hpm _
      rw [read_write_of_ne _ _ hpm, unhook_read]
    · intro x hx
      rw [prev_write, unhook_prev l q' (hnx x hx)]
  rcases hnext with ⟨hn, rfl⟩ | ⟨y, ys', rfl, hn, -⟩
  · rw [if_pos rfl, List.append_nil]
    refine ⟨hfront, ?_⟩
    rw [read_write_self, hn]
  · rw [if_neg (List.cons_ne_nil y ys')]
    obtain ⟨hy0, -, hpy, h3⟩ := h2
    obtain ⟨hyy, hys⟩ := List.nodup_cons.mp hys
    have hkept : ∀ p, (p = .next y ∨ ∃ w ∈ ys', p = .next w) →
        ((l.unhook q' e).write m (l.next e)).read p = l.read p := by
      intro p hp
      have hpm : p ≠ m := by
        rcases hp with rfl | ⟨w, hw, rfl⟩
        · exact (hmplace y List.mem_cons_self).symm
        · exact (hmplace w (List.mem_cons_of_mem y hw)).symm
      rw [read_write_of_ne _ _ hpm, unhook_read]
    refine ⟨seg_append.mpr ⟨m, hfront, hy0, ?_, ?_, h3.congr hys ?_ ?_ ?_⟩, ?_⟩
    · rw [read_write_self, hn]
    · have hne : l.next e ≠ 0 := by
        rw [hn]
        exact hy0
      rw [prev_write, unhook, if_pos hne, hn]
      exact (Function.update_self y _ _).trans hp
    · intro w hw h
      cases h
      exact hyy hw
    · exact fun p _ hp => hkept p hp
    · intro w hw
      have hwy : w ≠ l.next e := by
        rw [hn]
        exact fun h => hyy (h ▸ hw)
      rw [prev_write, unhook_prev l q' hwy]
    · rw [hkept z h3.end_mem, hz]

theorem Chain.remove (q' : η) (h : l.Chain q (xs ++ e :: ys)) :
    (l.remove q' e).Chain q (xs ++ ys) := by
  obtain ⟨hnd, z, hs, hz⟩ := h
  refine ⟨?_, _, remove_seg q' hs hz hnd⟩
  exact hnd.sublist (List.Sublist.append_left (List.sublist_cons_self e ys) xs)

omit [DecidableEq η] in
theorem Chain.setLast (h : l.Chain q xs) (f : η → Place η) : { l with last := f }.Chain q xs := by
  obtain ⟨hnd, z, hs, hz⟩ := h
  have hread : ∀ p, ({ l with last := f } : Links η).read p = l.read p := by
    intro p
    cases p <;> rfl
  refine ⟨hnd, z, hs.congr hnd (fun _ _ h => nomatch h) (fun p _ _ => hread p) (fun _ _ => rfl), ?_⟩
  rw [hread, hz]

/-- removal leaves the fields of the element -/
theorem remove_self (q' : η) (h : l.Seg (.head q) (xs ++ e :: ys) z) (hz : l.read z = 0)
    (hnd : (xs ++ e :: ys).Nodup) :
    (l.remove q' e).next e = l.next e ∧ (l.remove q' e).prev e = l.prev e := by
  obtain ⟨hself, -⟩ := h.next_cases hz hnd
  obtain ⟨-, -, hme⟩ := h.prev_spec hnd
  constructor
  · show (l.remove q' e).read (.next e) = l.read (.next e)
    rw [remove_spec l q' hself, read_write_of_ne _ _ hme.symm, unhook_read]
  · rw [remove_spec l q' hself, prev_write, unhook_prev l q' hself.symm]

/-- removal leaves the heads of the other queues -/
theorem remove_other {q' : η} (hq : q' ≠ q) (h : l.Seg (.head q) (xs ++ e :: ys) z)
    (hz : l.read z = 0) (hnd : (xs ++ e :: ys).Nodup) :
    (l.remove q e).first q' = l.first q' ∧ (l.remove q e).last q' = l.last q' := by
  obtain ⟨hself, -⟩ := h.next_cases hz hnd
  obtain ⟨h1, -, -⟩ := h.prev_spec hnd
  have hprev : Place.head q' ≠ l.prev e := by
    intro hp
    rcases h1.end_mem with h | ⟨y, -, h⟩
    · rw [← hp] at h
      exact hq (Place.head.inj h)
    · rw [← hp] at h
      cases h
  have hl : l.remove q e = (l.unhook q e).write (l.prev e) (l.next e) := remove_spec l q hself
  constructor
  · show (l.remove q e).read (.head q') = l.read (.head q')
    rw [hl, read_write_of_ne _ _ hprev, unhook_read]
  · rw [hl, last_write, unhook]
    split
    · rfl
    · exact Function.update_of_ne hq _ _

/-- **A second removal**, told another head: the links are already so, and `last` is set when the
element was the last one. -/
theorem remove_remove (q' : η) (h : l.Seg (.head q) (xs ++ e :: ys) z) (hz : l.read z = 0)
    (hnd : (xs ++ e :: ys).Nodup) :
    (l.remove q e).remove q' e = { l.remove q e with
      last := if ys = [] then Function.update (l.remove q e).last q' (l.prev e)
        else (l.remove q e).last } := by
  obtain ⟨hself, hnext⟩ := h.next_cases hz hnd
  obtain ⟨hn', hp'⟩ := remove_self q h hz hnd
  have hl : l.remove q e = (l.unhook q e).write (l.prev e) (l.next e) := remove_spec l q hself
  have hm' : (l.remove q e).read (l.prev e) = l.next e := by rw [hl, read_write_self]
  have hself' : (l.remove q e).next e ≠ e := by
    rw [hn']
    exact hself
  rw [remove_spec _ q' hself', hn', hp']
  rcases hnext with ⟨hn, rfl⟩ | ⟨y, ys', rfl, hn, hy0⟩
  · have hu : (l.remove q e).unhook q' e
        = { l.remove q e with last := Function.update (l.remove q e).last q' (l.prev e) } := by
      have hz' : ¬ (l.remove q e).next e ≠ 0 := by
        rw [hn', hn]
        exact fun h => h rfl
      rw [unhook, if_neg hz', hp']
    have hr : l.next e = ((l.remove q e).unhook q' e).read (l.prev e) := by
      rw [unhook_read, hm']
    rw [if_pos rfl, ← hu]
    conv_lhs => rw [hr]
    exact write_read _ _
  · have hpy : (l.remove q e).prev y = l.prev e := by
      have hny : l.next e ≠ 0 := by
        rw [hn]
        exact hy0
      rw [hl, prev_write, unhook, if_pos hny, hn]
      exact Function.update_self y _ _
    have hu : (l.remove q e).unhook q' e = l.remove q e := by
      have hz' : (l.remove q e).next e ≠ 0 := by
        rw [hn', hn]
        exact hy0
      rw [unhook, if_pos hz', hn', hn, hp', ← hpy, Function.update_eq_self]
    rw [if_neg (List.cons_ne_nil y ys'), hu]
    conv_lhs => rw [← hm']
    exact write_read _ _

theorem Chain.remove_remove (q' : η) (h : l.Chain q (xs ++ e :: ys)) :
    ((l.remove q e).remove q' e).Chain q (xs ++ ys) := by
  have hc := h.remove q
  obtain ⟨hnd, z, hs, hz⟩ := h
  rw [Links.remove_remove q' hs hz hnd]
  exact hc.setLast _

end

/-! ## the loop -/

/-- the addresses a loop that starts at `a` sees in `k` rounds -/
def elemsFrom (l : Links η) : Nat → Nat → List Nat
  | 0, _ => []
  | k + 1, a => if a = 0 then [] else a :: l.elemsFrom k (l.next a)

/-- addresses have 32 bits, so no queue has more elements -/
def elems (l : Links η) (q : η) : List Nat := l.elemsFrom (2 ^ 32) (l.first q)

theorem Seg.elemsFrom {k : Nat} (h : l.Seg r xs z) (hz : l.read z = 0) (hk : xs.length ≤ k) :
    l.elemsFrom k (l.read r) = xs := by
  induction xs generalizing r k with
  | nil =>
    have e : r = z := h
    rw [e, hz]
    cases k with
    | zero => rfl
    | succ k => exact if_pos rfl
  | cons x xs ih =>
    obtain ⟨h0, hr, -, hs⟩ := h
    cases k with
    | zero => exact absurd hk (by simp)
    | succ k =>
      rw [hr, Links.elemsFrom, if_neg h0]
      have hlen : xs.length ≤ k := by simpa using hk
      exact congrArg (x :: ·) (ih hs hlen)

theorem Chain.elems (h : l.Chain q xs) (hlt : ∀ x ∈ xs, x < 2 ^ 32) : l.elems q = xs := by
  obtain ⟨hnd, z, hs, hz⟩ := h
  refine hs.elemsFrom hz ?_
  calc xs.length = xs.toFinset.card := (List.toFinset_card_of_nodup hnd).symm
    _ ≤ (Finset.range (2 ^ 32)).card := by
      apply Finset.card_le_card
      intro x hx
      exact Finset.mem_range.mpr (hlt x (List.mem_toFinset.mp hx))
    _ = 2 ^ 32 := Finset.card_range _

end Links

end Lib
