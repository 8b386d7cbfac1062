import Mathlib

/-!
# The session table

What the two queues and the blocks say about sessions, apart from the worlds of the TAs, is a
`View`.  Two changes of a view are all that a request can make to it: a session is added with its
context, or removed with it.

* `Table`                         the invariant: sessions and contexts are in bijection;
* `Table.opened`, `Table.closed`  the two changes keep it.
-/

set_option linter.unusedVariables false

namespace MTower.Kernel

/-! ## views -/

inductive Shape where
  | session (ctx : Nat)
  | user (openSessions : List Nat)
  | pseudo
deriving DecidableEq, Repr

structure View where
  openSessions : List Nat
  ctxes : List Nat
  shape : Nat → Option Shape

namespace View

/-- a new session `s` with a new context `c` -/
def opened (v : View) (s c : Nat) (sh : Shape) : View where
  openSessions := s :: v.openSessions
  ctxes := c :: v.ctxes
  shape := Function.update (Function.update v.shape s (some (.session c))) c (some sh)

/-- session `s` and its context `c` are gone -/
def closed (v : View) (s c : Nat) : View where
  openSessions := v.openSessions.erase s
  ctxes := v.ctxes.erase c
  shape := Function.update (Function.update v.shape s none) c none

end View

/-- Sessions and contexts are in bijection, and nothing else is allocated. -/
structure Table (v : View) : Prop where
  sessions_nodup : v.openSessions.Nodup
  ctxes_nodup : v.ctxes.Nodup
  zero_notMem : 0 ∉ v.openSessions ∧ 0 ∉ v.ctxes
  ctx_mem : ∀ s ∈ v.openSessions, ∃ c ∈ v.ctxes, v.shape s = some (.session c)
  distinct : ∀ s ∈ v.openSessions, ∀ t ∈ v.openSessions, ∀ c,
    v.shape s = some (.session c) → v.shape t = some (.session c) → s = t
  owned : ∀ c ∈ v.ctxes, ∃ s ∈ v.openSessions, v.shape s = some (.session c)
  isCtx : ∀ c ∈ v.ctxes, v.shape c = some (.user []) ∨ v.shape c = some .pseudo
  only : ∀ a, v.shape a ≠ none → a ∈ v.openSessions ∨ a ∈ v.ctxes

theorem Table.empty : Table ⟨[], [], fun _ => none⟩ where
  sessions_nodup := List.nodup_nil
  ctxes_nodup := List.nodup_nil
  zero_notMem := ⟨List.not_mem_nil, List.not_mem_nil⟩
  ctx_mem := fun s hs => absurd hs List.not_mem_nil
  distinct := fun s hs => absurd hs List.not_mem_nil
  owned := fun c hc => absurd hc List.not_mem_nil
  isCtx := fun c hc => absurd hc List.not_mem_nil
  only := fun a ha => absurd rfl ha

section
variable {v : View}

theorem Table.shape_session (h : Table v) {s : Nat} (hs : s ∈ v.openSessions) :
    ∃ c, v.shape s = some (.session c) := by
  obtain ⟨c, -, hc⟩ := h.ctx_mem s hs
  exact ⟨c, hc⟩

theorem Table.notMem_ctxes (h : Table v) {s : Nat} (hs : s ∈ v.openSessions) : s ∉ v.ctxes := by
  intro hc
  obtain ⟨c, e⟩ := h.shape_session hs
  rcases h.isCtx s hc with e' | e' <;> rw [e] at e' <;> cases e'

theorem Table.notMem_of_fresh (h : Table v) {a : Nat} (ha : v.shape a = none) :
    a ∉ v.openSessions ∧ a ∉ v.ctxes := by
  constructor
  · intro hm
    obtain ⟨c, e⟩ := h.shape_session hm
    rw [ha] at e
    cases e
  · intro hm
    rcases h.isCtx a hm with e | e <;> rw [ha] at e <;> cases e

/-- **Opening keeps the table.** -/
theorem Table.opened (h : Table v) {s c : Nat} {sh : Shape} (hs0 : s ≠ 0) (hc0 : c ≠ 0)
    (hs : v.shape s = none) (hc : v.shape c = none) (hne : c ≠ s)
    (hsh : sh = .user [] ∨ sh = .pseudo) : Table (v.opened s c sh) := by
  obtain ⟨hss, hsc⟩ := h.notMem_of_fresh hs
  obtain ⟨hcs, hcc⟩ := h.notMem_of_fresh hc
  have shape_s : (v.opened s c sh).shape s = some (.session c) := by
    show Function.update (Function.update v.shape s _) c _ s = _
    rw [Function.update_of_ne hne.symm, Function.update_self]
  have shape_c : (v.opened s c sh).shape c = some sh := Function.update_self _ _ _
  have shape_o : ∀ a, a ≠ s → a ≠ c → (v.opened s c sh).shape a = v.shape a := by
    intro a has hac
    show Function.update (Function.update v.shape s _) c _ a = _
    rw [Function.update_of_ne hac, Function.update_of_ne has]
  have shape_old : ∀ a, a ∈ v.openSessions ∨ a ∈ v.ctxes →
      (v.opened s c sh).shape a = v.shape a := by
    intro a ha
    refine shape_o a ?_ ?_
    · rintro rfl
      exact ha.elim hss hsc
    · rintro rfl
      exact ha.elim hcs hcc
  refine ⟨List.nodup_cons.mpr ⟨hss, h.sessions_nodup⟩, List.nodup_cons.mpr ⟨hcc, h.ctxes_nodup⟩,
    ⟨?_, ?_⟩, ?_, ?_, ?_, ?_, ?_⟩
  · exact fun hm => (List.mem_cons.mp hm).elim (fun e => hs0 e.symm) h.zero_notMem.1
  · exact fun hm => (List.mem_cons.mp hm).elim (fun e => hc0 e.symm) h.zero_notMem.2
  · intro t ht
    rcases List.mem_cons.mp ht with rfl | ht
    · exact ⟨c, List.mem_cons_self, shape_s⟩
    · obtain ⟨d, hd, e⟩ := h.ctx_mem t ht
      exact ⟨d, List.mem_cons_of_mem _ hd, by rw [shape_old t (Or.inl ht), e]⟩
  · intro t ht u hu d et eu
    have old_ne : ∀ x, x ∈ v.openSessions → (v.opened s c sh).shape x ≠ some (.session c) := by
      intro x hx e
      rw [shape_old x (Or.inl hx)] at e
      obtain ⟨d, hd, e'⟩ := h.ctx_mem x hx
      rw [e] at e'
      cases e'
      exact hcc hd
    rcases List.mem_cons.mp ht with rfl | ht' <;> rcases List.mem_cons.mp hu with rfl | hu'
    · rfl
    · rw [shape_s] at et
      cases et
      exact absurd eu (old_ne u hu')
    · rw [shape_s] at eu
      cases eu
      exact absurd et (old_ne t ht')
    · rw [shape_old t (Or.inl ht')] at et
      rw [shape_old u (Or.inl hu')] at eu
      exact h.distinct t ht' u hu' d et eu
  · intro d hd
    rcases List.mem_cons.mp hd with rfl | hd
    · exact ⟨s, List.mem_cons_self, shape_s⟩
    · obtain ⟨t, ht, e⟩ := h.owned d hd
      exact ⟨t, List.mem_cons_of_mem _ ht, by rw [shape_old t (Or.inl ht), e]⟩
  · intro d hd
    rcases List.mem_cons.mp hd with rfl | hd
    · rw [shape_c]
      rcases hsh with rfl | rfl
      · exact Or.inl rfl
      · exact Or.inr rfl
    · rw [shape_old d (Or.inr hd)]
      exact h.isCtx d hd
  · intro a ha
    by_cases has : a = s
    · exact Or.inl (by subst has; exact List.mem_cons_self)
    · by_cases hac : a = c
      · exact Or.inr (by subst hac; exact List.mem_cons_self)
      · rw [shape_o a has hac] at ha
        exact (h.only a ha).imp (List.mem_cons_of_mem _) (List.mem_cons_of_mem _)

/-- **Closing keeps the table.** -/
theorem Table.closed (h : Table v) {s c : Nat} (hs : s ∈ v.openSessions)
    (hc : v.shape s = some (.session c)) : Table (v.closed s c) := by
  have hcm : c ∈ v.ctxes := by
    obtain ⟨d, hd, e⟩ := h.ctx_mem s hs
    rw [hc] at e
    cases e
    exact hd
  have hcs : c ∉ v.openSessions := fun hm => h.notMem_ctxes hm hcm
  have mem_s : ∀ t, t ∈ (v.closed s c).openSessions ↔ t ≠ s ∧ t ∈ v.openSessions :=
    fun t => h.sessions_nodup.mem_erase_iff
  have mem_c : ∀ d, d ∈ (v.closed s c).ctxes ↔ d ≠ c ∧ d ∈ v.ctxes :=
    fun d => h.ctxes_nodup.mem_erase_iff
  have shape_o : ∀ a, a ≠ s → a ≠ c → (v.closed s c).shape a = v.shape a := by
    intro a has hac
    show Function.update (Function.update v.shape s _) c _ a = _
    rw [Function.update_of_ne hac, Function.update_of_ne has]
  have shape_sess : ∀ t, t ≠ s → t ∈ v.openSessions →
      (v.closed s c).shape t = v.shape t := by
    intro t hts ht
    exact shape_o t hts fun e => hcs (e ▸ ht)
  refine ⟨h.sessions_nodup.erase s, h.ctxes_nodup.erase c, ⟨?_, ?_⟩, ?_, ?_, ?_, ?_, ?_⟩
  · exact fun hm => h.zero_notMem.1 ((mem_s 0).mp hm).2
  · exact fun hm => h.zero_notMem.2 ((mem_c 0).mp hm).2
  · intro t ht
    obtain ⟨hts, ht'⟩ := (mem_s t).mp ht
    obtain ⟨d, hd, e⟩ := h.ctx_mem t ht'
    refine ⟨d, (mem_c d).mpr ⟨?_, hd⟩, by rw [shape_sess t hts ht', e]⟩
    intro hdc
    rw [hdc] at e
    exact hts (h.distinct t ht' s hs c e hc)
  · intro t ht u hu d et eu
    obtain ⟨hts, ht⟩ := (mem_s t).mp ht
    obtain ⟨hus, hu⟩ := (mem_s u).mp hu
    rw [shape_sess t hts ht] at et
    rw [shape_sess u hus hu] at eu
    exact h.distinct t ht u hu d et eu
  · intro d hd
    obtain ⟨hdc, hd⟩ := (mem_c d).mp hd
    obtain ⟨t, ht, e⟩ := h.owned d hd
    have hts : t ≠ s := by
      rintro rfl
      rw [hc] at e
      cases e
      exact hdc rfl
    exact ⟨t, (mem_s t).mpr ⟨hts, ht⟩, by rw [shape_sess t hts ht, e]⟩
  · intro d hd
    obtain ⟨hdc, hd'⟩ := (mem_c d).mp hd
    have hds : d ≠ s := fun e => h.notMem_ctxes hs (e ▸ hd')
    rw [shape_o d hds hdc]
    exact h.isCtx d hd'
  · intro a ha
    have hac : a ≠ c := by
      rintro rfl
      exact ha (Function.update_self _ _ _)
    have has : a ≠ s := by
      rintro rfl
      refine ha ?_
      show Function.update (Function.update v.shape a none) c none a = none
      rw [Function.update_of_ne hac, Function.update_self]
    rw [shape_o a has hac] at ha
    exact (h.only a ha).imp (fun hm => (mem_s a).mpr ⟨has, hm⟩) fun hm => (mem_c a).mpr ⟨hac, hm⟩

end

end MTower.Kernel
