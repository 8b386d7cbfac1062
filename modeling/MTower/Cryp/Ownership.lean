import MTower.Lib.Ownership
import MTower.Cryp.Lifetime

/-!
# Keys, operations and the life of objects over whole runs

`busy` marks the objects that are keys of a state, and a state owns its keys.  Every call but
`utee_cryp_obj_close` keeps the mark exact and the queues true to the heap; that call releases an
object and leaves it in the queue.

* `Sound`            the invariant of a run;
* `call_sound`       one call keeps it;
* `keysOwned_run`    what it says about keys;
* `objectsLive_iff`  the runs in which the object queue stays true to the heap.
-/

set_option linter.unusedVariables false

namespace MTower.Cryp
open Lib Kernel

/-- `k` is `key1` or `key2` of the state `s` -/
def Owns (u : Utc) (s k : Nat) : Prop :=
  k ≠ 0 ∧ ∃ cs, u.st s = some cs ∧ (k = cs.key1 ∨ k = cs.key2)

def Busy (u : Utc) (k : Nat) : Prop := ∃ x, u.obj k = some x ∧ x.busy = true

/-- the keys of a state have the type that its algorithm wants -/
def Fits (u : Utc) : Prop :=
  ∀ s cs k x, u.st s = some cs → (k = cs.key1 ∨ k = cs.key2) → u.obj k = some x →
    teeSvcCrypCheckKeyType x cs.algo cs.mode = teeSuccess

structure Sound (p : Provider) (u : Utc) : Prop where
  core : Core p u
  exclusive : Exclusive (Owns u) (Busy u)
  fits : Fits u

section
variable {p : Provider} {u t : Utc}

theorem Sound.empty (answers : Nat → Nat) : Sound p (Utc.empty answers) := by
  refine ⟨Core.empty answers, ⟨?_, ?_, ?_⟩, ?_⟩
  · rintro s r ⟨-, cs, hcs, -⟩
    cases hcs
  · rintro s s' r ⟨-, cs, hcs, -⟩
    cases hcs
  · rintro r ⟨x, hx, -⟩
    cases hx
  · intro s cs k x hcs
    cases hcs

theorem Owns.congr (h : t.st = u.st) (s k : Nat) : Owns t s k ↔ Owns u s k := by
  unfold Owns
  rw [h]

theorem Busy.congr (h : t.obj = u.obj) (k : Nat) : Busy t k ↔ Busy u k := by
  unfold Busy
  rw [h]

/-! ## one call -/

theorem Sound.unchanged (hs : Sound p u) (h : Unchanged p u t) : Sound p t := by
  refine ⟨h.core, hs.exclusive.congr (Owns.congr h.st) (Busy.congr h.obj), ?_⟩
  intro s cs k x hcs hk hx
  rw [h.st] at hcs
  rw [h.obj] at hx
  exact hs.fits s cs k x hcs hk hx

theorem checkKeyType_congr {x x' : TeeObj} (h : x'.info.objectType = x.info.objectType)
    (algo mode : Nat) :
    teeSvcCrypCheckKeyType x' algo mode = teeSvcCrypCheckKeyType x algo mode := by
  unfold teeSvcCrypCheckKeyType
  rw [h]

theorem SameBlock.busy_eq {x x' : TeeObj} (h : SameBlock (.obj x) (.obj x')) :
    x'.busy = x.busy := by
  cases h with
  | refl => rfl
  | obj h1 h2 h3 h4 => exact h1

theorem SameBlock.type_eq {x x' : TeeObj} (h : SameBlock (.obj x) (.obj x')) :
    x'.info.objectType = x.info.objectType := by
  cases h with
  | refl => rfl
  | obj h1 h2 h3 h4 => exact h3

theorem Sound.kept (hs : Sound p u) (h : Kept u t) : Sound p t := by
  refine ⟨hs.core.kept h, hs.exclusive.congr (Owns.congr h.st_eq) fun k => ?_, ?_⟩
  · constructor
    · rintro ⟨x', hx', hb⟩
      obtain ⟨x, hx, hsame⟩ := h.obj_of hx'
      exact ⟨x, hx, hsame.busy_eq ▸ hb⟩
    · rintro ⟨x, hx, hb⟩
      obtain ⟨x', hx', hsame⟩ := h.obj hx
      exact ⟨x', hx', hsame.busy_eq.trans hb⟩
  · intro s cs k x' hcs hk hx'
    rw [h.st_eq] at hcs
    obtain ⟨x, hx, hsame⟩ := h.obj_of hx'
    rw [checkKeyType_congr hsame.type_eq]
    exact hs.fits s cs k x hcs hk hx

/-- a key of a state is a live object -/
theorem Sound.key_obj (hs : Sound p u) {s k : Nat} {cs : CrypState} (hcs : u.st s = some cs)
    (hk : k = cs.key1 ∨ k = cs.key2) (h0 : k ≠ 0) : ∃ x, u.obj k = some x ∧ x.busy = true :=
  hs.exclusive.held_of_owns s k ⟨h0, cs, hcs, hk⟩

theorem Sound.added {a : Nat} {x : TeeObj} (hs : Sound p u) (h : Added p a x u t)
    (hx : x.busy = false) : Sound p t := by
  have hna : u.obj a = none := obj_of_none h.fresh
  refine ⟨h.core, hs.exclusive.congr (Owns.congr h.st) fun k => ?_, ?_⟩
  · unfold Busy
    rw [h.obj]
    by_cases hk : k = a
    · subst hk
      rw [Function.update_self, hna]
      constructor
      · rintro ⟨y, hy, hb⟩
        rw [Option.some_inj] at hy
        rw [← hy, hx] at hb
        cases hb
      · rintro ⟨y, hy, -⟩
        cases hy
    · rw [Function.update_of_ne hk]
  · intro s cs k y hcs hk hy
    rw [h.st] at hcs
    by_cases h0 : k = 0
    · rw [h.obj, Function.update_of_ne (h0 ▸ h.ne_zero.symm), h0, obj_of_none hs.core.null] at hy
      cases hy
    · obtain ⟨z, hz, -⟩ := hs.key_obj hcs hk h0
      have hka : k ≠ a := by
        rintro rfl
        rw [hna] at hz
        cases hz
      rw [h.obj, Function.update_of_ne hka] at hy
      exact hs.fits s cs k y hcs hk hy

theorem busied_some {key1 key2 k : Nat} {obj : Nat → Option TeeObj} {x : TeeObj}
    (h : busied key1 key2 obj k = some x) : ∃ y, obj k = some y ∧
      x.info = y.info ∧ (x.busy = true ↔ y.busy = true ∨ k = key1 ∨ k = key2) := by
  unfold busied at h
  by_cases hk : k = key1 ∨ k = key2
  · rw [if_pos hk] at h
    obtain ⟨y, hy, rfl⟩ := Option.map_eq_some_iff.mp h
    exact ⟨y, hy, rfl, by simp [hk]⟩
  · rw [if_neg hk] at h
    exact ⟨x, h, rfl, by simp [hk]⟩

theorem busied_of_some (key1 key2 : Nat) {k : Nat} {obj : Nat → Option TeeObj} {y : TeeObj}
    (h : obj k = some y) : ∃ x, busied key1 key2 obj k = some x := by
  unfold busied
  rw [h]
  split
  · exact ⟨_, rfl⟩
  · exact ⟨_, rfl⟩

theorem Sound.registered {s algo mode key1 key2 : Nat} (hs : Sound p u)
    (h : Registered p s algo mode key1 key2 u t) : Sound p t := by
  obtain ⟨ctx, hst⟩ := h.st
  have hns : u.st s = none := st_of_none h.fresh
  have hfree : ∀ k, (k = key1 ∨ k = key2) → KeyFree u algo mode k := by
    rintro k (rfl | rfl)
    · exact h.free1
    · exact h.free2
  refine ⟨h.core, hs.exclusive.acquire (s := s) (R := fun k => k ≠ 0 ∧ (k = key1 ∨ k = key2))
    ?_ ?_ ?_ ?_, ?_⟩
  · rintro k ⟨-, cs, hcs, -⟩
    rw [hns] at hcs
    cases hcs
  · rintro k ⟨h0, hk⟩ ⟨x, hx, hb⟩
    obtain ⟨y, hy, hnb, -⟩ := (hfree k hk).resolve_left h0
    rw [hx, Option.some_inj] at hy
    rw [← hy, hb] at hnb
    cases hnb
  · intro r k
    unfold Owns
    rw [hst]
    by_cases hr : r = s
    · subst hr
      rw [Function.update_self, hns]
      constructor
      · rintro ⟨h0, cs, hcs, hk⟩
        rw [Option.some_inj] at hcs
        subst hcs
        exact .inr ⟨rfl, h0, hk⟩
      · rintro (⟨-, cs, hcs, -⟩ | ⟨-, h0, hk⟩)
        · cases hcs
        · exact ⟨h0, _, rfl, hk⟩
    · rw [Function.update_of_ne hr]
      simp [hr]
  · intro k
    unfold Busy
    rw [h.obj]
    constructor
    · rintro ⟨x, hx, hb⟩
      obtain ⟨y, hy, -, hiff⟩ := busied_some hx
      rcases hiff.mp hb with hyb | hk
      · exact .inl ⟨y, hy, hyb⟩
      · exact .inr ⟨hs.core.live_ne_null (Utc.obj_iff.mp hy), hk⟩
    · intro hk
      have hy : ∃ y, u.obj k = some y ∧ (y.busy = true ∨ k = key1 ∨ k = key2) := by
        rcases hk with ⟨y, hy, hb⟩ | ⟨h0, hk⟩
        · exact ⟨y, hy, .inl hb⟩
        · obtain ⟨y, hy, -⟩ := (hfree k hk).resolve_left h0
          exact ⟨y, hy, .inr hk⟩
      obtain ⟨y, hy, hb⟩ := hy
      obtain ⟨x, hx⟩ := busied_of_some key1 key2 hy
      obtain ⟨y', hy', -, hiff⟩ := busied_some hx
      rw [hy, Option.some_inj] at hy'
      subst hy'
      exact ⟨x, hx, hiff.mpr hb⟩
  · intro r cs k x hcs hk hx
    rw [h.obj] at hx
    obtain ⟨y, hy, hinfo, -⟩ := busied_some hx
    rw [checkKeyType_congr (congrArg ObjectInfo.objectType hinfo)]
    rw [hst] at hcs
    by_cases hr : r = s
    · rw [hr, Function.update_self, Option.some_inj] at hcs
      subst hcs
      have h0 : k ≠ 0 := hs.core.live_ne_null (Utc.obj_iff.mp hy)
      obtain ⟨z, hz, -, hok⟩ := (hfree k hk).resolve_left h0
      rw [hy, Option.some_inj] at hz
      rw [hz]
      exact hok
    · rw [Function.update_of_ne hr] at hcs
      exact hs.fits r cs k y hcs hk hy

theorem Sound.freedState {s : Nat} {cs : CrypState} (hs : Sound p u) (hcs : u.st s = some cs)
    (h : FreedState p s cs u t) : Sound p t := by
  refine ⟨h.core, hs.exclusive.release (s := s) ?_ ?_, ?_⟩
  · intro r k
    unfold Owns
    rw [h.st]
    by_cases hr : r = s
    · simp [hr]
    · simp [hr]
  · intro k
    unfold Busy Owns
    rw [h.obj]
    by_cases hk : k = cs.key1 ∨ k = cs.key2
    · rw [if_pos hk]
      constructor
      · rintro ⟨x, hx, -⟩
        cases hx
      · rintro ⟨⟨x, hx, -⟩, hno⟩
        exact absurd ⟨hs.core.live_ne_null (Utc.obj_iff.mp hx), cs, hcs, hk⟩ hno
    · rw [if_neg hk]
      constructor
      · intro hb
        refine ⟨hb, ?_⟩
        rintro ⟨-, cs', hcs', hk'⟩
        rw [hcs, Option.some_inj] at hcs'
        subst hcs'
        exact hk hk'
      · exact fun hb => hb.1
  · intro r cs' k x hcs' hk hx
    rw [h.st] at hcs'
    rw [h.obj] at hx
    by_cases hr : r = s
    · rw [if_pos hr] at hcs'
      cases hcs'
    · rw [if_neg hr] at hcs'
      by_cases hk' : k = cs.key1 ∨ k = cs.key2
      · rw [if_pos hk'] at hx
        cases hx
      · rw [if_neg hk'] at hx
        exact hs.fits r cs' k x hcs' hk hx

/-- a call that releases no object behind the back of the queue -/
def Call.Gentle (c : Call) : Prop := ∀ h, c = .objClose h → h = 0

/-- **Every call but the close of an object keeps the invariant.** -/
theorem call_sound {c : Call} (hs : Sound p u) (hc : c.Gentle) :
    wp (call p c) (fun _ t => Sound p t) u := by
  cases c with
  | objAlloc ty n =>
    refine wp_mono (uteeCrypObjAlloc_spec hs.core) ?_
    rintro r t (⟨-, h⟩ | ⟨-, x, hx, h, -⟩)
    · exact hs.unchanged h
    · exact hs.added h hx
  | objPopulate mem o l =>
    rw [call, wp_bind]
    exact wp_mono (uteeCrypObjPopulate_kept hs.core) fun _ t h => hs.kept h
  | objCopy d s =>
    rw [call, wp_bind]
    exact wp_mono (uteeCrypObjCopy_kept hs.core) fun _ t h => hs.kept h
  | objReset o =>
    rw [call, wp_bind]
    exact wp_mono (uteeCrypObjReset_kept hs.core) fun _ t h => hs.kept h
  | objClose o =>
    obtain rfl := hc o rfl
    exact hs
  | stateAlloc algo mode key1 key2 =>
    refine wp_mono (uteeCrypStateAlloc_spec hs.core) ?_
    rintro r t (⟨-, hl, hb⟩ | ⟨-, h⟩)
    · exact hs.unchanged (hs.core.unchanged hl hb)
    · exact hs.registered h
  | stateFree s =>
    rw [call, wp_bind, uteeCrypStateFree, wp_bind, wp_teeSvcCrypGetState hs.core]
    by_cases hm : s ∈ u.crypStates
    · obtain ⟨cs, hcs⟩ := hs.core.stBlock hm
      have hcs' := Utc.st_iff.mpr hcs
      rw [if_pos hm, if_neg (not_not.mpr rfl), wp_bind]
      exact wp_mono (crypStateFree_spec hs.core hcs') fun _ t h => hs.freedState hcs' h
    · have hne : teeErrorBadParameters ≠ teeSuccess := by decide
      rw [if_neg hm, if_pos hne]
      exact hs

/-! ## keys -/

/-- what holds of the keys, of a refused allocation and of the end of the context -/
structure KeysOwned (p : Provider) (u : Utc) : Prop where
  key : ∀ s ∈ u.crypStates, ∃ cs, u.st s = some cs ∧ ∀ k, (k = cs.key1 ∨ k = cs.key2) → k ≠ 0 →
    k ∈ u.objects ∧ ∃ x, u.obj k = some x ∧ x.busy = true ∧
      teeSvcCrypCheckKeyType x cs.algo cs.mode = teeSuccess
  busy : ∀ k x, u.obj k = some x → x.busy = true →
    ∃! s, s ∈ u.crypStates ∧ ∃ cs, u.st s = some cs ∧ (k = cs.key1 ∨ k = cs.key2)
  refused : ∀ algo mode key1 key2, wp (uteeCrypStateAlloc p algo mode key1 key2) (fun r t =>
    r.1 ≠ teeSuccess → t.heap.blocks = u.heap.blocks ∧ t.objects = u.objects ∧
      t.crypStates = u.crypStates ∧ t.freed = u.freed) u
  swept : wp (userTaCtxDestroy p) (fun _ t => Swept u t) u

theorem Sound.keysOwned (hs : Sound p u) : KeysOwned p u where
  key := by
    intro s hm
    obtain ⟨cs, hcs⟩ := hs.core.stBlock hm
    have hcs' := Utc.st_iff.mpr hcs
    refine ⟨cs, hcs', fun k hk h0 => ?_⟩
    obtain ⟨x, hx, hb⟩ := hs.key_obj hcs' hk h0
    have hmem : k ∈ u.objects := (hs.core.objMem k).mpr (by rw [hx]; rfl)
    exact ⟨hmem, x, hx, hb, hs.fits s cs k x hcs' hk hx⟩
  busy := by
    intro k x hx hb
    have h0 : k ≠ 0 := hs.core.live_ne_null (Utc.obj_iff.mp hx)
    obtain ⟨s, ⟨-, cs, hcs, hk⟩, huniq⟩ := hs.exclusive.existsUnique ⟨x, hx, hb⟩
    have hm : s ∈ u.crypStates := (hs.core.stMem s).mpr (by rw [hcs]; rfl)
    refine ⟨s, ⟨hm, cs, hcs, hk⟩, ?_⟩
    rintro s' ⟨-, cs', hcs', hk'⟩
    exact huniq s' ⟨h0, cs', hcs', hk'⟩
  refused := by
    intro algo mode key1 key2
    refine wp_mono (uteeCrypStateAlloc_spec hs.core) ?_
    rintro r t (⟨-, hl, hb⟩ | ⟨hr, -⟩) hne
    · exact ⟨hb, hl.objects, hl.crypStates, hl.freed⟩
    · exact absurd hr hne
  swept := userTaCtxDestroy_spec hs.core

/-- every state of a run that closes no object is sound -/
theorem sound_run (p : Provider) (answers : Nat → Nat) {l : List Call}
    (hl : ∀ h, Call.objClose h ∉ l) :
    wp (run (call p) l) (fun _ u => Sound p u) (Utc.empty answers) := by
  have hgentle : ∀ c ∈ l, c.Gentle := by
    intro c hc h e
    subst e
    exact absurd hc (hl h)
  have hstep : ∀ c u, Sound p u → c.Gentle → wp (call p c) (fun _ t => Sound p t) u :=
    fun c u hs hc => call_sound hs hc
  exact wp_run hstep ((guarded_const hstep (Sound.empty answers)).mpr hgentle) (Sound.empty answers)

/-- **Key ownership.**  Over every run without `utee_cryp_obj_close`, whatever the allocator
answers: the keys of a state are listed, busy objects of the right type, a busy object is a key of
one state, a refused state leaves the heap and the queues as they were, and the end of the context
releases every object that was made exactly once. -/
theorem keysOwned_run (p : Provider) (answers : Nat → Nat) (l : List Call)
    (hl : ∀ h, Call.objClose h ∉ l) :
    wp (run (call p) l) (fun _ u => KeysOwned p u) (Utc.empty answers) :=
  wp_mono (sound_run p answers hl) fun _ u hs => hs.keysOwned

/-- a library that knows every algorithm, and an allocator that never fails -/
def sampleProvider : Provider :=
  ⟨fun _ => true, fun _ => true, fun _ => true, fun buffer _ => (true, buffer.length)⟩

def sampleAnswers (n : Nat) : Nat := 0x1000 + n

/-- an AES key, used as both keys of an AES-XTS operation, which is then freed -/
def sampleCalls : List Call :=
  [.objAlloc teeTypeAes 128, .stateAlloc teeAlgAesXts 0 0x1000 0x1000, .stateFree 0x1002]

theorem keysOwned_run_sample : (∀ h, Call.objClose h ∉ sampleCalls) ∧
    wp (run (call sampleProvider) sampleCalls) (fun _ u => KeysOwned sampleProvider u)
      (Utc.empty sampleAnswers) := by
  have hl : ∀ h, Call.objClose h ∉ sampleCalls := by
    intro h hm
    simp [sampleCalls] at hm
  exact ⟨hl, keysOwned_run sampleProvider sampleAnswers sampleCalls hl⟩

/-! ## the object queue -/

/-- the queue lists allocated objects only, a handle of no allocated object is rejected wherever it
is looked up, and the end of the context releases every object exactly once -/
structure ObjectsLive (p : Provider) (u : Utc) : Prop where
  allocated : ∀ a ∈ u.objects, ∃ x, u.obj a = some x
  rejected : ∀ h, u.obj h = none → wp (teeObjGet h) (fun r t => r = teeErrorBadParameters ∧ t = u) u
  released : wp (userTaCtxDestroy p) (fun _ t => Swept u t) u

theorem Sound.objectsLive (hs : Sound p u) : ObjectsLive p u where
  allocated := by
    intro a ha
    exact Option.isSome_iff_exists.mp ((hs.core.objMem a).mp ha)
  rejected := by
    intro h hn
    have hm : h ∉ u.objects := by
      intro hm
      rw [hs.core.objMem, hn] at hm
      cases hm
    rw [wp_teeObjGet hs.core, if_neg hm]
    exact ⟨rfl, rfl⟩
  released := userTaCtxDestroy_spec hs.core

/-- the close of a handle that is no object faults -/
theorem uteeCrypObjClose_fault {h : Nat} (h0 : h ≠ 0) (hn : u.obj h = none)
    {Q : Nat → Utc → Prop} : ¬ wp (uteeCrypObjClose h) Q u := by
  rw [uteeCrypObjClose, wp_bind, teeObjFree, if_neg h0, wp_bind, teeObjAttrFree, onAttrs, wp_bind,
    objAt, wp_bind, blockAt, wp_bind, wp_get]
  cases hb : u.heap.blocks h with
  | none => exact id
  | some b =>
    cases b with
    | obj x =>
      rw [Utc.obj_iff.mpr hb] at hn
      cases hn
    | _ => exact id

/-- **The close of an object leaves it in the queue.** -/
theorem objClose_breaks {h : Nat} (hs : Sound p u) (h0 : h ≠ 0) :
    ¬ wp (call p (.objClose h)) (fun _ t => ObjectsLive p t) u := by
  intro hw
  rw [call, wp_bind] at hw
  cases hx : u.obj h with
  | none => exact uteeCrypObjClose_fault h0 hx hw
  | some x =>
    have hb := Utc.obj_iff.mp hx
    have hfree := teeObjFree_spec hs.core.null hb (hs.core.objOk h x hx)
    have hclose : wp (uteeCrypObjClose h) (fun _ t => Gone h u t) u := by
      rw [uteeCrypObjClose, wp_bind]
      exact hfree
    obtain ⟨r, t, hlive, hgone⟩ := wp_wlp hw (wlp_of_wp hclose)
    have hm : h ∈ t.objects := by
      rw [hgone.objects]
      exact (hs.core.objMem h).mpr (by rw [hx]; rfl)
    obtain ⟨y, hy⟩ := hlive.allocated h hm
    rw [hgone.obj_self] at hy
    cases hy

/-- **Liveness of the object queue.**  The queue is true to the heap in every state of a run exactly
when the run closes no handle but the null handle. -/
theorem objectsLive_iff (p : Provider) (answers : Nat → Nat) (l : List Call) :
    (∀ m, m <+: l → wp (run (call p) m) (fun _ u => ObjectsLive p u) (Utc.empty answers)) ↔
      ∀ h, Call.objClose h ∈ l → h = 0 := by
  have hstep : ∀ c u, Sound p u → c.Gentle → wp (call p c) (fun _ t => Sound p t) u :=
    fun c u hs hc => call_sound hs hc
  have hbreak : ∀ c u, Sound p u → wp (call p c) (fun _ t => ObjectsLive p t) u → c.Gentle := by
    intro c u hs hw h e
    subst e
    by_contra h0
    exact objClose_breaks hs h0 hw
  rw [guarded_iff (fun u hs => hs.objectsLive) hstep hbreak (Sound.empty answers),
    guarded_const hstep (Sound.empty answers)]
  constructor
  · intro hg h hm
    exact hg _ hm h rfl
  · intro hg c hc h e
    subst e
    exact hg h hc

/-- one object, closed: its handle still resolves, and the end of the context reads it again -/
theorem objectsLive_fails : ¬ ∀ m, m <+: [.objAlloc teeTypeAes 128, .objClose 0x1000] →
    wp (run (call sampleProvider) m) (fun _ u => ObjectsLive sampleProvider u)
      (Utc.empty sampleAnswers) := by
  intro h
  obtain ⟨r, u, e, hlive⟩ := wp_iff.mp (h _ List.prefix_rfl)
  have hrun : (match run (call sampleProvider) [.objAlloc teeTypeAes 128, .objClose 0x1000]
      (Utc.empty sampleAnswers) with
    | .ok (_, t) => (t.objects, t.obj 0x1000)
    | .error _ => ([], none)) = ([0x1000], none) := by decide
  rw [e] at hrun
  obtain ⟨ho, hn⟩ := Prod.mk.inj hrun
  obtain ⟨x, hx⟩ := hlive.allocated 0x1000 (by rw [ho]; exact List.mem_singleton_self _)
  rw [hn] at hx
  cases hx

end

end MTower.Cryp
