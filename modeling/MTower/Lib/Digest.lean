import MTower.Lib.Exec

/-!
# Digests of messages

A party that takes a message in pieces and gives out its digest.

* `Digest`, `Digest.step`   the calls, and what they come to;
* `Digest.answers_message`  however a message is cut, the digest is the one of its pieces in order;
* `Digest.refines`          a program whose calls are simulated gives the same replies.
-/

set_option linter.unusedVariables false

namespace Lib

/-- digests of `size` elements; `again` is the message that the end of a message leaves, `none` when
the next one must be started -/
structure Digest (α : Type) where
  size : Nat
  hash : List α → List α
  again : Option (List α)

namespace Digest

/-- a call: the start of a message, a piece of it, and its last piece with room for the digest -/
inductive Call (α : Type) where
  | start
  | add (d : List α)
  | finish (d : List α) (room : Nat)

/-- `short` is the room that is needed -/
inductive Reply (α : Type) where
  | done
  | short (size : Nat)
  | digest (d : List α)
deriving DecidableEq, Repr

section
variable {α : Type} (p : Digest α)

/-- the reply to a call and the message behind it, by the message so far -/
def step : Option (List α) → Call α → Option (Reply α × Option (List α))
  | _, .start => some (.done, some [])
  | none, _ => none
  | some m, .add d => some (.done, some (m ++ d))
  | some m, .finish d room =>
    if room < p.size then some (.short p.size, some m)
    else some (.digest (p.hash (m ++ d)), p.again)

/-- the replies to the calls, when each of them is allowed -/
def answers : Option (List α) → List (Call α) → Option (List (Reply α))
  | _, [] => some []
  | m, x :: l =>
    match p.step m x with
    | none => none
    | some (r, n) => (answers n l).map (r :: ·)

variable {p}

theorem step_start (m : Option (List α)) : p.step m .start = some (.done, some []) := by
  cases m with
  | none => rfl
  | some m => rfl

/-- a digest that goes on by itself allows every call -/
theorem answers_total {a : List α} (ha : p.again = some a) (m : List α) (l : List (Call α)) :
    ∃ rs, p.answers (some m) l = some rs := by
  induction l generalizing m with
  | nil => exact ⟨[], rfl⟩
  | cons x l ih =>
    have hx : ∃ r n, p.step (some m) x = some (r, some n) := by
      cases x with
      | start => exact ⟨.done, [], rfl⟩
      | add d => exact ⟨.done, m ++ d, rfl⟩
      | finish d room =>
        rw [step, ha]
        split
        · exact ⟨_, _, rfl⟩
        · exact ⟨_, _, rfl⟩
    obtain ⟨r, n, hx⟩ := hx
    obtain ⟨rs, hrs⟩ := ih n
    have hall : p.answers (some m) (x :: l) = (p.answers (some n) l).map (r :: ·) := by
      rw [answers, hx]
    rw [hall, hrs]
    exact ⟨r :: rs, rfl⟩

theorem answers_adds {m : List α} {l : List (Call α)} (pieces : List (List α)) :
    p.answers (some m) (pieces.map .add ++ l) =
      (p.answers (some (m ++ pieces.flatten)) l).map (List.replicate pieces.length .done ++ ·) := by
  induction pieces generalizing m with
  | nil => simp
  | cons d pieces ih =>
    rw [List.map_cons, List.cons_append, answers]
    show (p.answers (some (m ++ d)) (pieces.map .add ++ l)).map (.done :: ·) = _
    rw [ih, Option.map_map, List.flatten_cons, List.append_assoc]
    rfl

/-- calls without enough room change nothing -/
theorem answers_shorts {m : List α} {l : List (Call α)} {tries : List (List α × Nat)}
    (ht : ∀ x ∈ tries, x.2 < p.size) :
    p.answers (some m) (tries.map (fun x => .finish x.1 x.2) ++ l) =
      (p.answers (some m) l).map (List.replicate tries.length (.short p.size) ++ ·) := by
  induction tries with
  | nil => simp
  | cons x tries ih =>
    have hx : p.step (some m) (.finish x.1 x.2) = some (.short p.size, some m) :=
      if_pos (ht x List.mem_cons_self)
    rw [List.map_cons, List.cons_append, answers, hx]
    show (p.answers (some m) (tries.map (fun x => .finish x.1 x.2) ++ l)).map _ = _
    rw [ih fun y hy => ht y (List.mem_cons_of_mem _ hy), Option.map_map]
    rfl

/-- **A message in pieces**, with attempts that lack room before the last one. -/
theorem answers_message {l : List (Call α)} {m : List (List α)} {tries : List (List α × Nat)}
    {d : List α} {room : Nat} (ht : ∀ x ∈ tries, x.2 < p.size) (hroom : p.size ≤ room) :
    p.answers (some []) (m.map .add ++ (tries.map (fun x => .finish x.1 x.2) ++
        .finish d room :: l)) =
      (p.answers p.again l).map fun r => List.replicate m.length .done ++
        (List.replicate tries.length (.short p.size) ++ .digest (p.hash (m.flatten ++ d)) :: r) := by
  have hlast : p.step (some m.flatten) (.finish d room) =
      some (.digest (p.hash (m.flatten ++ d)), p.again) := if_neg (Nat.not_lt.mpr hroom)
  rw [answers_adds, List.nil_append, answers_shorts ht, answers, hlast]
  show (((p.answers p.again l).map _).map _).map _ = _
  rw [Option.map_map, Option.map_map]
  rfl

end

/-! ## programs -/

section
variable {ε σ κ α : Type}

/-- the replies to the calls `l` of a program -/
def collect (call : κ → Exec ε σ (Reply α)) : List κ → Exec ε σ (List (Reply α))
  | [] => pure []
  | x :: l => do
    let r ← call x
    let rs ← collect call l
    pure (r :: rs)

/-- **Refinement rule**, for calls that meet `G`. -/
theorem refines {p : Digest α} {call : κ → Exec ε σ (Reply α)} {view : κ → Call α} {G : κ → Prop}
    {I : Option (List α) → σ → Prop}
    (hstep : ∀ m x s r n, I m s → G x → p.step m (view x) = some (r, n) →
      wp (call x) (fun q t => q = r ∧ I n t) s)
    {l : List κ} {m : Option (List α)} {s : σ} {rs : List (Reply α)} (hs : I m s)
    (hg : ∀ x ∈ l, G x) (hl : p.answers m (l.map view) = some rs) :
    wp (collect call l) (fun q t => q = rs ∧ ∃ n, I n t) s := by
  induction l generalizing m s rs with
  | nil =>
    cases hl
    exact ⟨rfl, m, hs⟩
  | cons x l ih =>
    rw [List.map_cons, answers] at hl
    cases hx : p.step m (view x) with
    | none =>
      rw [hx] at hl
      cases hl
    | some q =>
      obtain ⟨r, n⟩ := q
      rw [hx] at hl
      obtain ⟨rs', hl', rfl⟩ := Option.map_eq_some_iff.mp hl
      rw [collect, wp_bind]
      refine wp_mono (hstep m x s r n hs (hg x List.mem_cons_self) hx) ?_
      rintro _ t ⟨rfl, ht⟩
      rw [wp_bind]
      refine wp_mono (ih ht (fun y hy => hg y (List.mem_cons_of_mem _ hy)) hl') ?_
      rintro _ v ⟨rfl, hv⟩
      exact ⟨rfl, hv⟩

end

end Digest
end Lib
