import MTower.Arith.Functions

/-!
# What a call does

With every temporary free, a call ends in a panic or stores one number, and every temporary is free
again.  Which number it is does not depend on the temporaries that operands share.

* `operands_run`, `freeOperand_run`   the temporaries of two operands;
* `binary_run`, `binaryMod_run`, …    each function by the number it stores;
* `Call.stored`, `run_eq`             all of them.
-/

set_option linter.unusedVariables false

namespace MTower.Arith
open Lib

/-- the temporary of a big integer -/
def Sys.read (s : Sys) (b : Nat) : Mpi := mpiOf (some (s.big b))

/-- no temporary holds a number -/
def Sys.Idle (s : Sys) : Prop := s.temps = fun _ => none

/-- a panic when there is nothing to store -/
def stored {α : Type} (a : α) : Option Sys → Except Fault (α × Sys)
  | none => .error .panic
  | some s => .ok (a, s)

section
variable {s s' v : Sys} {t own pop pop1 pop2 : Temp} {dest op op1 op2 n : Nat} {x a b d r : Mpi}
  {o : Option Nat} {o' : Option Mpi}

/-! ## one step -/

@[simp] theorem put_big (s : Sys) (t : Temp) (o : Option Mpi) : (s.put t o).big = s.big := rfl

@[simp] theorem put_stores (s : Sys) (t : Temp) (o : Option Mpi) :
    (s.put t o).stores = s.stores := rfl

@[simp] theorem put_read (s : Sys) (t : Temp) (o : Option Mpi) (b : Nat) :
    (s.put t o).read b = s.read b := rfl

@[simp] theorem put_temps (s : Sys) (t u : Temp) (o : Option Mpi) :
    (s.put t o).temps u = if u = t then o else s.temps u := Function.update_apply _ _ _ _

theorem getMpi_run (h : s.temps t = none) :
    getMpi t o s = .ok ((), s.put t (some (mpiOf (o.map s.big)))) := by
  simp only [getMpi, h]

theorem getMpi_some (h : s.temps t = none) :
    getMpi t (some op) s = .ok ((), s.put t (some (s.read op))) := getMpi_run h

theorem mpiAt_run (h : s.temps t = some x) : mpiAt t s = .ok (x, s) := by
  simp only [mpiAt, h]

theorem setMpi_run : setMpi t x s = .ok ((), s.put t (some x)) := rfl

theorem mpiCheck_run : mpiCheck (some x) s = .ok (x, s) := rfl

theorem mpiCheck_none : mpiCheck none s = .error .panic := rfl

theorem mpiFree_run (h : s.temps t = some x) : mpiFree t s = .ok ((), s.put t none) := by
  simp only [mpiFree, h]

theorem copyMpiToBigint_run (dest : Nat) (h : s.temps t = some x) : copyMpiToBigint t dest s =
    match s.store dest x with
    | none => .ok (teeErrorOverflow, s)
    | some s' => .ok (teeSuccess, s') := by
  rw [copyMpiToBigint, bind_of_ok (mpiAt_run h)]
  show (match s.store dest x with
    | none => pure teeErrorOverflow
    | some s' => do
      set s'
      pure teeSuccess : O Nat) s = _
  cases s.store dest x <;> rfl

theorem copyCheck_run (dest : Nat) (h : s.temps t = some x) :
    copyCheck t dest s = stored () (s.store dest x) := by
  have hcopy := copyMpiToBigint_run dest h
  cases hs : s.store dest x with
  | none =>
    rw [hs] at hcopy
    rw [copyCheck, bind_of_ok hcopy]
    rfl
  | some s' =>
    rw [hs] at hcopy
    rw [copyCheck, bind_of_ok hcopy]
    rfl

/-- a stored number leaves the temporaries -/
theorem store_temps (h : s.store dest x = some s') : s'.temps = s.temps := by
  unfold Sys.store at h
  split at h
  · cases h
  · cases h
    rfl

/-- the same store with other temporaries -/
def Sys.retemp (s : Sys) (temps : Temp → Option Mpi) : Sys := { s with temps := temps }

theorem eq_retemp (hbig : v.big = s.big) (hstores : v.stores = s.stores) :
    v = s.retemp v.temps := by
  rw [Sys.retemp, ← hbig, ← hstores]

theorem store_retemp (s : Sys) (temps : Temp → Option Mpi) :
    (s.retemp temps).store dest x = (s.store dest x).map fun s' => s'.retemp temps := by
  unfold Sys.store
  by_cases h : (s.big dest).allocSize < trim x.p x.n
  · rw [dif_pos h, dif_pos (show ((s.retemp temps).big dest).allocSize < _ from h)]
    rfl
  · rw [dif_neg h, dif_neg (show ¬ ((s.retemp temps).big dest).allocSize < _ from h)]
    rfl

theorem retemp_idle (hs : s.Idle) (h : s.store dest x = some s') : s'.retemp (fun _ => none) = s' := by
  rw [Sys.retemp, ← hs, ← store_temps h]

/-- **The end of a function**: the number is stored, and the temporaries are freed. -/
theorem closing_run {α : Type} {f : Unit → O α} {c : α} (hs : s.Idle) (hbig : v.big = s.big)
    (hstores : v.stores = s.stores) (ht : v.temps t = some r)
    (hf : ∀ w, w.temps = v.temps → f () w = .ok (c, w.retemp fun _ => none)) :
    (copyCheck t dest >>= f) v = stored c (s.store dest r) := by
  have hstore : v.store dest r = (s.store dest r).map fun s' => s'.retemp v.temps := by
    conv_lhs => rw [eq_retemp hbig hstores]
    exact store_retemp s v.temps
  have hcopy := copyCheck_run dest ht
  rw [hstore] at hcopy
  cases hr : s.store dest r with
  | none =>
    rw [hr] at hcopy
    exact bind_of_error hcopy
  | some s' =>
    rw [hr] at hcopy
    rw [bind_of_ok hcopy]
    have hend := hf (s'.retemp v.temps) rfl
    refine hend.trans (congrArg (fun u => Except.ok (c, u)) ?_)
    exact retemp_idle hs hr

/-! ## the operands -/

/-- the first operand has its temporary -/
structure Opened1 (s v : Sys) (pop1 : Temp) (a : Mpi) : Prop where
  big : v.big = s.big
  stores : v.stores = s.stores
  other : ∀ t, t ≠ .mpiOp1 → v.temps t = s.temps t
  first : v.temps pop1 = some a
  where1 : pop1 = .mpiDest ∨ pop1 = .mpiOp1
  own1 : pop1 ≠ .mpiOp1 → v.temps .mpiOp1 = none

/-- both operands have their temporaries -/
structure Opened (s v : Sys) (pop1 pop2 : Temp) (a b : Mpi) : Prop where
  big : v.big = s.big
  stores : v.stores = s.stores
  other : ∀ t, t ≠ .mpiOp1 → t ≠ .mpiOp2 → v.temps t = s.temps t
  first : v.temps pop1 = some a
  second : v.temps pop2 = some b
  own1 : pop1 ≠ .mpiOp1 → v.temps .mpiOp1 = none
  own2 : pop2 ≠ .mpiOp2 → v.temps .mpiOp2 = none

theorem operand1_run (dest op1 : Nat) (hd : s.temps .mpiDest = some (s.read dest))
    (h1 : s.temps .mpiOp1 = none) : ∃ pop1 v, operand1 dest op1 s = .ok (pop1, v) ∧
      Opened1 s v pop1 (s.read op1) := by
  unfold operand1
  by_cases h : op1 = dest
  · subst h
    rw [if_pos rfl]
    exact ⟨.mpiDest, s, rfl, rfl, rfl, fun _ _ => rfl, hd, .inl rfl, fun _ => h1⟩
  · rw [if_neg h, bind_of_ok (getMpi_some h1)]
    refine ⟨.mpiOp1, _, rfl, rfl, rfl, fun t ht => ?_, ?_, .inr rfl, fun hne => absurd rfl hne⟩
    · rw [put_temps, if_neg ht]
    · rw [put_temps, if_pos rfl]

theorem operand2_run (dest op2 : Nat) (hd : s.temps .mpiDest = some (s.read dest))
    (h2 : s.temps .mpiOp2 = none) (h : Opened1 s v pop1 (s.read op1)) :
    ∃ pop2 w, operand2 dest op1 op2 pop1 v = .ok (pop2, w) ∧
      Opened s w pop1 pop2 (s.read op1) (s.read op2) := by
  have hfree : v.temps .mpiOp2 = none := (h.other _ (by decide)).trans h2
  unfold operand2
  by_cases hop : op2 = dest
  · subst hop
    rw [if_pos rfl]
    exact ⟨.mpiDest, v, rfl, h.big, h.stores, fun t ht _ => h.other t ht, h.first,
      (h.other _ (by decide)).trans hd, h.own1, fun _ => hfree⟩
  rw [if_neg hop]
  by_cases hsame : op2 = op1
  · subst hsame
    rw [if_pos rfl]
    exact ⟨pop1, v, rfl, h.big, h.stores, fun t ht _ => h.other t ht, h.first, h.first, h.own1,
      fun _ => hfree⟩
  have hne : pop1 ≠ .mpiOp2 := by
    rcases h.where1 with rfl | rfl <;> decide
  rw [if_neg hsame, bind_of_ok (getMpi_some hfree)]
  refine ⟨.mpiOp2, _, rfl, h.big, h.stores, fun t ht ht2 => ?_, ?_, ?_, fun hpop => ?_,
    fun hpop => absurd rfl hpop⟩
  · rw [put_temps, if_neg ht2]
    exact h.other t ht
  · rw [put_temps, if_neg hne]
    exact h.first
  · rw [put_temps, if_pos rfl, Sys.read, h.big]
    rfl
  · rw [put_temps, if_neg (by decide)]
    exact h.own1 hpop

theorem freeOperand_run (hlive : pop = own → ∃ x, v.temps own = some x)
    (hnone : pop ≠ own → v.temps own = none) :
    freeOperand own pop v = .ok ((), v.put own none) := by
  unfold freeOperand
  by_cases h : pop = own
  · obtain ⟨x, hx⟩ := hlive h
    rw [if_pos h, mpiFree_run hx]
  · rw [if_neg h, Sys.put, ← hnone h, Function.update_eq_self]
    rfl

/-- the temporaries of the operands are freed when they are their own -/
theorem Opened.free {u : Sys} (h : Opened s v pop1 pop2 a b)
    (h1 : u.temps .mpiOp1 = v.temps .mpiOp1) (h2 : u.temps .mpiOp2 = v.temps .mpiOp2) :
    freeOperand .mpiOp1 pop1 u = .ok ((), u.put .mpiOp1 none) ∧
    freeOperand .mpiOp2 pop2 (u.put .mpiOp1 none) =
      .ok ((), (u.put .mpiOp1 none).put .mpiOp2 none) := by
  constructor
  · refine freeOperand_run (fun hpop => ⟨a, ?_⟩) fun hpop => h1.trans (h.own1 hpop)
    rw [h1, ← hpop]
    exact h.first
  · refine freeOperand_run (fun hpop => ⟨b, ?_⟩) fun hpop => ?_
    · rw [put_temps, if_neg (by decide), h2, ← hpop]
      exact h.second
    · rw [put_temps, if_neg (by decide)]
      exact h2.trans (h.own2 hpop)

theorem eq_idle {u w : Sys} (hbig : u.big = w.big) (hstores : u.stores = w.stores)
    (h : ∀ t, u.temps t = none) : u = w.retemp fun _ => none := by
  rw [Sys.retemp, ← hbig, ← hstores, ← (funext h : u.temps = fun _ => none)]

/-! ## the functions -/

theorem binary_run (hs : s.Idle) (func : Binary) : bigintBinary dest op1 op2 func s =
    stored () ((func (s.read dest) (s.read op1) (s.read op2)).bind (s.store dest)) := by
  have hidle : ∀ t, s.temps t = none := fun t => congrFun hs t
  rw [bigintBinary, bind_of_ok (getMpi_some (hidle _))]
  have hdest : (s.put .mpiDest (some (s.read dest))).temps .mpiDest =
      some ((s.put .mpiDest (some (s.read dest))).read dest) := by
    rw [put_temps, if_pos rfl]
    rfl
  obtain ⟨pop1, v, e1, h1⟩ := operand1_run dest op1 hdest (hidle _)
  obtain ⟨pop2, w, e2, h2⟩ := operand2_run dest op2 hdest (hidle _) h1
  rw [bind_of_ok e1, bind_of_ok e2,
    bind_of_ok (mpiAt_run ((h2.other _ (by decide) (by decide)).trans hdest)),
    bind_of_ok (mpiAt_run h2.first), bind_of_ok (mpiAt_run h2.second)]
  simp only [put_read]
  cases hr : func (s.read dest) (s.read op1) (s.read op2) with
  | none =>
    rw [bind_of_error mpiCheck_none]
    rfl
  | some r =>
    rw [bind_of_ok mpiCheck_run, bind_of_ok setMpi_run]
    have hput : (w.put .mpiDest (some r)).temps .mpiDest = some r := by rw [put_temps, if_pos rfl]
    refine closing_run hs h2.big h2.stores hput fun u hu => ?_
    have hu1 : u.temps .mpiDest = some r := (congrFun hu _).trans hput
    have hfree := h2.free (u := u.put .mpiDest none)
      (by rw [put_temps, if_neg (by decide), hu, put_temps, if_neg (by decide)])
      (by rw [put_temps, if_neg (by decide), hu, put_temps, if_neg (by decide)])
    rw [bind_of_ok (mpiFree_run hu1), bind_of_ok hfree.1, hfree.2]
    refine congrArg (fun u => Except.ok ((), u)) (eq_idle rfl rfl fun t => ?_)
    simp only [put_temps]
    split
    · rfl
    · split
      · rfl
      · split
        · rfl
        · next h2' h1' h0' => rw [hu, put_temps, if_neg h0', h2.other t h1' h2', put_temps, if_neg h0', hidle]

/-- a temporary of a function of its own -/
theorem put_put_none (h : s.temps t = none) : (s.put t o').put t none = s := by
  have hback : Function.update (Function.update s.temps t o') t none = s.temps := by
    rw [Function.update_idem, ← h, Function.update_eq_self]
  exact congrArg (fun temps => { s with temps := temps }) hback

theorem teeBigIntCmpS32_run (hs : s.Idle) (z : Int) :
    teeBigIntCmpS32 op z s = .ok (cmpInt (s.read op) z, s) := by
  have hidle : ∀ t, s.temps t = none := fun t => congrFun hs t
  have hput : (s.put .mpi (some (s.read op))).temps .mpi = some (s.read op) := by
    rw [put_temps, if_pos rfl]
  rw [teeBigIntCmpS32, bind_of_ok (getMpi_some (hidle _)), bind_of_ok (mpiAt_run hput),
    bind_of_ok (mpiFree_run hput), put_put_none (hidle _)]
  rfl

theorem value_read (s : Sys) (b : Nat) : (s.read b).value = (s.big b).value := value_mpiOf _

theorem checkModulus_run (hs : s.Idle) : checkModulus n s =
    if (s.big n).value < 2 then .error .panic else .ok ((), s) := by
  have hiff : cmpInt (s.read n) 2 < 0 ↔ (s.big n).value < 2 := by
    rw [cmpInt, Int.sign_neg_iff, value_read]
    omega
  rw [checkModulus, bind_of_ok (teeBigIntCmpS32_run hs 2)]
  by_cases h : (s.big n).value < 2
  · rw [if_pos h, if_pos (hiff.mpr h)]
    rfl
  · rw [if_neg h, if_neg (hiff.not.mpr h)]
    rfl

theorem checkInvertible_run (hs : s.Idle) (op : Nat) : checkInvertible op s =
    if (s.big op).value = 0 then .error .panic else .ok ((), s) := by
  have hiff : cmpInt (s.read op) 0 = 0 ↔ (s.big op).value = 0 := by
    rw [cmpInt, Int.sign_eq_zero_iff_zero, value_read, Int.sub_zero]
  rw [checkInvertible, bind_of_ok (teeBigIntCmpS32_run hs 0)]
  by_cases h : (s.big op).value = 0
  · rw [if_pos h, if_pos (hiff.mpr h)]
    rfl
  · rw [if_neg h, if_neg (hiff.not.mpr h)]
    rfl

theorem binaryMod_run (lib : Mbedtls) (hs : s.Idle) (func : Binary) :
    bigintBinaryMod lib dest op1 op2 n func s =
      if (s.big n).value < 2 then .error .panic
      else stored () (((func (mpiOf none) (s.read op1) (s.read op2)).bind fun t =>
        lib.modMpi (s.read dest) t (s.read n)).bind (s.store dest)) := by
  have hidle : ∀ t, s.temps t = none := fun t => congrFun hs t
  have hcheck := checkModulus_run (n := n) hs
  rw [bigintBinaryMod]
  by_cases hn : (s.big n).value < 2
  · rw [if_pos hn] at hcheck ⊢
    exact bind_of_error hcheck
  rw [if_neg hn] at hcheck ⊢
  rw [bind_of_ok hcheck, bind_of_ok (getMpi_some (hidle _))]
  have hfreeN : (s.put .mpiDest (some (s.read dest))).temps .mpiN = none := by
    rw [put_temps, if_neg (by decide), hidle]
  rw [bind_of_ok (getMpi_some hfreeN)]
  generalize hs2 : (s.put .mpiDest (some (s.read dest))).put .mpiN _ = s2
  have hread : ∀ b, s2.read b = s.read b := fun b => by rw [← hs2]; rfl
  have htemps : ∀ t, s2.temps t = if t = .mpiN then some (s.read n) else
      if t = .mpiDest then some (s.read dest) else none := by
    intro t
    rw [← hs2, put_temps, put_temps, put_read, hidle]
  obtain ⟨pop1, v, e1, h1⟩ := operand1_run dest op1 (by rw [htemps, hread]; rfl)
    (by rw [htemps]; rfl)
  obtain ⟨pop2, w, e2, h2⟩ := operand2_run dest op2 (by rw [htemps, hread]; rfl)
    (by rw [htemps]; rfl) h1
  rw [hread] at h1 h2
  rw [hread] at h2
  have hkept : ∀ t, t ≠ .mpiOp1 → t ≠ .mpiOp2 → w.temps t = if t = .mpiN then some (s.read n) else
      if t = .mpiDest then some (s.read dest) else none := fun t ht1 ht2 =>
    (h2.other t ht1 ht2).trans (htemps t)
  have hfreeT : w.temps .mpiT = none := hkept _ (by decide) (by decide)
  have hpop : ∀ pop c, w.temps pop = some c → pop ≠ .mpiT := by
    intro pop c hc heq
    rw [heq, hfreeT] at hc
    cases hc
  have hT : (w.put .mpiT (some (mpiOf none))).temps .mpiT = some (mpiOf none) := by
    rw [put_temps, if_pos rfl]
  have hA : (w.put .mpiT (some (mpiOf none))).temps pop1 = some (s.read op1) := by
    rw [put_temps, if_neg (hpop _ _ h2.first), h2.first]
  have hB : (w.put .mpiT (some (mpiOf none))).temps pop2 = some (s.read op2) := by
    rw [put_temps, if_neg (hpop _ _ h2.second), h2.second]
  rw [bind_of_ok e1, bind_of_ok e2, bind_of_ok (getMpi_run hfreeT), Option.map_none,
    bind_of_ok (mpiAt_run hT), bind_of_ok (mpiAt_run hA), bind_of_ok (mpiAt_run hB)]
  cases func (mpiOf none) (s.read op1) (s.read op2) with
  | none =>
    rw [bind_of_error mpiCheck_none]
    rfl
  | some t =>
    rw [bind_of_ok mpiCheck_run, bind_of_ok setMpi_run, Option.bind_some]
    generalize hw2 : (w.put .mpiT (some (mpiOf none))).put .mpiT (some t) = w2
    have hw2t : ∀ u, w2.temps u = if u = .mpiT then some t else w.temps u := by
      intro u
      rw [← hw2, put_temps, put_temps]
      split <;> rfl
    have hdest : w2.temps .mpiDest = some (s.read dest) := by rw [hw2t]; exact hkept _ (by decide) (by decide)
    have hN : w2.temps .mpiN = some (s.read n) := by rw [hw2t]; exact hkept _ (by decide) (by decide)
    rw [bind_of_ok (mpiAt_run hdest), bind_of_ok (mpiAt_run (hw2t .mpiT)),
      bind_of_ok (mpiAt_run hN)]
    cases lib.modMpi (s.read dest) t (s.read n) with
    | none =>
      rw [bind_of_error mpiCheck_none]
      rfl
    | some r =>
      rw [bind_of_ok mpiCheck_run, bind_of_ok setMpi_run]
      have hput : (w2.put .mpiDest (some r)).temps .mpiDest = some r := by rw [put_temps, if_pos rfl]
      have hbig : w2.big = s.big := by rw [← hw2]; exact h2.big.trans (by rw [← hs2]; rfl)
      have hstores : w2.stores = s.stores := by rw [← hw2]; exact h2.stores.trans (by rw [← hs2]; rfl)
      refine closing_run hs hbig hstores hput fun u hu => ?_
      have hu1 : u.temps .mpiDest = some r := (congrFun hu _).trans hput
      have hfree := h2.free (u := u.put .mpiDest none)
        (by rw [put_temps, if_neg (by decide), hu, put_temps, if_neg (by decide), hw2t]; rfl)
        (by rw [put_temps, if_neg (by decide), hu, put_temps, if_neg (by decide), hw2t]; rfl)
      rw [bind_of_ok (mpiFree_run hu1), bind_of_ok hfree.1, bind_of_ok hfree.2,
        bind_of_ok (mpiFree_run (x := t) (by simp [hu, hw2t])),
        mpiFree_run (x := s.read n) (by simp [hu, hw2t, hkept])]
      refine congrArg (fun u => Except.ok ((), u)) (eq_idle rfl rfl fun t => ?_)
      cases t <;> simp [hu, hw2t, hkept]

/-! ### a single operand -/

/-- only `mpi_dest` is in use, and holds `x` -/
structure OnlyDest (s w : Sys) (x : Mpi) : Prop where
  big : w.big = s.big
  stores : w.stores = s.stores
  dest : w.temps .mpiDest = some x
  other : ∀ t, t ≠ .mpiDest → w.temps t = none

theorem OnlyDest.init (hs : s.Idle) (x : Mpi) : OnlyDest s (s.put .mpiDest (some x)) x := by
  refine ⟨rfl, rfl, ?_, fun t ht => ?_⟩
  · rw [put_temps, if_pos rfl]
  · rw [put_temps, if_neg ht, hs]

theorem OnlyDest.read_eq {w : Sys} (h : OnlyDest s w x) (b : Nat) : w.read b = s.read b := by
  rw [Sys.read, h.big]
  rfl

theorem OnlyDest.set {w : Sys} (h : OnlyDest s w x) (r : Mpi) :
    OnlyDest s (w.put .mpiDest (some r)) r := by
  refine ⟨h.big, h.stores, ?_, fun t ht => ?_⟩
  · rw [put_temps, if_pos rfl]
  · rw [put_temps, if_neg ht, h.other t ht]

theorem OnlyDest.closing {w : Sys} (hs : s.Idle) (h : OnlyDest s w r) :
    (copyCheck .mpiDest dest >>= fun _ => mpiFree .mpiDest) w = stored () (s.store dest r) := by
  refine closing_run hs h.big h.stores h.dest fun u hu => ?_
  rw [mpiFree_run ((congrFun hu _).trans h.dest)]
  refine congrArg (fun u => Except.ok ((), u)) (eq_idle rfl rfl fun t => ?_)
  rw [put_temps]
  split
  · rfl
  · next ht => exact (congrFun hu t).trans (h.other t ht)

/-- what `TEE_BigIntNeg` turns round -/
def negSourceMpi (lib : Mbedtls) (s : Sys) (dest src : Nat) : Mpi :=
  if dest ≠ src then lib.copy (s.read dest) (s.read src) else s.read dest

theorem negSource_run (lib : Mbedtls) {w : Sys} (h : OnlyDest s w (s.read dest)) (src : Nat) :
    ∃ v, negSource lib dest src w = .ok ((), v) ∧ OnlyDest s v (negSourceMpi lib s dest src) := by
  unfold negSource negSourceMpi
  by_cases hne : dest ≠ src
  · have hsrc : w.temps .mpiSrc = none := h.other _ (by decide)
    have hput : (w.put .mpiSrc (some (w.read src))).temps .mpiSrc = some (w.read src) := by
      rw [put_temps, if_pos rfl]
    have hdest : (w.put .mpiSrc (some (w.read src))).temps .mpiDest = some (s.read dest) := by
      rw [put_temps, if_neg (by decide), h.dest]
    rw [if_pos hne, if_pos hne, bind_of_ok (getMpi_some hsrc), bind_of_ok (mpiAt_run hdest),
      bind_of_ok (mpiAt_run hput), bind_of_ok setMpi_run,
      mpiFree_run (x := w.read src) (by rw [put_temps, if_neg (by decide), hput]), h.read_eq]
    refine ⟨_, rfl, h.big, h.stores, by simp, fun t ht => ?_⟩
    simp [ht, h.other t ht]
  · rw [if_neg hne, if_neg hne]
    exact ⟨w, rfl, h⟩

theorem neg_run (lib : Mbedtls) (hs : s.Idle) (src : Nat) : teeBigIntNeg lib dest src s =
    stored () (s.store dest ((negSourceMpi lib s dest src).mulSign (-1))) := by
  rw [teeBigIntNeg, bind_of_ok (getMpi_some (congrFun hs _))]
  obtain ⟨v, hv, honly⟩ := negSource_run lib (OnlyDest.init hs (s.read dest)) src
  rw [bind_of_ok hv, bind_of_ok (mpiAt_run honly.dest), bind_of_ok setMpi_run]
  exact (honly.set _).closing hs

/-- what `TEE_BigIntShiftRight` stores -/
def shifted (lib : Mbedtls) (s : Sys) (dest op bits : Nat) : Mpi :=
  if dest = op then lib.shiftR (s.read dest) bits
  else if mpiSize (s.read op) ≤ mpiSize (s.read dest) then
    lib.shiftR (lib.copy (s.read dest) (s.read op)) bits
  else lib.copy (s.read dest) (lib.shiftR (lib.copy (mpiOf none) (s.read op)) bits)

theorem shiftInto_run (lib : Mbedtls) {w : Sys} (h : OnlyDest s w (s.read dest)) (op bits : Nat) :
    ∃ v, shiftInto lib dest op bits w = .ok ((), v) ∧ OnlyDest s v (shifted lib s dest op bits) := by
  unfold shiftInto shifted
  by_cases hsame : dest = op
  · rw [if_pos hsame, if_pos hsame, bind_of_ok (mpiAt_run h.dest)]
    exact ⟨_, rfl, h.set _⟩
  have hop : w.temps .mpiOp = none := h.other _ (by decide)
  have hput : (w.put .mpiOp (some (w.read op))).temps .mpiOp = some (w.read op) := by
    rw [put_temps, if_pos rfl]
  have hdest : (w.put .mpiOp (some (w.read op))).temps .mpiDest = some (s.read dest) := by
    rw [put_temps, if_neg (by decide), h.dest]
  rw [if_neg hsame, if_neg hsame, bind_of_ok (getMpi_some hop), bind_of_ok (mpiAt_run hdest),
    bind_of_ok (mpiAt_run hput), h.read_eq]
  by_cases hsize : mpiSize (s.read op) ≤ mpiSize (s.read dest)
  · rw [if_pos hsize, if_pos hsize, bind_of_ok setMpi_run, mpiFree_run (x := s.read op) (by simp)]
    refine ⟨_, rfl, h.big, h.stores, by simp, fun t ht => ?_⟩
    simp [ht, h.other t ht]
  · rw [if_neg hsize, if_neg hsize]
    have hT : (w.put .mpiOp (some (s.read op))).temps .mpiT = none := by simp [h.other]
    rw [bind_of_ok (getMpi_run hT), bind_of_ok (mpiAt_run (x := mpiOf none) (by simp)),
      bind_of_ok setMpi_run, bind_of_ok (mpiAt_run (x := lib.shiftR _ _) (by simp; rfl)),
      bind_of_ok setMpi_run, bind_of_ok (mpiFree_run (x := lib.shiftR _ _) (by simp; rfl)),
      mpiFree_run (x := s.read op) (by simp)]
    refine ⟨_, rfl, h.big, h.stores, by simp, fun t ht => ?_⟩
    simp only [put_temps, if_neg ht, h.other t ht]
    split_ifs <;> rfl

theorem shiftRight_run (lib : Mbedtls) (hs : s.Idle) (op bits : Nat) :
    teeBigIntShiftRight lib dest op bits s =
      stored () (s.store dest (shifted lib s dest op bits)) := by
  rw [teeBigIntShiftRight, bind_of_ok (getMpi_some (congrFun hs _))]
  obtain ⟨v, hv, honly⟩ := shiftInto_run lib (OnlyDest.init hs (s.read dest)) op bits
  rw [bind_of_ok hv]
  exact honly.closing hs

theorem setBit_run (lib : Mbedtls) (hs : s.Idle) (bitIndex : Nat) (value : Bool) :
    teeBigIntSetBit lib op bitIndex value s =
      match s.store op (lib.setBit (s.read op) bitIndex value) with
      | none => .ok (teeErrorOverflow, s)
      | some s' => .ok (teeSuccess, s') := by
  have hidle : ∀ t, s.temps t = none := fun t => congrFun hs t
  have hput : (s.put .mpi (some (s.read op))).temps .mpi = some (s.read op) := by
    rw [put_temps, if_pos rfl]
  rw [teeBigIntSetBit, bind_of_ok (getMpi_some (hidle _)), bind_of_ok (mpiAt_run hput),
    bind_of_ok setMpi_run]
  generalize lib.setBit (s.read op) bitIndex value = r
  generalize hv : (s.put .mpi (some (s.read op))).put .mpi (some r) = v
  have hvt : ∀ t, v.temps t = if t = .mpi then some r else none := by
    intro t
    rw [← hv, put_temps, put_temps, hidle]
    split <;> rfl
  have hback : ∀ w, w.temps = v.temps → mpiFree .mpi w = .ok ((), w.retemp fun _ => none) := by
    intro w hw
    rw [mpiFree_run ((congrFun hw _).trans (hvt _))]
    refine congrArg (fun u => Except.ok ((), u)) (eq_idle rfl rfl fun t => ?_)
    rw [put_temps, hw, hvt]
    split <;> rfl
  have hcopy := copyMpiToBigint_run op (hvt .mpi)
  have hstore : v.store op r = (s.store op r).map fun s' => s'.retemp v.temps := by
    conv_lhs => rw [eq_retemp (show v.big = s.big by rw [← hv]; rfl) (by rw [← hv]; rfl)]
    exact store_retemp s v.temps
  have hself : s.retemp (fun _ => none) = s := by rw [Sys.retemp, ← hs]
  rw [hstore] at hcopy
  cases hr : s.store op r with
  | none =>
    rw [hr] at hcopy
    have hvs : v.retemp (fun _ => none) = s := by rw [← hself, ← hv]; rfl
    rw [bind_of_ok hcopy, bind_of_ok (hback v rfl), hvs]
    rfl
  | some s' =>
    rw [hr] at hcopy
    have hend : (s'.retemp v.temps).retemp (fun _ => none) = s' := retemp_idle hs hr
    rw [bind_of_ok hcopy, bind_of_ok (hback (s'.retemp v.temps) rfl), hend]
    rfl

theorem operand_run {w : Sys} (dest op : Nat) (hd : w.temps .mpiDest = some (w.read dest)) (ho : w.temps .mpiOp = none) : ∃ pop v, operand dest op w = .ok (pop, v) ∧ v.big = w.big ∧ v.stores = w.stores ∧
      (∀ t, t ≠ .mpiOp → v.temps t = w.temps t) ∧ v.temps pop = some (w.read op) ∧
      (pop ≠ .mpiOp → v.temps .mpiOp = none) := by
  unfold operand
  by_cases h : op = dest
  · subst h
    rw [if_pos rfl]
    exact ⟨.mpiDest, w, rfl, rfl, rfl, fun _ _ => rfl, hd, fun _ => ho⟩
  · rw [if_neg h, bind_of_ok (getMpi_some ho)]
    refine ⟨.mpiOp, _, rfl, rfl, rfl, fun t ht => ?_, ?_, fun hne => absurd rfl hne⟩
    · rw [put_temps, if_neg ht]
    · rw [put_temps, if_pos rfl]

theorem invMod_run (lib : Mbedtls) (hs : s.Idle) (op : Nat) : teeBigIntInvMod lib dest op n s =
    if (s.big n).value < 2 ∨ (s.big op).value = 0 then .error .panic
    else stored () ((lib.invMod (s.read dest) (s.read op) (s.read n)).bind (s.store dest)) := by
  have hidle : ∀ t, s.temps t = none := fun t => congrFun hs t
  have hcheck := checkModulus_run (n := n) hs
  have hcheck' := checkInvertible_run hs op
  rw [teeBigIntInvMod]
  by_cases hn : (s.big n).value < 2
  · rw [if_pos hn] at hcheck
    rw [if_pos (.inl hn)]
    exact bind_of_error hcheck
  rw [if_neg hn] at hcheck
  rw [bind_of_ok hcheck]
  by_cases ho : (s.big op).value = 0
  · rw [if_pos ho] at hcheck'
    rw [if_pos (.inr ho)]
    exact bind_of_error hcheck'
  rw [if_neg ho] at hcheck'
  rw [bind_of_ok hcheck', if_neg fun h => h.elim hn ho, bind_of_ok (getMpi_some (hidle _)),
    bind_of_ok (getMpi_some (by rw [put_temps, if_neg (by decide), hidle]))]
  generalize hs2 : (s.put .mpiDest (some (s.read dest))).put .mpiN _ = s2
  have hread : ∀ b, s2.read b = s.read b := fun b => by rw [← hs2]; rfl
  have htemps : ∀ t, s2.temps t = if t = .mpiN then some (s.read n) else
      if t = .mpiDest then some (s.read dest) else none := by
    intro t
    rw [← hs2, put_temps, put_temps, put_read, hidle]
  obtain ⟨pop, v, e, hbig, hstores, hother, hpop, hown⟩ := operand_run dest op
    (by rw [htemps, hread]; rfl) (by rw [htemps]; rfl)
  rw [hread] at hpop
  have hkept : ∀ t, t ≠ .mpiOp → v.temps t = if t = .mpiN then some (s.read n) else
      if t = .mpiDest then some (s.read dest) else none := fun t ht => (hother t ht).trans (htemps t)
  rw [bind_of_ok e, bind_of_ok (mpiAt_run (x := s.read dest) (hkept _ (by decide))),
    bind_of_ok (mpiAt_run hpop), bind_of_ok (mpiAt_run (x := s.read n) (hkept _ (by decide)))]
  cases lib.invMod (s.read dest) (s.read op) (s.read n) with
  | none =>
    rw [bind_of_error mpiCheck_none]
    rfl
  | some r =>
    rw [bind_of_ok mpiCheck_run, bind_of_ok setMpi_run]
    have hput : (v.put .mpiDest (some r)).temps .mpiDest = some r := by rw [put_temps, if_pos rfl]
    refine closing_run hs (hbig.trans (by rw [← hs2]; rfl)) (hstores.trans (by rw [← hs2]; rfl)) hput
      fun u hu => ?_
    rw [bind_of_ok (mpiFree_run ((congrFun hu _).trans hput)),
      bind_of_ok (mpiFree_run (x := s.read n) (by simp [hu, hkept])), freeOperand_run]
    · refine congrArg (fun u => Except.ok ((), u)) (eq_idle rfl rfl fun t => ?_)
      cases t <;> simp [hu, hkept]
    · intro hp
      refine ⟨s.read op, ?_⟩
      simp only [put_temps, hu, reduceCtorEq, if_false]
      rw [← hp, hpop]
    · intro hp
      simp [hu, hown hp]

theorem mpiIsOdd_iff (x : Mpi) : mpiIsOdd x = true ↔ x.value % 2 = 1 := by
  have habs : x.value % 2 = 1 ↔ x.value.natAbs % 2 = 1 := by omega
  rw [habs, natAbs_value, mpiIsOdd, Nat.testBit_zero, decide_eq_true_iff]

theorem expMod_run (lib : Mbedtls) (hs : s.Idle) : teeBigIntExpMod lib dest op1 op2 n s =
    if (s.big n).value ≤ 2 then .error .panic
    else if (s.big n).value % 2 ≠ 1 then .ok (teeErrorNotSupported, s)
    else stored teeSuccess ((lib.expMod (s.read dest) (s.read op1) (s.read op2) (s.read n)).bind
      (s.store dest)) := by
  have hidle : ∀ t, s.temps t = none := fun t => congrFun hs t
  rw [teeBigIntExpMod, bind_of_ok (getMpi_some (hidle _)),
    bind_of_ok (getMpi_some (by rw [put_temps, if_neg (by decide), hidle]))]
  generalize hs2 : (s.put .mpiDest (some (s.read dest))).put .mpiN _ = s2
  have hread : ∀ b, s2.read b = s.read b := fun b => by rw [← hs2]; rfl
  have htemps : ∀ t, s2.temps t = if t = .mpiN then some (s.read n) else
      if t = .mpiDest then some (s.read dest) else none := by
    intro t
    rw [← hs2, put_temps, put_temps, put_read, hidle]
  obtain ⟨pop1, v, e1, h1⟩ := operand1_run dest op1 (by rw [htemps, hread]; rfl)
    (by rw [htemps]; rfl)
  obtain ⟨pop2, w, e2, h2⟩ := operand2_run dest op2 (by rw [htemps, hread]; rfl)
    (by rw [htemps]; rfl) h1
  rw [hread] at h1 h2
  rw [hread] at h2
  have hkept : ∀ t, t ≠ .mpiOp1 → t ≠ .mpiOp2 → w.temps t = if t = .mpiN then some (s.read n) else
      if t = .mpiDest then some (s.read dest) else none := fun t ht1 ht2 =>
    (h2.other t ht1 ht2).trans (htemps t)
  have hbig : w.big = s.big := h2.big.trans (by rw [← hs2]; rfl)
  have hstores : w.stores = s.stores := h2.stores.trans (by rw [← hs2]; rfl)
  have hN : w.temps .mpiN = some (s.read n) := hkept _ (by decide) (by decide)
  have hdest : w.temps .mpiDest = some (s.read dest) := hkept _ (by decide) (by decide)
  have hcmp : cmpInt (s.read n) 2 ≤ 0 ↔ (s.big n).value ≤ 2 := by
    rw [cmpInt, Int.sign_nonpos_iff, value_read]
    omega
  rw [bind_of_ok e1, bind_of_ok e2, bind_of_ok (mpiAt_run hN)]
  by_cases hle : (s.big n).value ≤ 2
  · rw [if_pos hle, if_pos (hcmp.mpr hle)]
    rfl
  rw [if_neg hle, if_neg (hcmp.not.mpr hle)]
  -- what is left of the function when `mpi_dest` has been dealt with
  have hend : ∀ (u : Sys) (c : Nat) (x : Mpi), u.temps .mpiDest = some x →
      (∀ t, t ≠ .mpiDest → u.temps t = w.temps t) → (do
        mpiFree .mpiDest
        mpiFree .mpiN
        freeOperand .mpiOp1 pop1
        freeOperand .mpiOp2 pop2
        pure c : O Nat) u = .ok (c, u.retemp fun _ => none) := by
    intro u c x hx hu
    have hfree := h2.free (u := (u.put .mpiDest none).put .mpiN none)
      (by simp [hu]) (by simp [hu])
    rw [bind_of_ok (mpiFree_run hx), bind_of_ok (mpiFree_run (x := s.read n) (by simp [hu, hN])),
      bind_of_ok hfree.1, bind_of_ok hfree.2]
    refine congrArg (fun u => Except.ok (c, u)) (eq_idle rfl rfl fun t => ?_)
    cases t <;> simp [hu, hkept]
  unfold expModTail
  have hodd : mpiIsOdd (s.read n) = true ↔ (s.big n).value % 2 = 1 := by
    rw [mpiIsOdd_iff, value_read]
  by_cases ho : (s.big n).value % 2 ≠ 1
  · have heven : (!mpiIsOdd (s.read n)) = true := by
      rw [Bool.not_eq_true', ← Bool.not_eq_true, hodd]
      exact ho
    rw [if_pos heven, if_pos ho]
    refine (hend w teeErrorNotSupported _ hdest fun _ _ => rfl).trans ?_
    have hself : w.retemp (fun _ => none) = s := by rw [Sys.retemp, hbig, hstores, ← hs]
    rw [hself]
  · have hnot : ¬ (!mpiIsOdd (s.read n)) = true := by
      rw [Bool.not_eq_true', ← Bool.not_eq_true, hodd]
      exact ho
    rw [if_neg hnot, if_neg ho]
    simp only [bind_assoc]
    rw [bind_of_ok (mpiAt_run hdest), bind_of_ok (mpiAt_run h2.first),
      bind_of_ok (mpiAt_run h2.second)]
    cases lib.expMod (s.read dest) (s.read op1) (s.read op2) (s.read n) with
    | none =>
      rw [bind_of_error mpiCheck_none]
      rfl
    | some r =>
      rw [bind_of_ok mpiCheck_run, bind_of_ok setMpi_run]
      have hput : (w.put .mpiDest (some r)).temps .mpiDest = some r := by rw [put_temps, if_pos rfl]
      refine closing_run hs hbig hstores hput fun u hu => ?_
      refine hend u teeSuccess r ((congrFun hu _).trans hput) fun t ht => ?_
      rw [hu, put_temps, if_neg ht]

theorem relativePrime_run (lib : Mbedtls) (hs : s.Idle) : teeBigIntRelativePrime lib op1 op2 s =
    if op1 = op2 then .error .uninitialised
    else .ok (cmpInt (lib.gcd (mpiOf none) (s.read op1) (s.read op2)) 1 == 0, s) := by
  have hidle : ∀ t, s.temps t = none := fun t => congrFun hs t
  rw [teeBigIntRelativePrime, bind_of_ok (getMpi_some (hidle _))]
  unfold operandGcd
  generalize hs1 : s.put .mpiOp1 (some (s.read op1)) = s1
  have h1 : ∀ t, s1.temps t = if t = .mpiOp1 then some (s.read op1) else none := by
    intro t
    rw [← hs1, put_temps, hidle]
  by_cases h : op1 = op2
  · rw [if_pos h, if_pos h.symm, bind_of_ok (show (pure Temp.mpiOp1 : O Temp) s1 = _ from rfl),
      bind_of_ok (getMpi_run (h1 _)), bind_of_ok (mpiAt_run (x := mpiOf none) (by simp)),
      bind_of_ok (mpiAt_run (x := s.read op1) (by simp [h1]))]
    exact bind_of_error (by simp [mpiAt, h1])
  · have hread : s1.read op2 = s.read op2 := by rw [← hs1]; rfl
    have hself : s1.retemp (fun _ => none) = s := by rw [← hs1, Sys.retemp, ← hs]; rfl
    rw [if_neg h, if_neg (Ne.symm h)]
    simp only [bind_assoc, pure_bind]
    rw [bind_of_ok (getMpi_some (h1 _)), bind_of_ok (getMpi_run (by simp [h1])),
      bind_of_ok (mpiAt_run (x := mpiOf none) (by simp)),
      bind_of_ok (mpiAt_run (x := s.read op1) (by simp [h1])),
      bind_of_ok (mpiAt_run (x := s.read op2) (by simp [hread])), bind_of_ok setMpi_run,
      bind_of_ok (mpiAt_run (x := lib.gcd (mpiOf none) (s.read op1) (s.read op2)) (by simp)),
      bind_of_ok (mpiFree_run (x := lib.gcd (mpiOf none) (s.read op1) (s.read op2)) (by simp)),
      bind_of_ok (mpiFree_run (x := s.read op1) (by simp [h1])),
      bind_of_ok (freeOperand_run (fun _ => ⟨s.read op2, by simp [hread]⟩) fun hne => absurd rfl hne)]
    refine congrArg (fun u => Except.ok (_, u)) (Eq.trans (eq_idle (w := s1) rfl rfl fun t => ?_) hself)
    cases t <;> simp [h1]

end

end MTower.Arith
