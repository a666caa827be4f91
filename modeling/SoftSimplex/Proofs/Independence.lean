import Mathlib.Algebra.BigOperators.Group.List.Basic
import SoftSimplex.Proofs.RequiredValues

/-!
# The history does not matter

What a solved solver's values cost depends on its constraints alone: two solvers whose constraints
are the same, up to the names of the client's variables, end at the same cost, whatever was added,
removed or edited on the way. Each is optimal for its own constraints, and the values of the one can
be carried over to the other. This needs the required constraints to hold in both, which a dummy off
zero can prevent.
-/

namespace SoftSimplex

open LinearForm

/-- A constraint in which the client's variables are known by their places. -/
structure Outline where
  constant : Rat
  /-- The coefficients of the client's variables, in the order in which it got them. -/
  coefficients : List Rat
  isInequality : Bool
  strength : Strength Rat
deriving DecidableEq

namespace Outline

/-- What the form amounts to where the client's variables have the values `xs`. -/
def amount (xs : List Rat) (c : Outline) : Rat :=
  c.constant + (List.zipWith (· * ·) c.coefficients xs).sum

def Holds (xs : List Rat) (c : Outline) : Prop :=
  if c.isInequality then 0 ≤ c.amount xs else c.amount xs = 0

def cost (xs : List Rat) (c : Outline) : Rat :=
  c.strength.weight *
    if c.amount xs < 0 then -c.amount xs else if c.isInequality then 0 else c.amount xs

end Outline

def Constraint.outline (vs : List Variable) (c : Constraint Rat) : Outline :=
  ⟨c.form.constant, vs.map c.form.coeff, c.isInequality, c.strength⟩

def Solver.outlines (vs : List Variable) (s : Solver Rat) : List Outline :=
  s.constraints.map fun e => e.2.outline vs

/-! ## Values through outlines -/

/-- A form is its constant and a term for each variable of a list that has them all. -/
theorem LinearForm.eval_eq_sum {vs : List Variable} (hvs : vs.Nodup) {f : LinearForm Rat}
    (hf : ∀ v ∈ f.vars, v ∈ vs) (σ : Assignment Rat) :
    f.eval σ = f.constant + (vs.map fun v => f.coeff v * σ v).sum := by
  induction vs generalizing f with
  | nil =>
    have hzero : f.eval σ = f.eval fun _ => 0 := eval_congr _ _ fun v hv => nomatch hf v hv
    rw [hzero, eval_at_zero, List.map_nil, List.sum_nil, add_zero]
  | cons v vs ih =>
    obtain ⟨hv, hvs⟩ := List.nodup_cons.1 hvs
    have herase : ∀ w ∈ (f.erase v).vars, w ∈ vs := by
      intro w hw
      obtain ⟨hne, hw⟩ := mem_vars_erase.1 hw
      exact (List.mem_cons.1 (hf w hw)).resolve_left hne
    have hcoeff : ∀ w ∈ vs, (f.erase v).coeff w * σ w = f.coeff w * σ w := by
      intro w hw
      have hne : w ≠ v := by
        rintro rfl
        exact hv hw
      rw [coeff_erase, if_neg hne]
    have hrest := ih hvs herase
    rw [eval_erase, constant_erase, List.map_congr_left hcoeff] at hrest
    rw [List.map_cons, List.sum_cons]
    linarith

section Outlines

variable {vs : List Variable} (hvs : vs.Nodup) {c : Constraint Rat} (hc : ∀ v ∈ c.form.vars, v ∈ vs)
variable {σ : Assignment Rat}

include hvs hc

theorem Constraint.amount_outline : (c.outline vs).amount (vs.map σ) = c.form.eval σ := by
  unfold Outline.amount outline
  rw [eval_eq_sum hvs hc, List.zipWith_map, List.zipWith_self]

theorem Constraint.holds_outline : (c.outline vs).Holds (vs.map σ) ↔ c.Holds σ := by
  unfold Outline.Holds
  rw [holds_iff, amount_outline hvs hc]
  rfl

theorem Constraint.cost_outline : (c.outline vs).cost (vs.map σ) = c.weight * c.violation σ := by
  unfold Outline.cost
  rw [violation_eq, amount_outline hvs hc]
  rfl

end Outlines

/-- Variables without repetition can have any values. -/
theorem exists_map_eq {vs : List Variable} (hvs : vs.Nodup) {xs : List Rat}
    (hlength : xs.length = vs.length) : ∃ σ : Assignment Rat, vs.map σ = xs := by
  induction vs generalizing xs with
  | nil => exact ⟨fun _ => 0, (List.length_eq_zero_iff.1 hlength).symm⟩
  | cons v vs ih =>
    obtain ⟨hv, hvs⟩ := List.nodup_cons.1 hvs
    cases xs with
    | nil => cases hlength
    | cons x xs =>
      obtain ⟨σ, hσ⟩ := ih hvs (Nat.succ.inj hlength)
      refine ⟨Function.update σ v x, ?_⟩
      have hrest : vs.map (Function.update σ v x) = vs.map σ := by
        apply List.map_congr_left
        intro w hw
        apply Function.update_of_ne
        rintro rfl
        exact hv hw
      rw [List.map_cons, Function.update_self, hrest, hσ]

/-- Bounds speak of the values of variables of a role, not of their names. -/
theorem nonneg_of_map_eq {vs ws : List Variable} {σ τ : Assignment Rat}
    (hroles : vs.map Variable.role = ws.map Variable.role) (hvalues : vs.map σ = ws.map τ)
    (hσ : ∀ v ∈ vs, v.role = .bounded → 0 ≤ σ v) : ∀ w ∈ ws, w.role = .bounded → 0 ≤ τ w := by
  have hpairs : (vs.map fun v => (v.role, σ v)) = ws.map fun w => (w.role, τ w) := by
    rw [← List.zip_map', ← List.zip_map', hroles, hvalues]
  intro w hw hrole
  have hmem := List.mem_map_of_mem (f := fun w => (w.role, τ w)) hw
  rw [← hpairs] at hmem
  obtain ⟨v, hv, he⟩ := List.mem_map.1 hmem
  obtain ⟨hv', hvalue⟩ := Prod.mk.inj he
  exact hvalue ▸ hσ v hv (hv'.trans hrole)

namespace Solver

variable {V W : Variable → Prop} {vs ws : List Variable} {s t : Solver Rat} {n : Nat}

theorem outlines_congr (hrecords : s.records = t.records) : s.outlines vs = t.outlines vs := by
  unfold outlines constraints
  rw [hrecords]

section Books

variable (hvs : vs.Nodup) (h : s.Books V vs)

include hvs h

/-- Whether the required constraints hold can be read off the outlines. -/
theorem Books.requiredHold_iff_outlines {σ : Assignment Rat} :
    s.RequiredHold σ ↔
      ∀ c ∈ s.outlines vs, c.strength.isRequired = true → c.Holds (vs.map σ) := by
  unfold RequiredHold outlines
  rw [List.forall_mem_map]
  apply forall₂_congr
  intro e he
  obtain ⟨r, hr, hre⟩ := mem_constraints.1 he
  rw [Constraint.holds_outline hvs (hre ▸ h.forms hr)]
  rfl

/-- So can what missing the others costs. -/
theorem Books.cost_eq_outlines {σ : Assignment Rat} :
    s.cost σ = (((s.outlines vs).filter fun c => !c.strength.isRequired).map
      (Outline.cost (vs.map σ))).sum := by
  unfold Solver.cost outlines
  rw [List.filter_map, List.map_map]
  apply congrArg List.sum
  apply List.map_congr_left
  intro e he
  obtain ⟨r, hr, hre⟩ := mem_constraints.1 (List.mem_filter.1 he).1
  exact (Constraint.cost_outline hvs (hre ▸ h.forms hr)).symm

end Books

/-- A client never gets the same variable twice. -/
theorem Reached.clients_nodup {allowed : Solver Rat → Request Rat → Outcome Rat Reply → Prop}
    (h : Reached allowed vs s) : vs.Nodup := by
  induction h with
  | start settings => exact List.nodup_nil
  | step hprev _ ho _ ih =>
    obtain ⟨V, hsound⟩ := hprev.sound
    rcases clients_perform ho with hnone | ⟨b, -, hnew⟩
    · rwa [hnone, List.append_nil]
    · rw [hnew, List.nodup_append]
      refine ⟨ih, List.pairwise_singleton _ _, ?_⟩
      rintro v hv w hw rfl
      rw [List.mem_singleton] at hw
      subst hw
      exact hsound.books.issued.fresh _ (hsound.books.clients _ hv).1

/-! ## Two solvers -/

/-- A solved solver costs no more than any other with the same constraints whose required ones
hold. -/
theorem Sound.cost_le_of_outlines (h : s.Sound V vs) (hf : s.tableau.Feasible)
    (hw : ∀ id r, s.record? id = some r → 0 ≤ r.constraint.weight) {o : Outcome Rat Unit}
    (ho : s.solve n = some o) (hok : o.answer = .ok ()) (ht : t.Books W ws)
    (hbounded : ∀ w ∈ ws, w.role = .bounded → 0 ≤ t.value w) (hold : t.RequiredHold t.value)
    (hvs : vs.Nodup) (hws : ws.Nodup) (hroles : vs.map Variable.role = ws.map Variable.role)
    (hperm : (o.solver.outlines vs).Perm (t.outlines ws)) :
    o.solver.cost o.solver.value ≤ t.cost t.value := by
  have hbooks := (h.solve ho).1.books
  have hlength : (ws.map t.value).length = vs.length := by
    have hlength := congrArg List.length hroles
    rw [List.length_map, List.length_map] at hlength
    rw [List.length_map, hlength]
  -- the other solver's values, under the names of this one's variables
  obtain ⟨σ, hσ⟩ := exists_map_eq hvs hlength
  have hσbounded := nonneg_of_map_eq hroles.symm hσ.symm hbounded
  have hσhold : o.solver.RequiredHold σ := by
    rw [hbooks.requiredHold_iff_outlines hvs, hσ]
    intro c hc
    exact (ht.requiredHold_iff_outlines hws).1 hold c (hperm.subset hc)
  have hcost : o.solver.cost σ = t.cost t.value := by
    rw [hbooks.cost_eq_outlines hvs, ht.cost_eq_outlines hws, hσ]
    exact ((hperm.filter _).map _).sum_eq
  exact (h.cost_value_le hf hw ho hok hσhold hσbounded).trans hcost.le

/-- Two solved solvers with the same constraints cost the same. -/
theorem Sound.cost_eq_of_perm (h : s.Sound V vs) (h' : t.Sound W ws) (hf : s.tableau.Feasible)
    (hf' : t.tableau.Feasible) (hw : ∀ id r, s.record? id = some r → 0 ≤ r.constraint.weight)
    (hw' : ∀ id r, t.record? id = some r → 0 ≤ r.constraint.weight) (hvs : vs.Nodup)
    (hws : ws.Nodup) (hroles : vs.map Variable.role = ws.map Variable.role)
    (hperm : (s.outlines vs).Perm (t.outlines ws)) {m : Nat} {o o' : Outcome Rat Unit}
    (ho : s.solve n = some o) (hok : o.answer = .ok ())
    (ho' : t.solve m = some o') (hok' : o'.answer = .ok ())
    (hold : o.solver.RequiredHold o.solver.value)
    (hold' : o'.solver.RequiredHold o'.solver.value) :
    o.solver.cost o.solver.value = o'.solver.cost o'.solver.value := by
  obtain ⟨hs, hsf, hsrecords, -⟩ := h.solve ho
  obtain ⟨ht, htf, htrecords, -⟩ := h'.solve ho'
  have hsolved : (o.solver.outlines vs).Perm (o'.solver.outlines ws) := by
    rwa [outlines_congr hsrecords, outlines_congr htrecords]
  apply le_antisymm
  · exact h.cost_le_of_outlines hf hw ho hok ht.books
      (fun w _ hrole => value_nonneg_of_bounded (htf hf') hrole) hold' hvs hws hroles hsolved
  · exact h'.cost_le_of_outlines hf' hw' ho' hok' hs.books
      (fun v _ hrole => value_nonneg_of_bounded (hsf hf) hrole) hold hws hvs hroles.symm hsolved.symm

/-- Two solvers that were given variables of the same kinds in the same order, and whose constraints
are the same up to their order and the variables' names, cost the same once both are solved, if their
required constraints hold. Their histories may have nothing else in common; of each of their requests
it is asked that its repair does not fail, or that it moves no constant of a required constraint while
no dummy is off zero. -/
theorem cost_eq_of_outlines
    (h : Reached (fun s q o => q.Graded ∧ (s.KeepsRequired q ∧ s.Level ∨ o.Repaired)) vs s)
    (h' : Reached (fun s q o => q.Graded ∧ (s.KeepsRequired q ∧ s.Level ∨ o.Repaired)) ws t)
    (hroles : vs.map Variable.role = ws.map Variable.role)
    (hperm : (s.outlines vs).Perm (t.outlines ws)) {m : Nat} {o o' : Outcome Rat Unit}
    (ho : s.solve n = some o) (hok : o.answer = .ok ())
    (ho' : t.solve m = some o') (hok' : o'.answer = .ok ())
    (hold : o.solver.RequiredHold o.solver.value)
    (hold' : o'.solver.RequiredHold o'.solver.value) :
    o.solver.cost o.solver.value = o'.solver.cost o'.solver.value := by
  obtain ⟨V, hs⟩ := h.sound
  obtain ⟨W, ht⟩ := h'.sound
  have hfeasible := (h.mono fun _ _ _ hallowed => hallowed.2).feasible_of_level
  have hfeasible' := (h'.mono fun _ _ _ hallowed => hallowed.2).feasible_of_level
  have hweights := h.weight_nonneg fun _ _ _ hallowed => hallowed.1
  have hweights' := h'.weight_nonneg fun _ _ _ hallowed => hallowed.1
  exact hs.cost_eq_of_perm ht hfeasible hfeasible' hweights hweights' h.clients_nodup
    h'.clients_nodup hroles hperm ho hok ho' hok' hold hold'

/-- A width of at least 100, a height of at least the width, and a wish for the height. In the second
session the height comes later and under another number, the constraints come in another order, one is
refused, and one comes and goes. -/
theorem cost_eq_of_sessions :
    ∃ (vs ws : List Variable) (s t : Solver Rat) (o o' : Outcome Rat Unit),
      Reached (fun s q o => q.Graded ∧ (s.KeepsRequired q ∧ s.Level ∨ o.Repaired)) vs s ∧
        Reached (fun s q o => q.Graded ∧ (s.KeepsRequired q ∧ s.Level ∨ o.Repaired)) ws t ∧
        vs ≠ ws ∧ vs.map Variable.role = ws.map Variable.role ∧
        (s.outlines vs).Perm (t.outlines ws) ∧
        (s.solve 9 = some o ∧ o.answer = .ok () ∧ o.solver.RequiredHold o.solver.value) ∧
        (t.solve 9 = some o' ∧ o'.answer = .ok () ∧ o'.solver.RequiredHold o'.solver.value) ∧
        o.solver.cost o.solver.value = o'.solver.cost o'.solver.value := by
  let width : LinearForm Rat := .var ⟨0, .free⟩
  let wide : Request Rat := .add (.compare width .atLeast (.const 100))
  let tall (height : LinearForm Rat) : Request Rat := .add (.compare height .atLeast width)
  let wish (height : LinearForm Rat) : Request Rat :=
    .add ((Constraint.compare height .equal (.const 40)).withStrength .weak)
  let first : LinearForm Rat := .var ⟨1, .bounded⟩
  let second : LinearForm Rat := .var ⟨4, .bounded⟩
  have hrun : (replay (fun _ q o => q.isGraded && o.isRepaired) 9
      [.newVariable false, .newVariable true, wide, tall first, wish first] ([], new)).any fun y =>
      (replay (fun _ q o => q.isGraded && o.isRepaired) 9
        [.newVariable false, .add (.compare width .atMost (.const 7)), wide, .remove ⟨0⟩,
          .newVariable true, wish second, .setAutoSolve true, wide, tall second] ([], new)).any
      fun y' => decide (y.1 ≠ y'.1) && decide (y.1.map Variable.role = y'.1.map Variable.role) &&
        decide ((y.2.outlines y.1).Perm (y'.2.outlines y'.1)) &&
        (y.2.solve 9).any (fun o =>
          decide (o.answer = .ok ()) && decide (o.solver.RequiredHold o.solver.value)) &&
        (y'.2.solve 9).any fun o =>
          decide (o.answer = .ok ()) && decide (o.solver.RequiredHold o.solver.value) := by
    decide +kernel
  obtain ⟨⟨vs, s⟩, hs, hrest⟩ := (Option.any_eq_true _ _).1 hrun
  obtain ⟨⟨ws, t⟩, ht, hrest⟩ := (Option.any_eq_true _ _).1 hrest
  simp only [Bool.and_eq_true, decide_eq_true_eq] at hrest
  obtain ⟨⟨⟨⟨hne, hroles⟩, hperm⟩, hsolved⟩, hsolved'⟩ := hrest
  obtain ⟨o, ho, hcheck⟩ := (Option.any_eq_true _ _).1 hsolved
  obtain ⟨o', ho', hcheck'⟩ := (Option.any_eq_true _ _).1 hsolved'
  rw [Bool.and_eq_true, decide_eq_true_eq, decide_eq_true_eq] at hcheck hcheck'
  have hallowed : ∀ (s : Solver Rat) (q : Request Rat) (o : Outcome Rat Reply),
      (q.isGraded && o.isRepaired) = true →
        q.Graded ∧ (s.KeepsRequired q ∧ s.Level ∨ o.Repaired) := by
    intro s q o htest
    rw [Bool.and_eq_true] at htest
    exact ⟨Request.graded_of_isGraded htest.1, .inr (Outcome.repaired_of_isRepaired htest.2)⟩
  have hreached := Reached.replay hallowed (.start {}) hs
  have hreached' := Reached.replay hallowed (.start {}) ht
  have hcost := cost_eq_of_outlines hreached hreached' hroles hperm ho hcheck.1 ho' hcheck'.1
    hcheck.2 hcheck'.2
  exact ⟨vs, ws, s, t, o, o', hreached, hreached', hne, hroles, hperm, ⟨ho, hcheck⟩,
    ⟨ho', hcheck'⟩, hcost⟩

/-- A constraint that comes and goes can change what the others cost: a second equality leaves the
first one's dummy free to move, the equality is lost with it, and a wish is granted that it ruled
out. -/
theorem cost_changed_by_visit :
    ∃ (vs : List Variable) (s t : Solver Rat) (o o' : Outcome Rat Unit),
      Reached (fun s q _ => q.Graded ∧ s.KeepsRequired q) vs s ∧
        Reached (fun s q _ => q.Graded ∧ s.KeepsRequired q) vs t ∧
        (s.outlines vs).Perm (t.outlines vs) ∧ s.solve 9 = some o ∧ o.answer = .ok () ∧
        t.solve 9 = some o' ∧ o'.answer = .ok () ∧
        o.solver.cost o.solver.value ≠ o'.solver.cost o'.solver.value := by
  let equality : Request Rat := .add (.compare (.var ⟨0, .free⟩) .equal (.const 5))
  let bound : Request Rat := .add (.compare (.var ⟨0, .free⟩) .atMost (.const 10))
  let wish : Request Rat :=
    .add ((Constraint.compare (.var ⟨0, .free⟩) .equal (.const 10)).withStrength .weak)
  have hrun : (replay (fun _ q _ => q.isGraded && isSteady q) 9
      [.newVariable false, equality, bound, wish, .solve] ([], new)).any (fun y =>
      (replay (fun _ q _ => q.isGraded && isSteady q) 9
        [.newVariable false, equality, bound, wish, .solve, equality, .remove ⟨3⟩] ([], new)).any
      fun y' => decide (y.1 = y'.1) && decide ((y.2.outlines y.1).Perm (y'.2.outlines y'.1)) &&
        (y.2.solve 9).any fun o => decide (o.answer = .ok ()) &&
          (y'.2.solve 9).any fun o' => decide (o'.answer = .ok ()) &&
            decide (o.solver.cost o.solver.value ≠ o'.solver.cost o'.solver.value)) = true := by
    decide +kernel
  obtain ⟨⟨vs, s⟩, hs, hrest⟩ := (Option.any_eq_true _ _).1 hrun
  obtain ⟨⟨ws, t⟩, ht, hrest⟩ := (Option.any_eq_true _ _).1 hrest
  rw [Bool.and_eq_true, Bool.and_eq_true, decide_eq_true_eq, decide_eq_true_eq] at hrest
  obtain ⟨⟨hvs, hperm⟩, hrest⟩ := hrest
  subst hvs
  obtain ⟨o, ho, hrest⟩ := (Option.any_eq_true _ _).1 hrest
  rw [Bool.and_eq_true, decide_eq_true_eq] at hrest
  obtain ⟨o', ho', hcheck⟩ := (Option.any_eq_true _ _).1 hrest.2
  rw [Bool.and_eq_true, decide_eq_true_eq, decide_eq_true_eq] at hcheck
  have hallowed : ∀ (s : Solver Rat) (q : Request Rat) (o : Outcome Rat Reply),
      (q.isGraded && isSteady q) = true → q.Graded ∧ s.KeepsRequired q := by
    intro s q o htest
    rw [Bool.and_eq_true] at htest
    exact ⟨Request.graded_of_isGraded htest.1, keepsRequired_of_isSteady htest.2⟩
  exact ⟨vs, s, t, o, o', .replay hallowed (.start {}) hs, .replay hallowed (.start {}) ht, hperm,
    ho, hrest.1, ho', hcheck.1, hcheck.2⟩

/-! ## A visit -/

/-- A constraint that is added and removed again leaves the books as they were. -/
theorem Sound.record?_of_visit (h : s.Sound V vs) {c : Constraint Rat}
    (hc : ∀ v ∈ c.form.vars, v ∈ vs) {p : Outcome Rat ConstraintId} (hp : s.add n c = some p)
    {id : ConstraintId} (hadded : p.answer = .ok id) {q : Outcome Rat Unit}
    (hq : p.solver.remove n id = some q) (i : ConstraintId) : q.solver.record? i = s.record? i := by
  obtain ⟨W, hadd, -⟩ := h.add hc hp
  obtain ⟨rfl, hinsert⟩ := records_of_add hp hadded
  rcases hadd.remove_cases hq with ⟨hnone, -⟩ | ⟨r, hr, hsettle⟩
  · rw [record?_insert_self hinsert] at hnone
    cases hnone
  · obtain ⟨-, hback, herase, -⟩ := hadd.retract hr
    obtain ⟨-, -, hrecords, -⟩ := settle_sound hsettle hback
    apply Option.ext
    intro r
    rw [record?_erase_iff (hrecords.trans herase), record?_insert_iff hinsert]
    constructor
    · rintro ⟨hi, ⟨he, -⟩ | ⟨-, hr⟩⟩
      · exact absurd he hi
      · exact hr
    · intro hr
      have hi : i ≠ ⟨s.nextId⟩ := by
        rintro rfl
        rw [h.books.unnamed] at hr
        cases hr
      exact ⟨hi, .inr ⟨hi, hr⟩⟩

/-- Adding a constraint, removing it again and solving leaves the cost what it was, if the required
constraints hold before and after. -/
theorem cost_eq_of_visit
    (h : Reached (fun s q o => q.Graded ∧ (s.KeepsRequired q ∧ s.Level ∨ o.Repaired)) vs s)
    {c : Constraint Rat} (hc : ∀ v ∈ c.form.vars, v ∈ vs) {p : Outcome Rat ConstraintId}
    (hp : s.add n c = some p) {id : ConstraintId} (hadded : p.answer = .ok id)
    {q o o' : Outcome Rat Unit} (hq : p.solver.remove n id = some q) (ho : s.solve n = some o)
    (hok : o.answer = .ok ()) (ho' : q.solver.solve n = some o') (hok' : o'.answer = .ok ())
    (hold : o.solver.RequiredHold o.solver.value)
    (hold' : o'.solver.RequiredHold o'.solver.value) :
    o.solver.cost o.solver.value = o'.solver.cost o'.solver.value := by
  obtain ⟨V, hs⟩ := h.sound
  have hf := (h.mono fun _ _ _ hallowed => hallowed.2).feasible_of_level
  have hw := h.weight_nonneg fun _ _ _ hallowed => hallowed.1
  obtain ⟨W, hadd, haf, -⟩ := hs.add hc hp
  obtain ⟨hremove, hrf, -⟩ := hadd.remove hq
  have hrecord := hs.record?_of_visit hc hp hadded hq
  have hperm : (s.outlines vs).Perm (q.solver.outlines vs) := by
    have hrecords := Table.perm_of_get?_eq fun i => (hrecord i).symm
    exact (hrecords.map _).map _
  exact hs.cost_eq_of_perm hremove hf (hrf (haf hf)) hw (fun i r hr => hw i r (hrecord i ▸ hr))
    h.clients_nodup h.clients_nodup rfl hperm ho hok ho' hok' hold hold'

end Solver

end SoftSimplex
