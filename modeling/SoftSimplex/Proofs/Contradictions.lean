import SoftSimplex.Proofs.RequiredValues
import SoftSimplex.Proofs.Upkeep

/-!
# Edits that contradict the required constraints

A repair fails for a reason: the required constraints have no solution any more. The converse is
weaker. A contradiction shows in the sign of some restricted variable, and only the variables that an
edit makes negative are looked at: a dummy that has a row can rise above zero unnoticed, and so can a
bounded variable stay below zero that an earlier failure left there. These are the only ways in which
a contradiction goes through without a failure. Once one has, an edit of a constraint that may be
missed can fail too.
-/

namespace SoftSimplex

open LinearForm

namespace Solver

variable {V : Variable → Prop} {vs : List Variable} {s : Solver Rat} {n : Nat} {id : ConstraintId}
variable {k : Rat} {o : Outcome Rat Unit}
variable {allowed : Solver Rat → Request Rat → Outcome Rat Reply → Prop}

/-- A variable cannot be required to have two values. -/
theorem not_satisfiable_of_two_values {v : Variable} {i j : ConstraintId} {a b : Rat}
    (hi : s.constraint? i = some (.compare (var v) .equal (const a)))
    (hj : s.constraint? j = some (.compare (var v) .equal (const b))) (hne : a ≠ b) :
    ¬s.Satisfiable vs := by
  rintro ⟨σ, -, hold⟩
  have hvalue : ∀ {i k}, s.constraint? i = some (.compare (var v) .equal (const k)) →
      (var v).eval σ = k := by
    intro i k hi
    obtain ⟨r, hr, hc⟩ := Option.map_eq_some_iff.1 hi
    have hholds := Solver.requiredHold_iff.1 hold i r hr (by rw [hc]; rfl)
    rw [hc, Constraint.holds_compare, eval_const] at hholds
    exact (Scalar.eq_rat _ _).1 hholds
  exact hne ((hvalue hi).symm.trans (hvalue hj))

/-! ## Contradictions that are told -/

/-- A repair fails only for one reason, and only if no values meet the required constraints and the
bounds after the edit. So an edit that leaves them with a solution is repaired, among those any of a
constraint that may be missed as long as the required ones have a solution. -/
theorem repairFailed_only_if_contradictory (h : Reached allowed vs s)
    (ho : s.updateConstant n id k = some o) :
    (∀ f, .repairFailed f ∈ o.log → f = .fault .noRepair ∧ ¬o.solver.Satisfiable vs) ∧
    (o.solver.Satisfiable vs → o.Repaired) ∧
    (s.KeepsRequired (.updateConstant id k) → s.Satisfiable vs → o.Repaired) := by
  obtain ⟨V, hsound⟩ := h.sound
  obtain ⟨hsound', -, -, hfail⟩ := hsound.updateConstant ho
  refine ⟨fun f hf => ?_, hsound.repaired_of_satisfiable ho, fun hkeep hsat => ?_⟩
  · obtain ⟨hreason, hstuck⟩ := hfail f hf
    exact ⟨hreason, fun hsat => hsound'.not_stuck hsat hstuck⟩
  · exact hsound.repaired_of_satisfiable ho (hsound.satisfiable_updateConstant ho hkeep hsat)

/-- A width of at least 100 and at most 200 that is then to be at most 50. -/
theorem contradictory_of_bounds :
    ∃ y o f, replay (fun _ _ o => o.isRepaired) 9
      [.newVariable false, .add (.compare (.var ⟨0, .free⟩) .atLeast (.const 100)),
        .add (.compare (.var ⟨0, .free⟩) .atMost (.const 200))] ([], new) = some y ∧
      y.2.updateConstant 9 ⟨1⟩ 50 = some o ∧ .repairFailed f ∈ o.log ∧
      f = .fault .noRepair ∧ ¬o.solver.Satisfiable y.1 := by
  have hrun : (replay (fun _ _ o => o.isRepaired) 9
      [.newVariable false, .add (.compare (.var ⟨0, .free⟩) .atLeast (.const 100)),
        .add (.compare (.var ⟨0, .free⟩) .atMost (.const 200))] ([], new)).any
      (fun y => (y.2.updateConstant 9 ⟨1⟩ 50).any fun o => decide (o.isRepaired = false)) = true := by
    decide +kernel
  obtain ⟨y, hy, hrest⟩ := (Option.any_eq_true _ _).1 hrun
  obtain ⟨o, ho, hcheck⟩ := (Option.any_eq_true _ _).1 hrest
  obtain ⟨f, hf⟩ := Outcome.exists_repairFailed (of_decide_eq_true hcheck)
  exact ⟨y, o, f, hy, ho, hf, (repairFailed_only_if_contradictory (.of_repaired hy) ho).1 f hf⟩

/-- An edit of a constraint that may be missed can fail although no repair ever did: the required
constraints contradict each other already, since the second of three equal equalities was given
another value without a failure. -/
theorem soft_edit_fails :
    ∃ (vs : List Variable) (s : Solver Rat) (c : Constraint Rat) (o : Outcome Rat Unit) (f : Failure),
      Reached (fun _ _ o => o.Repaired) vs s ∧ s.constraint? ⟨4⟩ = some c ∧ c.isRequired = false ∧
        s.updateConstant 9 ⟨4⟩ 0 = some o ∧ .repairFailed f ∈ o.log := by
  let equality : Request Rat := .add (.compare (.var ⟨0, .free⟩) .equal (.const 5))
  let bound : Request Rat := .add (.compare (.var ⟨0, .free⟩) .atMost (.const 10))
  let preference : Request Rat :=
    .add ((Constraint.compare (.var ⟨0, .free⟩) .equal (.const 10)).withStrength .weak)
  have hrun : (replay (fun _ _ o => o.isRepaired) 9
      [.newVariable false, equality, equality, equality, .updateConstant ⟨1⟩ 4, bound,
        .remove ⟨2⟩, preference] ([], new)).any (fun y =>
      ((y.2.constraint? ⟨4⟩).any fun c => decide (c.isRequired = false)) &&
        (y.2.updateConstant 9 ⟨4⟩ 0).any fun o => decide (o.isRepaired = false)) = true := by
    decide +kernel
  obtain ⟨y, hy, hrest⟩ := (Option.any_eq_true _ _).1 hrun
  rw [Bool.and_eq_true] at hrest
  obtain ⟨c, hc, hsoft⟩ := (Option.any_eq_true _ _).1 hrest.1
  obtain ⟨o, ho, hcheck⟩ := (Option.any_eq_true _ _).1 hrest.2
  obtain ⟨f, hf⟩ := Outcome.exists_repairFailed (of_decide_eq_true hcheck)
  exact ⟨y.1, y.2, c, o, f, .of_repaired hy, hc, of_decide_eq_true hsoft, ho, hf⟩

/-! ## Contradictions that are not told -/

theorem Sound.upheld (h : s.Sound V vs) : s.Upheld V vs :=
  ⟨h.books, h.stands.tidy.orderly, h.stands.freeApart⟩

/-- What is negative after an edit whose repair did not fail was so before. -/
theorem Sound.value_of_neg (h : s.Sound V vs) (ho : s.updateConstant n id k = some o)
    (hrep : o.Repaired) {v : Variable} (hv : v.isRestricted = true) (hneg : o.solver.value v < 0) :
    o.solver.value v = s.value v := by
  rcases h.upheld.updateConstant_attends Scalar.raises_rat ho hrep with hsame | ⟨hattends, hqueue⟩
  · rw [hsame]
  · rw [value_eq_point] at hneg
    rw [value_eq_point, value_eq_point]
    cases hb : o.solver.tableau.row? v with
    | none =>
      rw [Tableau.point_of_nonbasic hb] at hneg
      exact absurd hneg (lt_irrefl 0)
    | some f =>
      rw [Tableau.point_of_basic hb] at hneg
      obtain ⟨-, hrow⟩ := hattends.of_queue_empty hqueue (Tableau.sunk_iff.2 ⟨hv, f, hb, hneg⟩)
      rw [Tableau.point_of_basic hb, Tableau.point_of_basic (hrow ▸ hb)]

/-- An edit turns a record into one of the same kind and with the same marker. -/
theorem Sound.record_of_edit (h : s.Sound V vs) (ho : s.updateConstant n id k = some o)
    {i : ConstraintId} {r : Record Rat} (hr : o.solver.record? i = some r) :
    ∃ p, s.record? i = some p ∧ p.marker = r.marker ∧
      p.constraint.isRequired = r.constraint.isRequired ∧
      p.constraint.isInequality = r.constraint.isInequality := by
  obtain ⟨-, -, hrecords, -⟩ := h.updateConstant ho
  rcases hrecords i r hr with hsame | ⟨rfl, p, hp, rfl⟩
  · exact ⟨r, hsame, rfl, rfl, rfl⟩
  · exact ⟨p, hp, rfl, rfl, rfl⟩

/-- Where the required constraints held before the edit, no marker of one is negative after a repair
that did not fail. -/
theorem Sound.marker_nonneg (h : s.Sound V vs) (hold : s.RequiredHold s.value)
    (ho : s.updateConstant n id k = some o) (hrep : o.Repaired) {i : ConstraintId}
    {r : Record Rat} (hr : o.solver.record? i = some r) (hreq : r.constraint.isRequired = true) :
    0 ≤ o.solver.value r.marker := by
  by_contra hneg
  obtain ⟨hsound', -⟩ := h.updateConstant ho
  obtain ⟨p, hp, hmarker, hpreq, -⟩ := h.record_of_edit ho hr
  have hsame := h.value_of_neg ho hrep
    ((hsound'.books.proper hr).own_restricted r.marker_mem_own) (not_le.1 hneg)
  have hheld := Solver.requiredHold_iff.1 hold i p hp (hpreq.trans hreq)
  rw [Constraint.holds_iff, h.eval_value hp (hpreq.trans hreq), hmarker, ← hsame] at hheld
  split at hheld
  · exact hneg hheld
  · exact hneg hheld.ge

/-- Where the required constraints hold and an edit leaves them without a solution, the repair fails;
or a required equality is exceeded, its dummy having risen above zero; or a bounded variable was
negative before the edit and still is. -/
theorem contradiction_told_or_overlooked (h : Reached allowed vs s) (hold : s.RequiredHold s.value)
    (ho : s.updateConstant n id k = some o) (hunsat : ¬o.solver.Satisfiable vs) :
    .repairFailed (.fault .noRepair) ∈ o.log ∨
      (∃ i r, o.solver.record? i = some r ∧ r.constraint.isRequired = true ∧
        r.marker.role = .dummy ∧ 0 < r.constraint.form.eval o.solver.value) ∨
      ∃ v ∈ vs, v.role = .bounded ∧ s.value v < 0 ∧ o.solver.value v = s.value v := by
  obtain ⟨V, hsound⟩ := h.sound
  obtain ⟨hsound', -, -, hfail⟩ := hsound.updateConstant ho
  by_cases hrep : o.Repaired
  · right
    by_contra hneither
    rw [not_or, not_exists, not_exists] at hneither
    obtain ⟨hdummies, hbounds⟩ := hneither
    -- the solver's own values would be a solution
    refine hunsat ⟨o.solver.value, fun v hv hrole => ?_, Solver.requiredHold_iff.2 fun i r hr hreq => ?_⟩
    · by_contra hneg
      have hrestricted : v.isRestricted = true := by
        unfold Variable.isRestricted
        rw [hrole]
        rfl
      have hsame := hsound.value_of_neg ho hrep hrestricted (not_le.1 hneg)
      exact hbounds v ⟨hv, hrole, hsame ▸ not_le.1 hneg, hsame⟩
    · have hnn := hsound.marker_nonneg hold ho hrep hr hreq
      have hvalue := hsound'.eval_value hr hreq
      rw [Constraint.holds_iff, hvalue]
      cases hi : r.constraint.isInequality with
      | true => exact hnn
      | false =>
        have hrole := (hsound'.books.proper hr).marker_dummy hreq hi
        apply le_antisymm _ hnn
        rw [← hvalue, ← not_lt]
        exact fun hpos => hdummies i ⟨r, hr, hreq, hrole, hpos⟩
  · left
    obtain ⟨f, hf⟩ := not_forall.1 hrep
    have hf := not_not.1 hf
    exact (hfail f hf).1 ▸ hf

/-- Two equal equalities, one of which is then to have a lower value. -/
theorem contradiction_told_of_equality :
    ∃ y o, replay (fun _ _ o => o.isRepaired) 9
      [.newVariable false, .add (.compare (.var ⟨0, .free⟩) .equal (.const 5)),
        .add (.compare (.var ⟨0, .free⟩) .equal (.const 5))] ([], new) = some y ∧
      y.2.updateConstant 9 ⟨1⟩ 3 = some o ∧ y.2.RequiredHold y.2.value ∧
      ¬o.solver.Satisfiable y.1 ∧
      (.repairFailed (.fault .noRepair) ∈ o.log ∨
        (∃ i r, o.solver.record? i = some r ∧ r.constraint.isRequired = true ∧
          r.marker.role = .dummy ∧ 0 < r.constraint.form.eval o.solver.value) ∨
        ∃ v ∈ y.1, v.role = .bounded ∧ y.2.value v < 0 ∧ o.solver.value v = y.2.value v) := by
  have hrun : (replay (fun _ _ o => o.isRepaired) 9
      [.newVariable false, .add (.compare (.var ⟨0, .free⟩) .equal (.const 5)),
        .add (.compare (.var ⟨0, .free⟩) .equal (.const 5))] ([], new)).any (fun y =>
      decide (y.2.RequiredHold y.2.value) && (y.2.updateConstant 9 ⟨1⟩ 3).any fun o =>
        decide (o.solver.constraint? ⟨0⟩ = some (.compare (var ⟨0, .free⟩) .equal (const 5))) &&
          decide (o.solver.constraint? ⟨1⟩ = some (.compare (var ⟨0, .free⟩) .equal (const 3)))) =
      true := by
    decide +kernel
  obtain ⟨y, hy, hrest⟩ := (Option.any_eq_true _ _).1 hrun
  rw [Bool.and_eq_true, decide_eq_true_eq] at hrest
  obtain ⟨hold, hrest⟩ := hrest
  obtain ⟨o, ho, hcheck⟩ := (Option.any_eq_true _ _).1 hrest
  rw [Bool.and_eq_true, decide_eq_true_eq, decide_eq_true_eq] at hcheck
  have hunsat : ¬o.solver.Satisfiable y.1 :=
    not_satisfiable_of_two_values hcheck.1 hcheck.2 (by norm_num)
  exact ⟨y, o, hy, ho, hold, hunsat, contradiction_told_or_overlooked (.of_repaired hy) hold ho hunsat⟩

/-- A contradiction can go through without a failure: of two equal equalities one is given a higher
value, and the dummy that has a row rises with it. -/
theorem contradiction_silent :
    ∃ (vs : List Variable) (s : Solver Rat) (o : Outcome Rat Unit),
      Reached (fun _ _ o => o.Repaired) vs s ∧ s.RequiredHold s.value ∧
        s.updateConstant 9 ⟨1⟩ 7 = some o ∧ ¬o.solver.Satisfiable vs ∧ o.Repaired := by
  let equality : Request Rat := .add (.compare (.var ⟨0, .free⟩) .equal (.const 5))
  have hrun : (replay (fun _ _ o => o.isRepaired) 9
      [.newVariable false, equality, equality] ([], new)).any (fun y =>
      decide (y.2.RequiredHold y.2.value) && (y.2.updateConstant 9 ⟨1⟩ 7).any fun o =>
        decide (o.isRepaired = true) &&
          decide (o.solver.constraint? ⟨0⟩ = some (.compare (var ⟨0, .free⟩) .equal (const 5))) &&
          decide (o.solver.constraint? ⟨1⟩ = some (.compare (var ⟨0, .free⟩) .equal (const 7)))) =
      true := by
    decide +kernel
  obtain ⟨y, hy, hrest⟩ := (Option.any_eq_true _ _).1 hrun
  rw [Bool.and_eq_true, decide_eq_true_eq] at hrest
  obtain ⟨hold, hrest⟩ := hrest
  obtain ⟨o, ho, hcheck⟩ := (Option.any_eq_true _ _).1 hrest
  rw [Bool.and_eq_true, Bool.and_eq_true, decide_eq_true_eq, decide_eq_true_eq,
    decide_eq_true_eq] at hcheck
  obtain ⟨⟨hrepaired, hfirst⟩, hsecond⟩ := hcheck
  have hunsat : ¬o.solver.Satisfiable y.1 :=
    not_satisfiable_of_two_values hfirst hsecond (by norm_num)
  exact ⟨y.1, y.2, o, .of_repaired hy, hold, ho, hunsat,
    Outcome.repaired_of_isRepaired hrepaired⟩

end Solver

end SoftSimplex
