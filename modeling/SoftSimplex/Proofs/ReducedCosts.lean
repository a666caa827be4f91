import Mathlib.Algebra.BigOperators.Ring.List
import SoftSimplex.Proofs.Optimality
import SoftSimplex.Proofs.Rays

/-!
# What a coefficient of the objective says

The objective is only ever changed by small additions: a cost comes when a constraint does, changes
when its strength does, and goes when it goes; exchanges rewrite it in other variables. Its
coefficients can be computed from the books at any moment all the same. Let a variable without a
row rise by one: every error rises at the rate that its row says, and the coefficient is what the
errors together then cost.
-/

namespace SoftSimplex

open LinearForm

namespace Tableau

variable {t : Tableau Rat} {v : Variable}

/-- How fast `w` rises with `v` while the other variables without rows stay. -/
def rate (t : Tableau Rat) (w v : Variable) : Rat :=
  if w = v then 1 else ((t.row? w).map fun row => row.coeff v).getD 0

/-- Along the ray of a variable without a row every variable keeps its rate. -/
theorem ray_eq_rate (hv : t.row? v = none) (y : Rat) (w : Variable) :
    t.ray v y w = t.point w + t.rate w v * y := by
  unfold rate
  by_cases hne : w = v
  · subst hne
    rw [ray_self hv, point_of_nonbasic hv, if_pos rfl]
    ring
  · rw [if_neg hne]
    cases hw : t.row? w with
    | none =>
      rw [ray_of_nonbasic hw hne, point_of_nonbasic hw]
      simp
    | some row =>
      rw [ray_of_basic hw, point_of_basic hw]
      rfl

end Tableau

/-- What the errors of a record cost along a ray. -/
theorem Record.penalty_ray (r : Record Rat) {t : Tableau Rat} {v : Variable}
    (hv : t.row? v = none) (y : Rat) :
    r.penalty (t.ray v y) = r.penalty t.point +
      (r.errors.map fun w => r.constraint.weight * t.rate w v).sum * y := by
  have herrors : (r.errors.map (t.ray v y)).sum =
      (r.errors.map t.point).sum + (r.errors.map fun w => t.rate w v).sum * y := by
    rw [← List.sum_map_mul_right, ← List.sum_map_add]
    exact congrArg List.sum (List.map_congr_left fun w _ => Tableau.ray_eq_rate hv y w)
  unfold Record.penalty
  rw [herrors, List.sum_map_mul_left]
  ring

namespace Solver

variable {vs : List Variable} {s : Solver Rat} {v : Variable}

/-- What the errors of all constraints cost more when `v` rises by one. -/
def reducedCost (s : Solver Rat) (v : Variable) : Rat :=
  (s.records.entries.map fun e =>
    (e.2.errors.map fun w => e.2.constraint.weight * s.tableau.rate w v).sum).sum

theorem penalty_ray (hv : s.tableau.row? v = none) (y : Rat) :
    s.penalty (s.tableau.ray v y) = s.penalty s.tableau.point + s.reducedCost v * y := by
  unfold penalty reducedCost
  rw [← List.sum_map_mul_right, ← List.sum_map_add]
  exact congrArg List.sum (List.map_congr_left fun e _ => e.2.penalty_ray hv y)

/-- After any requests, failed ones among them, the objective has the reduced costs for coefficients:
that of a variable without a row is what the errors of the constraints cost, by weight, at the rates
at which they rise with the variable. -/
theorem objective_eq_reducedCost {allowed : Solver Rat → Request Rat → Outcome Rat Reply → Prop}
    (h : Reached allowed vs s) (hv : s.tableau.row? v = none) :
    s.tableau.objective.coeff v = s.reducedCost v := by
  obtain ⟨V, hsound⟩ := h.sound
  have hwf := hsound.stands.tidy.wellFormed
  obtain ⟨K, hK⟩ := hsound.stands.measures
  have hobjective : ∀ y, s.penalty (s.tableau.ray v y) =
      K + (s.tableau.objective.constant + s.tableau.objective.coeff v * y) := by
    intro y
    rw [hK _ (hwf.solves_ray v y), Tableau.eval_ray fun w hw => hwf.objective_open hw]
  -- two points of the ray determine how steep it is
  have hstart := (hobjective 0).symm.trans (penalty_ray hv 0)
  have hend := (hobjective 1).symm.trans (penalty_ray hv 1)
  linarith

/-- A width that has to be at least 120 and would rather be 40, twice of which and another are not to
be more than 150; all that after a refusal, a removal and two edits. For each unit by which the width
were greater, one error would rise by one at a weight of 750 and one by two at a weight of 250. -/
theorem objective_eq_reducedCost_of_width :
    ∃ y, replay (fun _ _ _ => true) 9
      [.newVariable false, .newVariable true,
        .add (.compare (.var ⟨0, .free⟩) .atLeast (.const 100)),
        .add ((Constraint.compare (.var ⟨0, .free⟩) .equal (.const 40)).withStrength .weak),
        .add ((Constraint.compare ((var ⟨1, .bounded⟩).addScaled (var ⟨0, .free⟩) 2) .atMost
          (.const 150)).withStrength .medium),
        .solve, .add (.compare (.var ⟨0, .free⟩) .atMost (.const 50)),
        .add ((Constraint.compare (.var ⟨0, .free⟩) .equal (.const 70)).withStrength .strong),
        .remove ⟨4⟩, .updateStrength ⟨1⟩ .strong, .updateConstant ⟨0⟩ 120] ([], new) = some y ∧
      y.2.tableau.row? ⟨2, .slack⟩ = none ∧ y.2.tableau.objective.coeff ⟨2, .slack⟩ = 1250 ∧
      y.2.tableau.objective.coeff ⟨2, .slack⟩ = y.2.reducedCost ⟨2, .slack⟩ := by
  have hrun : (replay (fun _ _ _ => true) 9
      [.newVariable false, .newVariable true,
        .add (.compare (.var ⟨0, .free⟩) .atLeast (.const 100)),
        .add ((Constraint.compare (.var ⟨0, .free⟩) .equal (.const 40)).withStrength .weak),
        .add ((Constraint.compare ((var ⟨1, .bounded⟩).addScaled (var ⟨0, .free⟩) 2) .atMost
          (.const 150)).withStrength .medium),
        .solve, .add (.compare (.var ⟨0, .free⟩) .atMost (.const 50)),
        .add ((Constraint.compare (.var ⟨0, .free⟩) .equal (.const 70)).withStrength .strong),
        .remove ⟨4⟩, .updateStrength ⟨1⟩ .strong, .updateConstant ⟨0⟩ 120] ([], new)).any (fun y =>
      decide (y.2.tableau.row? ⟨2, .slack⟩ = none) &&
        decide (y.2.tableau.objective.coeff ⟨2, .slack⟩ = 1250)) = true := by
    decide +kernel
  obtain ⟨y, hy, hcheck⟩ := (Option.any_eq_true _ _).1 hrun
  rw [Bool.and_eq_true, decide_eq_true_eq, decide_eq_true_eq] at hcheck
  have hreached : Reached (fun _ _ _ => True) y.1 y.2 :=
    Reached.replay (fun _ _ _ _ => trivial) (.start {}) hy
  exact ⟨y, hy, hcheck.1, hcheck.2, objective_eq_reducedCost hreached hcheck.1⟩

/-- Free variables cost nothing: errors are restricted, and no restricted row mentions a free
variable. -/
theorem objective_restricted {allowed : Solver Rat → Request Rat → Outcome Rat Reply → Prop}
    (h : Reached allowed vs s) : ∀ v ∈ s.tableau.objective.vars, v.isRestricted = true := by
  obtain ⟨V, hsound⟩ := h.sound
  exact hsound.stands.objective_restricted fun _ _ => hsound.books.penalty_eq

end Solver

end SoftSimplex
