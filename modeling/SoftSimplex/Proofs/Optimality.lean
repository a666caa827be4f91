import SoftSimplex.Proofs.Completion
import SoftSimplex.Proofs.Requests

/-!
# A solved solver misses as little as possible

When minimising ends well, the objective has no negative coefficient that matters: not on a
variable that may enter, because the candidates are used up, and not on a free one, because free
variables stay out of the objective. Every completed assignment then costs at least the constant
part, which is what the point of the tableau costs.
-/

namespace SoftSimplex

open LinearForm

namespace Tableau

variable {V : Variable → Prop} {P : Assignment Rat → Prop} {C : Assignment Rat → Rat}
variable {t : Tableau Rat} {σ : Assignment Rat}

/-- A cost of restricted variables reduces to restricted variables. -/
theorem Stands.objective_restricted (h : t.Stands V P C)
    (hC : ∀ σ τ : Assignment Rat, (∀ v, v.isRestricted = true → σ v = τ v) → C σ = C τ) :
    ∀ v ∈ t.objective.vars, v.isRestricted = true := by
  intro v hv
  by_contra hfree
  have hwf := h.tidy.wellFormed
  -- moving the free variable moves no restricted one
  have hsame : ∀ w, w.isRestricted = true → t.fill (unit v) w = t.fill (fun _ => 0) w := by
    intro w hw
    have hne : w ≠ v := by
      rintro rfl
      exact hfree hw
    cases hb : t.row? w with
    | none => rw [fill_of_nonbasic hb, fill_of_nonbasic hb, unit_of_ne hne]
    | some f =>
      have hout : v ∉ f.vars := fun hm => hfree (h.freeApart hb hm hw)
      unfold fill
      rw [hb]
      show f.eval (unit v) = f.eval fun _ => 0
      rw [eval_unit, coeff_of_not_mem hout, eval_at_zero, add_zero]
  obtain ⟨K, hK⟩ := h.measures
  have hcost := hC _ _ hsame
  rw [hK _ (hwf.solves_fill _), hK _ (hwf.solves_fill _),
    eval_fill fun w hw => hwf.objective_open hw, eval_fill fun w hw => hwf.objective_open hw,
    eval_unit, eval_at_zero] at hcost
  have hzero : t.objective.coeff v = 0 := by linarith
  exact h.tidy.trim.objective v hv hzero

/-- The assignment is nonnegative but for free variables, and zero on dummies. -/
def Allows (σ : Assignment Rat) : Prop :=
  ∀ v, v.isRestricted = true → 0 ≤ σ v ∧ (v.role = .dummy → σ v = 0)

theorem mayEnter_of_restricted {v : Variable} (hr : v.isRestricted = true) (hd : v.role ≠ .dummy) :
    v.mayEnter = true := by
  unfold Variable.isRestricted at hr
  unfold Variable.mayEnter
  cases hrole : v.role <;> simp [hrole] at hr hd ⊢

/-- Without candidates the point costs the least. -/
theorem Stands.point_least (h : t.Stands V P C) (hdone : t.candidates.members = [])
    (hC : ∀ σ τ : Assignment Rat, (∀ v, v.isRestricted = true → σ v = τ v) → C σ = C τ)
    (hσ : P σ) (hallow : Allows σ) : C t.point ≤ C σ := by
  have hwf := h.tidy.wellFormed
  obtain ⟨K, hK⟩ := h.measures
  rw [hK _ ((h.solves σ).2 hσ), hK _ hwf.solves_point,
    eval_point fun v hv => hwf.objective_open hv]
  apply add_le_add_right
  apply constant_le_eval
  intro v hv
  have hr := h.objective_restricted hC v hv
  obtain ⟨hnn, hzero⟩ := hallow v hr
  by_cases hd : v.role = .dummy
  · rw [hzero hd, mul_zero]
  · apply mul_nonneg _ hnn
    by_contra hneg
    have hmem := (h.tidy.scouted v).2
      (profitable_iff.2 ⟨mayEnter_of_restricted hr hd, not_le.1 hneg⟩)
    rw [hdone] at hmem
    cases hmem

end Tableau

/-! ## Strengths -/

/-- The strengths in a request are such as `Strength.ofWeight` gives. -/
def Request.Graded : Request Rat → Prop
  | .add c => ∃ w, c.strength = Strength.ofWeight w
  | .updateStrength _ new => ∃ w, new = Strength.ofWeight w
  | _ => True

def Request.isGraded : Request Rat → Bool
  | .add c => decide (c.strength = Strength.ofWeight c.strength.weight)
  | .updateStrength _ new => decide (new = Strength.ofWeight new.weight)
  | _ => true

theorem Request.graded_of_isGraded {q : Request Rat} (h : q.isGraded = true) : q.Graded := by
  cases q with
  | add c => exact ⟨_, of_decide_eq_true h⟩
  | updateStrength _ new => exact ⟨_, of_decide_eq_true h⟩
  | _ => trivial

theorem Strength.ofWeight_nonneg (w : Rat) : 0 ≤ (Strength.ofWeight w).weight := by
  unfold ofWeight
  split
  · split
    · exact le_refl 0
    · next hneg =>
      split
      · show (0 : Rat) ≤ ((1000 : Nat) : Rat)
        norm_num
      · rw [Scalar.isNeg_rat] at hneg
        exact not_lt.1 hneg
  · exact le_refl 0

namespace Solver

variable {vs : List Variable} {s : Solver Rat}
variable {allowed : Solver Rat → Request Rat → Outcome Rat Reply → Prop}

theorem Reached.weight_nonneg (hallowed : ∀ s q o, allowed s q o → q.Graded)
    (h : Reached allowed vs s) :
    ∀ id r, s.record? id = some r → 0 ≤ r.constraint.weight := by
  induction h with
  | start settings =>
    intro i r hr
    cases hr
  | @step _ s q n o hprev hq ho hok ih =>
    obtain ⟨V, hsound⟩ := hprev.sound
    obtain ⟨W, -, -, hrecords⟩ := hsound.perform hq ho
    have hgraded := hallowed _ _ _ hok
    intro i r hr
    rcases hrecords i r hr with hold | hturn
    · exact ih i r hold
    · cases q with
      | add c =>
        obtain ⟨w, hw⟩ := hgraded
        have hc : r.constraint = c := hturn
        show 0 ≤ r.constraint.strength.weight
        rw [hc, hw]
        exact Strength.ofWeight_nonneg w
      | updateConstant j k =>
        obtain ⟨rfl, p, hp, rfl⟩ := hturn
        exact ih _ p hp
      | updateStrength j new =>
        obtain ⟨w, hw⟩ := hgraded
        obtain ⟨rfl, p, -, -, rfl⟩ := hturn
        show 0 ≤ new.weight
        rw [hw]
        exact Strength.ofWeight_nonneg w
      | newVariable _ => exact hturn.elim
      | remove _ => exact hturn.elim
      | solve => exact hturn.elim
      | reset => exact hturn.elim
      | setAutoSolve _ => exact hturn.elim
      | setExplainFailure _ => exact hturn.elim

/-- Errors are restricted, so the penalty does not see free variables. -/
theorem Books.penalty_eq {V : Variable → Prop} (h : s.Books V vs) {σ τ : Assignment Rat}
    (hστ : ∀ v, v.isRestricted = true → σ v = τ v) : s.penalty σ = s.penalty τ := by
  apply penalty_congr
  intro i q hq v hv
  exact hστ v ((h.proper hq).own_restricted (Record.error_mem_own hv))

/-- Minimising with success from a tableau without negative restricted rows leads to values that cost
the least among those that meet the required constraints and the bounds. -/
theorem Sound.cost_value_le {V : Variable → Prop} (h : s.Sound V vs) (hf : s.tableau.Feasible)
    (hw : ∀ id r, s.record? id = some r → 0 ≤ r.constraint.weight) {n : Nat} {o : Outcome Rat Unit}
    (ho : s.solve n = some o) (hok : o.answer = .ok ()) {σ : Assignment Rat}
    (hrequired : o.solver.RequiredHold σ) (hbounded : ∀ v ∈ vs, v.role = .bounded → 0 ≤ σ v) :
    o.solver.cost o.solver.value ≤ o.solver.cost σ := by
  obtain ⟨hsolved, hfeasible, hrecords, hdone⟩ := h.solve ho
  have hdone : o.solver.tableau.candidates.members = [] := by
    rcases hdone with ⟨-, hdone⟩ | herror
    · exact hdone
    · rw [hok] at herror
      cases herror
  have hweights : ∀ id r, o.solver.record? id = some r → 0 ≤ r.constraint.weight := by
    intro i r hr
    rw [record?_congr hrecords] at hr
    exact hw i r hr
  have hbooks := hsolved.books
  rw [value_eq_point]
  calc o.solver.cost o.solver.tableau.point
      ≤ o.solver.penalty o.solver.tableau.point :=
        hbooks.cost_le_penalty hsolved.stands.point (fun v hv => (hfeasible hf).point_nonneg hv)
          hweights
    _ ≤ o.solver.penalty (o.solver.complete vs σ) :=
        hsolved.stands.point_least hdone (fun _ _ => hbooks.penalty_eq)
          (hbooks.balanced_complete σ) fun v hv =>
            hbooks.complete_nonneg hbounded hv fun i q hq _ => requiredHold_iff.1 hrequired i q hq
    _ = o.solver.cost σ := hbooks.penalty_complete σ

/-- After minimising with success, no values of the client's variables that meet the required
constraints and the bounds miss the other constraints by less, weighted, than the solver's values
do. This is so after every history without a failed repair. -/
theorem cost_value_le_of_solve
    (h : Reached (fun _ q o => q.Graded ∧ o.Repaired) vs s) {n : Nat} {o : Outcome Rat Unit}
    (ho : s.solve n = some o) (hok : o.answer = .ok ()) {σ : Assignment Rat}
    (hrequired : o.solver.RequiredHold σ) (hbounded : ∀ v ∈ vs, v.role = .bounded → 0 ≤ σ v) :
    o.solver.cost o.solver.value ≤ o.solver.cost σ := by
  obtain ⟨V, hsound⟩ := h.sound
  have hfeasible := h.feasible fun _ _ _ hok => hok.2
  have hweights := h.weight_nonneg fun _ _ _ hok => hok.1
  exact hsound.cost_value_le hfeasible hweights ho hok hrequired hbounded

/-- A width of at least 100 that would rather be 40: at 120 it would cost more than where the solver
puts it. -/
theorem cost_value_le_of_width :
    ∃ y o, replay (fun _ q o => q.isGraded && o.isRepaired) 9
      [.newVariable false, .add (.compare (.var ⟨0, .free⟩) .atLeast (.const 100)),
        .add ((Constraint.compare (.var ⟨0, .free⟩) .equal (.const 40)).withStrength .weak)]
      ([], new) = some y ∧ y.2.solve 9 = some o ∧ o.answer = .ok () ∧
      o.solver.RequiredHold (fun _ => 120) ∧
      o.solver.cost o.solver.value ≤ o.solver.cost fun _ => 120 := by
  have hrun : (replay (fun _ q o => q.isGraded && o.isRepaired) 9
      [.newVariable false, .add (.compare (.var ⟨0, .free⟩) .atLeast (.const 100)),
        .add ((Constraint.compare (.var ⟨0, .free⟩) .equal (.const 40)).withStrength .weak)]
      ([], new)).any (fun y => (y.2.solve 9).any fun o =>
        decide (o.answer = .ok ()) && decide (o.solver.RequiredHold fun _ => 120)) = true := by
    decide +kernel
  obtain ⟨y, hy, hrest⟩ := (Option.any_eq_true _ _).1 hrun
  obtain ⟨o, ho, hcheck⟩ := (Option.any_eq_true _ _).1 hrest
  rw [Bool.and_eq_true] at hcheck
  have hok := of_decide_eq_true hcheck.1
  have hrequired := of_decide_eq_true hcheck.2
  have hreached : Reached (fun _ q o => q.Graded ∧ o.Repaired) y.1 y.2 := by
    refine Reached.replay (fun _ q o htest => ?_) (.start {}) hy
    rw [Bool.and_eq_true] at htest
    exact ⟨Request.graded_of_isGraded htest.1, Outcome.repaired_of_isRepaired htest.2⟩
  refine ⟨y, o, hy, ho, hok, hrequired, ?_⟩
  exact cost_value_le_of_solve hreached ho hok hrequired fun _ _ _ => by norm_num

end Solver

end SoftSimplex
