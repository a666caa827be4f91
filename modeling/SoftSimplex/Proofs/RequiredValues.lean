import SoftSimplex.Proofs.Optimality

/-!
# When the required constraints hold

The slack of a required inequality is a restricted variable and cannot become negative. The dummy
of a required equality is meant to stay at zero, but nothing but its being without a row keeps it
there. So a required inequality always holds under the solver's values, and the required
constraints all hold exactly if all dummies are at zero. As long as that was so, no repair after an
edit of another constraint fails.
-/

namespace SoftSimplex

open LinearForm

namespace Solver

variable {V : Variable → Prop} {vs : List Variable} {s : Solver Rat}

/-- No dummy is off zero. -/
def Level (s : Solver Rat) : Prop := ∀ v : Variable, v.role = .dummy → s.value v = 0

/-- Some values meet the required constraints and the bounds of the client's variables. -/
def Satisfiable (vs : List Variable) (s : Solver Rat) : Prop :=
  ∃ σ : Assignment Rat, (∀ v ∈ vs, v.role = .bounded → 0 ≤ σ v) ∧ s.RequiredHold σ

/-- The form of a required constraint amounts to its marker. -/
theorem Sound.eval_value (h : s.Sound V vs) {id : ConstraintId} {r : Record Rat}
    (hr : s.record? id = some r) (hreq : r.constraint.isRequired = true) :
    r.constraint.form.eval s.value = s.value r.marker := by
  rw [value_eq_point]
  exact ((h.books.proper hr).balanced_iff_of_required hreq).1 (h.stands.point id r hr)

/-- Where no restricted row is negative, a required inequality holds, and a required equality holds
exactly if its dummy is at zero. -/
theorem Sound.required_holds_iff (h : s.Sound V vs) (hf : s.tableau.Feasible) {id : ConstraintId}
    {r : Record Rat} (hr : s.record? id = some r) (hreq : r.constraint.isRequired = true) :
    r.constraint.Holds s.value ↔ r.constraint.isInequality = true ∨ s.value r.marker = 0 := by
  rw [Constraint.holds_iff, h.eval_value hr hreq]
  cases r.constraint.isInequality with
  | true =>
    have hnn := hf.point_nonneg ((h.books.proper hr).own_restricted r.marker_mem_own)
    rw [← value_eq_point] at hnn
    simp [hnn]
  | false => simp

/-- Where no restricted row is negative, the required constraints hold exactly if no dummy is off
zero. -/
theorem Sound.requiredHold_iff (h : s.Sound V vs) (hf : s.tableau.Feasible) :
    s.RequiredHold s.value ↔ s.Level := by
  rw [Solver.requiredHold_iff]
  constructor
  · intro hold v hd
    by_cases hown : ∃ i q, s.record? i = some q ∧ v ∈ q.own
    · obtain ⟨i, q, hq, hv⟩ := hown
      obtain ⟨rfl, hr, hi⟩ := (h.books.proper hq).dummy_own hv hd
      apply ((h.required_holds_iff hf hq hr).1 (hold i q hq hr)).resolve_left
      rw [hi]
      exact Bool.false_ne_true
    · have hc : v.isClient = false := by
        unfold Variable.isClient
        rw [hd]
        rfl
      have hform : ∀ i q, s.record? i = some q → v ∉ q.constraint.form.vars := by
        intro i q hq hm
        rw [(h.books.proper hq).clients v hm] at hc
        cases hc
      rw [value_eq_point]
      exact Tableau.point_of_nonbasic (h.absent (fun i q hq hv => hown ⟨i, q, hq, hv⟩) hform).nonbasic
  · intro hlevel i q hq hr
    rw [h.required_holds_iff hf hq hr]
    cases hi : q.constraint.isInequality with
    | true => exact .inl rfl
    | false => exact .inr (hlevel _ ((h.books.proper hq).marker_dummy hr hi))

/-! ## Edits -/

/-- A system with a nonnegative solution has no row that nothing can raise. -/
theorem Sound.not_stuck (h : s.Sound V vs) (hsat : s.Satisfiable vs) : ¬s.tableau.Stuck := by
  obtain ⟨σ, hbounded, hold⟩ := hsat
  rintro ⟨b, row, hrow, hr, hneg, hstuck⟩
  have hsol := (h.stands.solves _).2 (h.books.balanced_complete σ)
  have hallow : Tableau.Allows (s.complete vs σ) :=
    fun v hv => h.books.complete_nonneg hbounded hv fun i q hq _ =>
      Solver.requiredHold_iff.1 hold i q hq
  have hle : row.eval (s.complete vs σ) ≤ row.constant := by
    apply eval_le_constant
    intro v hv
    have hvr := h.stands.freeApart hrow hv hr
    obtain ⟨hnn, hzero⟩ := hallow v hvr
    by_cases hd : v.role = .dummy
    · rw [hzero hd, mul_zero]
    · exact mul_nonpos_of_nonpos_of_nonneg
        (hstuck v hv (Tableau.mayEnter_of_restricted hvr hd)) hnn
  have hb := (hallow b hr).1
  rw [hsol.row hrow] at hb
  linarith

/-- An edit after which the required constraints have a solution is repaired. -/
theorem Sound.repaired_of_satisfiable (h : s.Sound V vs) {n : Nat} {id : ConstraintId} {k : Rat}
    {o : Outcome Rat Unit} (ho : s.updateConstant n id k = some o)
    (hsat : o.solver.Satisfiable vs) : o.Repaired := by
  intro f hf
  obtain ⟨hsound, -, -, hfail⟩ := h.updateConstant ho
  exact hsound.not_stuck hsat (hfail f hf).2

/-- An edit of a constraint that may be missed changes no required one. -/
theorem Sound.satisfiable_updateConstant (h : s.Sound V vs) {n : Nat} {id : ConstraintId} {k : Rat}
    {o : Outcome Rat Unit} (ho : s.updateConstant n id k = some o)
    (hkeep : s.KeepsRequired (.updateConstant id k)) (hsat : s.Satisfiable vs) :
    o.solver.Satisfiable vs := by
  obtain ⟨σ, hbounded, hold⟩ := hsat
  obtain ⟨-, -, hrecords, -⟩ := h.updateConstant ho
  refine ⟨σ, hbounded, ?_⟩
  rw [Solver.requiredHold_iff] at hold ⊢
  intro i r hr hreq
  rcases hrecords i r hr with hsame | ⟨rfl, p, hp, rfl⟩
  · exact hold i r hsame hreq
  · have hsoft := hkeep p.constraint (by
      unfold constraint?
      rw [hp]
      rfl)
    have hreq : p.constraint.isRequired = true := hreq
    rw [hsoft] at hreq
    cases hreq

/-- An edit of a constraint that may be missed is always repaired while the required ones hold. -/
theorem Sound.feasible_perform (h : s.Sound V vs) (hf : s.tableau.Feasible)
    (hold : s.RequiredHold s.value) {q : Request Rat} (hq : q.Within vs) (hkeep : s.KeepsRequired q)
    {n : Nat} {o : Outcome Rat Reply} (ho : s.perform n q = some o) :
    o.solver.tableau.Feasible := by
  obtain ⟨W, -, hfeasible, -⟩ := h.perform hq ho
  refine (hfeasible hf).resolve_right ?_
  rintro ⟨hnot, id, k, rfl⟩
  obtain ⟨p, hp, rfl⟩ := Option.map_eq_some_iff.1 ho
  have hsat : s.Satisfiable vs :=
    ⟨s.value, fun v _ hrole => value_nonneg_of_bounded hf hrole, hold⟩
  exact hnot (h.repaired_of_satisfiable hp (h.satisfiable_updateConstant hp hkeep hsat))

/-- No restricted row is negative as long as, with each request, no repair fails or there is no
reason for one to fail. -/
theorem Reached.feasible_of_level
    (h : Reached (fun s q o => s.KeepsRequired q ∧ s.Level ∨ o.Repaired) vs s) :
    s.tableau.Feasible := by
  induction h with
  | start settings => exact Tableau.feasible_empty
  | step hprev hq ho hok ih =>
    obtain ⟨V, hsound⟩ := hprev.sound
    rcases hok with ⟨hkeep, hlevel⟩ | hrepaired
    · exact hsound.feasible_perform ih ((hsound.requiredHold_iff ih).2 hlevel) hq hkeep ho
    · obtain ⟨W, -, hfeasible, -⟩ := hsound.perform hq ho
      exact (hfeasible ih).resolve_right fun hstuck => hstuck.1 hrepaired

/-- A required inequality holds, and a required equality holds exactly if its dummy is at zero; all
required constraints hold exactly if no dummy is off zero. This is so after all requests that move
no constant of a required constraint, from states in which no dummy is off zero, and after all
others in which no repair fails. -/
theorem requiredHold_iff_level
    (h : Reached (fun s q o => s.KeepsRequired q ∧ s.Level ∨ o.Repaired) vs s) :
    (∀ id r, s.record? id = some r → r.constraint.isRequired = true →
      (r.constraint.Holds s.value ↔
        r.constraint.isInequality = true ∨ s.value r.marker = 0)) ∧
    (s.RequiredHold s.value ↔ s.Level) := by
  obtain ⟨V, hsound⟩ := h.sound
  have hf := h.feasible_of_level
  exact ⟨fun _ _ hr hreq => hsound.required_holds_iff hf hr hreq, hsound.requiredHold_iff hf⟩

/-- Two equal equalities and a bound that both satisfy: the second equality is brought in by a first
phase, and no dummy is off zero. -/
theorem level_of_equality :
    ∃ y, replay (fun _ _ o => o.isRepaired) 9
      [.newVariable false, .add (.compare (.var ⟨0, .free⟩) .equal (.const 5)),
        .add (.compare (.var ⟨0, .free⟩) .equal (.const 5)),
        .add (.compare (.var ⟨0, .free⟩) .atMost (.const 10))] ([], new) = some y ∧
      y.2.value ⟨0, .free⟩ = 5 ∧ y.2.RequiredHold y.2.value ∧ y.2.Level := by
  have hrun : (replay (fun _ _ o => o.isRepaired) 9
      [.newVariable false, .add (.compare (.var ⟨0, .free⟩) .equal (.const 5)),
        .add (.compare (.var ⟨0, .free⟩) .equal (.const 5)),
        .add (.compare (.var ⟨0, .free⟩) .atMost (.const 10))] ([], new)).any
      (fun y => decide (y.2.value ⟨0, .free⟩ = 5 ∧ y.2.RequiredHold y.2.value)) = true := by
    decide +kernel
  obtain ⟨y, hy, hcheck⟩ := (Option.any_eq_true _ _).1 hrun
  obtain ⟨hvalue, hold⟩ := of_decide_eq_true hcheck
  have hreached : Reached (fun s q o => s.KeepsRequired q ∧ s.Level ∨ o.Repaired) y.1 y.2 :=
    Reached.replay (fun _ _ _ ho => .inr (Outcome.repaired_of_isRepaired ho)) (.start {}) hy
  exact ⟨y, hy, hvalue, hold, (requiredHold_iff_level hreached).2.1 hold⟩

def isSteady : Request Rat → Bool
  | .updateConstant _ _ => false
  | _ => true

theorem keepsRequired_of_isSteady {q : Request Rat} (h : isSteady q = true) :
    s.KeepsRequired q := by
  cases q with
  | updateConstant _ _ => cases h
  | _ => trivial

/-- A dummy can move: the second of two equal equalities leaves its dummy with a row, and removing
it moves the first away from what it demands. No required constraint was edited. -/
theorem required_lost_after_remove :
    ∃ (vs : List Variable) (s : Solver Rat),
      Reached (fun s q _ => s.KeepsRequired q) vs s ∧ ¬s.RequiredHold s.value := by
  let equality : Request Rat := .add (.compare (.var ⟨0, .free⟩) .equal (.const 5))
  let bound : Request Rat := .add (.compare (.var ⟨0, .free⟩) .atMost (.const 10))
  have hrun : (replay (fun _ q _ => isSteady q) 9
      [.newVariable false, equality, equality, bound, .remove ⟨1⟩] ([], new)).any
      (fun y => decide (¬y.2.RequiredHold y.2.value)) = true := by
    decide +kernel
  obtain ⟨y, hy, hlost⟩ := (Option.any_eq_true _ _).1 hrun
  refine ⟨y.1, y.2, Reached.replay ?_ (.start {}) hy, of_decide_eq_true hlost⟩
  exact fun s q o hq => keepsRequired_of_isSteady hq

end Solver

end SoftSimplex
