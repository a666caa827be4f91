import SoftSimplex.Proofs.Optimality

/-!
# A solver that minimises after every change

No variable that may enter has a negative coefficient in the objective: that is where minimising
stops, and what the dual pass keeps, since it lets a variable enter that raises the row at the least
cost. A solver that minimises after every change is therefore at a minimum between any two requests,
also where a constraint was refused or a repair failed, and minimising once more does nothing.
-/

namespace SoftSimplex

open LinearForm

namespace Tableau

variable {V : Variable → Prop} {t t' : Tableau Rat} {entry exit w : Variable}
variable {row : LinearForm Rat}

/-- No variable that may enter lowers the objective. -/
def Optimal (t : Tableau Rat) : Prop := ∀ v, v.mayEnter = true → 0 ≤ t.objective.coeff v

theorem optimal_empty : (∅ : Tableau Rat).Optimal := fun _ _ => le_refl 0

theorem Optimal.of_objective (h : t.Optimal) (he : t'.objective = t.objective) : t'.Optimal := by
  intro v hv
  rw [he]
  exact h v hv

theorem Scouted.optimal_iff (h : t.Scouted) : t.Optimal ↔ t.candidates.members = [] := by
  rw [List.eq_nil_iff_forall_not_mem]
  constructor
  · intro ho v hv
    obtain ⟨hmay, hneg⟩ := profitable_iff.1 ((h v).1 hv)
    exact absurd hneg (not_lt.2 (ho v hmay))
  · intro hnone v hmay
    by_contra hneg
    exact hnone v ((h v).2 (profitable_iff.2 ⟨hmay, not_le.1 hneg⟩))

/-- Minimising stops at once where it would stop anyway. -/
theorem Tidy.minimize_of_optimal (h : t.Tidy V) (ho : t.Optimal) (n : Nat) :
    t.minimize n = some ⟨t, [], .ok ()⟩ := by
  have hstep : t.objectiveStep = .done t := by
    rw [h.orderly.objectiveStep_eq, Candidates.head?_of_nil (h.scouted.optimal_iff.1 ho)]
    rfl
  unfold minimize iterate
  rw [hstep]

/-! ## The objective after an exchange

What `entry` costs for each unit by which it raises the row of `exit` is charged to `exit`; the
other variables of the row are given back what they raise the row by at that price.
-/

theorem WellFormed.coeff_objective_entry (h : t.WellFormed) (hrow : t.row? exit = some row)
    (he : t.exchange entry exit = .ok t') : t'.objective.coeff entry = 0 := by
  apply coeff_of_not_mem
  intro hm
  have hopen := (h.exchange he).objective_open hm
  rw [h.row?_exchange hrow he, if_pos rfl] at hopen
  cases hopen

theorem WellFormed.coeff_objective_exit (h : t.WellFormed) (hrow : t.row? exit = some row)
    (hmem : entry ∈ row.vars) (he : t.exchange entry exit = .ok t') :
    t'.objective.coeff exit = t.objective.coeff entry / row.coeff entry := by
  have hne := h.ne_of_mem hrow hmem hrow
  have hout : exit ∉ t.objective.vars := by
    intro hm
    rw [h.objective_open hm] at hrow
    cases hrow
  have hself : exit ∉ row.vars := fun hm => h.ne_of_mem hrow hm hrow rfl
  rw [objective_exchange hrow he, coeff_substitute _ _ hne.symm, coeff_of_not_mem hout,
    coeff_exchange_old hne hmem hself]
  ring

theorem WellFormed.coeff_objective_of_ne (h : t.WellFormed) (hrow : t.row? exit = some row)
    (hmem : entry ∈ row.vars) (he : t.exchange entry exit = .ok t') (hentry : w ≠ entry)
    (hexit : w ≠ exit) :
    t'.objective.coeff w =
      t.objective.coeff w - t.objective.coeff entry / row.coeff entry * row.coeff w := by
  have hne := h.ne_of_mem hrow hmem hrow
  rw [objective_exchange hrow he, coeff_substitute _ _ hentry,
    coeff_exchange_of_ne hne hmem hexit hentry]
  ring

/-! ## The dual pass -/

/-- Letting the variable enter that raises a row at the least cost makes no other worth entering. -/
theorem Optimal.exchange_cheapest (ho : t.Optimal) (h : t.WellFormed)
    (hrow : t.row? exit = some row) (hx : t.cheapest? row = some entry)
    (he : t.exchange entry exit = .ok t') : t'.Optimal := by
  obtain ⟨hmay, hmem, hpos, hleast⟩ := cheapest?_eq_some hx
  have hprice : 0 ≤ t.objective.coeff entry / row.coeff entry := div_nonneg (ho entry hmay) hpos.le
  intro w hw
  by_cases hentry : w = entry
  · rw [hentry, h.coeff_objective_entry hrow he]
  by_cases hexit : w = exit
  · rw [hexit, h.coeff_objective_exit hrow hmem he]
    exact hprice
  rw [h.coeff_objective_of_ne hrow hmem he hentry hexit, sub_nonneg]
  rcases lt_or_ge 0 (row.coeff w) with hraises | hlowers
  · -- what raises the row too does so at no lower price
    have hle := (hleast w hw (mem_vars_of_coeff (ne_of_gt hraises)) hraises).le
    exact (le_div_iff₀ hraises).1 hle
  · exact (mul_nonpos_of_nonneg_of_nonpos hprice hlowers).trans (ho w hw)

/-- A repair keeps the optimum, whether or not it fails: by induction over its exchanges. -/
theorem Optimal.repair (ho : t.Optimal) (h : t.WellFormed) {n : Nat} {p : Pass Rat}
    (hp : t.repair n = some p) : p.tableau.Optimal := by
  have hmeets : p.Meets Optimal fun u _ => u.Optimal := by
    apply iterate_meets (I := fun u => u.WellFormed ∧ u.Optimal) _ ⟨h, ho⟩ hp
    rintro u ⟨hwf, hopt⟩
    apply hwf.repairStep_meets.mono
    · rintro u' ⟨q, exit, row, entry, hq, -, hrow, -, -, hx, he⟩
      have hqueue := hwf.withQueue hq
      have hkept : ({ u with queue := q } : Tableau Rat).Optimal := hopt.of_objective rfl
      exact ⟨hqueue.exchange he, hkept.exchange_cheapest hqueue hrow hx he⟩
    · rintro u' ⟨-, rfl⟩
      exact hopt.of_objective rfl
    · rintro u' f ⟨-, q, -, -, -, -, -, -, -, rfl⟩
      exact hopt.of_objective rfl
  exact hmeets.tableau (fun _ hu => hu) fun _ _ hu => hu

end Tableau

namespace Solver

variable {V : Variable → Prop} {vs : List Variable} {s : Solver Rat} {n : Nat}

/-! ## Requests -/

theorem Sound.optimal_solve (h : s.Sound V vs) {o : Outcome Rat Unit} (ho : s.solve n = some o)
    (hbounded : o.answer ≠ .error .unbounded) : o.solver.tableau.Optimal := by
  obtain ⟨hsound, -, -, hdone⟩ := h.solve ho
  rcases hdone with ⟨-, hnone⟩ | herror
  · exact hsound.stands.tidy.scouted.optimal_iff.2 hnone
  · exact absurd herror hbounded

/-- What a change leaves, after minimising. -/
theorem optimal_settle {ρ : Type} {o o' : Outcome Rat ρ} (ho : o.settle n = some o')
    (h : o.solver.Sound V vs) (hauto : o.solver.settings.autoSolve = true)
    (hbounded : o'.answer ≠ .error .unbounded) : o'.solver.tableau.Optimal := by
  unfold Outcome.settle at ho
  rw [if_pos hauto] at ho
  obtain ⟨r, hr, rfl⟩ := Option.map_eq_some_iff.1 ho
  apply h.optimal_solve hr
  intro herror
  simp [herror] at hbounded

theorem Sound.optimal_add (h : s.Sound V vs) (hauto : s.settings.autoSolve = true)
    {c : Constraint Rat} (hc : ∀ v ∈ c.form.vars, v ∈ vs) {o : Outcome Rat ConstraintId}
    (ho : s.add n c = some o) (hbounded : o.answer ≠ .error .unbounded) :
    o.solver.tableau.Optimal := by
  obtain ⟨q, hq, ho⟩ := add_cases ho
  obtain ⟨W, hsound, -⟩ := (h.prepare hc).bringIn hq
  apply optimal_settle ho hsound _ hbounded
  obtain ⟨supply, t, hsolver | ⟨-, hsolver⟩⟩ := bringIn_ends (record?_prepare s c) hq
  · rw [hsolver]
    exact hauto
  · rw [hsolver]
    exact hauto

theorem Sound.optimal_remove (h : s.Sound V vs) (hopt : s.tableau.Optimal)
    (hauto : s.settings.autoSolve = true) {id : ConstraintId} {o : Outcome Rat Unit}
    (ho : s.remove n id = some o) (hbounded : o.answer ≠ .error .unbounded) :
    o.solver.tableau.Optimal := by
  rcases h.remove_cases ho with ⟨-, rfl⟩ | ⟨r, hr, ho⟩
  · exact hopt
  · obtain ⟨-, hsound, -⟩ := h.retract hr
    apply optimal_settle ho hsound _ hbounded
    obtain ⟨t, hsolver⟩ := solver_of_retract hr
    rw [hsolver]
    exact hauto

/-- Moving a constant leaves the objective alone, and minimising is not asked for. -/
theorem Sound.optimal_updateConstant (h : s.Sound V vs) (hopt : s.tableau.Optimal)
    {id : ConstraintId} {k : Rat} {o : Outcome Rat Unit} (ho : s.updateConstant n id k = some o) :
    o.solver.tableau.Optimal := by
  rcases updateConstant_cases ho with rfl | ⟨r, q, hr, hq, rfl⟩
  · exact hopt
  · obtain ⟨p, hp, hsolver, -⟩ := restore_cases hq
    obtain ⟨-, hobjective, -⟩ := Tableau.shiftConstant_frame s.tableau r.marker
      (r.constraint.constantFor k - r.constraint.form.constant)
    have hshifted : (s.shifted id r k).tableau.Optimal := hopt.of_objective hobjective
    have hrepaired := hshifted.repair (h.shift hr k).stands.tidy.wellFormed hp
    show q.solver.tableau.Optimal
    rw [hsolver]
    exact hrepaired.of_objective rfl

theorem Sound.optimal_updateStrength (h : s.Sound V vs) (hopt : s.tableau.Optimal)
    (hauto : s.settings.autoSolve = true) {id : ConstraintId} {new : Strength Rat}
    {o : Outcome Rat Unit} (ho : s.updateStrength n id new = some o)
    (hbounded : o.answer ≠ .error .unbounded) : o.solver.tableau.Optimal := by
  rcases updateStrength_cases ho with ⟨-, rfl⟩ | ⟨log, rfl⟩ | ⟨r, hr, hreq, ho⟩
  · exact hopt
  · exact hopt
  · exact optimal_settle ho (h.reweigh hr hreq) hauto hbounded

/-- A request that does not report the lack of a minimum leads from optimum to optimum. -/
theorem Sound.optimal_perform (h : s.Sound V vs) (hopt : s.tableau.Optimal)
    (hauto : s.settings.autoSolve = true) {q : Request Rat} (hq : q.Within vs)
    {o : Outcome Rat Reply} (ho : s.perform n q = some o)
    (hbounded : o.answer ≠ .error .unbounded) : o.solver.tableau.Optimal := by
  -- replies are made from results only
  have hresult : ∀ {ρ : Type} {p : Outcome Rat ρ} {f : ρ → Reply},
      (perform.replying f p).answer ≠ .error .unbounded → p.answer ≠ .error .unbounded := by
    intro ρ p f hne herror
    apply hne
    show p.answer.map f = _
    rw [herror]
    rfl
  cases q with
  | newVariable bounded =>
    cases ho
    exact hopt
  | add c =>
    obtain ⟨p, hp, rfl⟩ := Option.map_eq_some_iff.1 ho
    exact h.optimal_add hauto hq hp (hresult hbounded)
  | remove id =>
    obtain ⟨p, hp, rfl⟩ := Option.map_eq_some_iff.1 ho
    exact h.optimal_remove hopt hauto hp (hresult hbounded)
  | updateConstant id k =>
    obtain ⟨p, hp, rfl⟩ := Option.map_eq_some_iff.1 ho
    exact h.optimal_updateConstant hopt hp
  | updateStrength id new =>
    obtain ⟨p, hp, rfl⟩ := Option.map_eq_some_iff.1 ho
    exact h.optimal_updateStrength hopt hauto hp (hresult hbounded)
  | solve =>
    obtain ⟨p, hp, rfl⟩ := Option.map_eq_some_iff.1 ho
    exact h.optimal_solve hp (hresult hbounded)
  | reset =>
    cases ho
    exact Tableau.optimal_empty
  | setAutoSolve b =>
    cases ho
    exact hopt
  | setExplainFailure b =>
    cases ho
    exact hopt

/-- So does a whole history of such requests to a solver that minimises after every change. -/
theorem Reached.optimal
    (h : Reached (fun s _ o => s.settings.autoSolve = true ∧ o.answer ≠ .error .unbounded) vs s) :
    s.tableau.Optimal := by
  induction h with
  | start settings => exact Tableau.optimal_empty
  | step hprev hq ho hok ih =>
    obtain ⟨V, hsound⟩ := hprev.sound
    exact hsound.optimal_perform ih hok.1 hq ho hok.2

/-- At the optimum there is nothing to do. -/
theorem Sound.solve_of_optimal (h : s.Sound V vs) (hopt : s.tableau.Optimal) (n : Nat) :
    s.solve n = some ⟨s, [], .ok ()⟩ := by
  unfold Solver.solve
  rw [h.stands.tidy.minimize_of_optimal hopt]
  rfl

/-- A solver that has minimised after every change, and never without reaching a minimum, is at one:
no variable that may enter has a negative coefficient, and to minimise once more changes nothing. So
it is after refused constraints, after edits of constants and after failed repairs too. -/
theorem optimal_of_autoSolve
    (h : Reached (fun s _ o => s.settings.autoSolve = true ∧ o.answer ≠ .error .unbounded) vs s) :
    (∀ v, v.mayEnter = true → 0 ≤ s.tableau.objective.coeff v) ∧
      ∀ n, s.solve n = some ⟨s, [], .ok ()⟩ := by
  obtain ⟨V, hsound⟩ := h.sound
  exact ⟨h.optimal, hsound.solve_of_optimal h.optimal⟩

/-- A width of at least 100 that would rather be 140. To have it at most 50 is refused, which takes an
exchange to find out and one to undo; to have it at most 120 in place of 200 takes a repair, and to
have it then at least 130 one that fails. -/
theorem optimal_of_autoSolve_of_width :
    ∃ y, replay (fun s _ o => s.settings.autoSolve && decide (o.answer ≠ .error .unbounded)) 9
      [.newVariable false, .add (.compare (.var ⟨0, .free⟩) .atLeast (.const 100)),
        .add ((Constraint.compare (.var ⟨0, .free⟩) .equal (.const 140)).withStrength .weak),
        .add (.compare (.var ⟨0, .free⟩) .atMost (.const 200)),
        .add (.compare (.var ⟨0, .free⟩) .atMost (.const 50)), .updateConstant ⟨2⟩ 120,
        .updateConstant ⟨0⟩ 130] ([], ofSettings { autoSolve := true }) = some y ∧
      y.2.value ⟨0, .free⟩ = 120 ∧
      (∀ v, v.mayEnter = true → 0 ≤ y.2.tableau.objective.coeff v) ∧
      ∀ n, y.2.solve n = some ⟨y.2, [], .ok ()⟩ := by
  have hrun : (replay (fun s _ o => s.settings.autoSolve &&
        decide (o.answer ≠ .error .unbounded)) 9
      [.newVariable false, .add (.compare (.var ⟨0, .free⟩) .atLeast (.const 100)),
        .add ((Constraint.compare (.var ⟨0, .free⟩) .equal (.const 140)).withStrength .weak),
        .add (.compare (.var ⟨0, .free⟩) .atMost (.const 200)),
        .add (.compare (.var ⟨0, .free⟩) .atMost (.const 50)), .updateConstant ⟨2⟩ 120,
        .updateConstant ⟨0⟩ 130] ([], ofSettings { autoSolve := true })).any (fun y =>
      decide (y.2.value ⟨0, .free⟩ = 120)) = true := by
    decide +kernel
  obtain ⟨y, hy, hcheck⟩ := (Option.any_eq_true _ _).1 hrun
  have hreached :
      Reached (fun s _ o => s.settings.autoSolve = true ∧ o.answer ≠ .error .unbounded) y.1 y.2 := by
    refine Reached.replay (fun s _ o htest => ?_) (.start { autoSolve := true }) hy
    rw [Bool.and_eq_true] at htest
    exact ⟨htest.1, of_decide_eq_true htest.2⟩
  exact ⟨y, hy, of_decide_eq_true hcheck, optimal_of_autoSolve hreached⟩

/-- The values can then be read without minimising first: as long as no repair fails, no values that
meet the required constraints and the bounds miss the other constraints by less. -/
theorem cost_value_le_of_autoSolve
    (h : Reached (fun s q o => (s.settings.autoSolve = true ∧ o.answer ≠ .error .unbounded) ∧
      q.Graded ∧ o.Repaired) vs s) {σ : Assignment Rat} (hrequired : s.RequiredHold σ)
    (hbounded : ∀ v ∈ vs, v.role = .bounded → 0 ≤ σ v) : s.cost s.value ≤ s.cost σ := by
  obtain ⟨V, hsound⟩ := h.sound
  have hopt := (h.mono fun _ _ _ hok => hok.1).optimal
  have hfeasible := h.feasible fun _ _ _ hok => hok.2.2
  have hweights := h.weight_nonneg fun _ _ _ hok => hok.2.1
  exact hsound.cost_value_le hfeasible hweights (hsound.solve_of_optimal hopt 0) rfl hrequired
    hbounded

end Solver

end SoftSimplex
