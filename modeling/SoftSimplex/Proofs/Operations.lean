import SoftSimplex.Solver.History
import SoftSimplex.Table.Lemmas

/-!
# What the operations come to

Each operation is opened once: the ways in which it ends, with what it leaves in each. Whatever is
proved of an operation starts from here. Nothing depends on the arithmetic.
-/

namespace SoftSimplex

variable {α : Type} [Scalar α] {n : Nat}

/-- A failure is not made by turning a result into another. -/
theorem error_of_map {ρ ρ' : Type} {x : Except Failure ρ} {g : ρ → ρ'} {e : Failure}
    (h : x.map g = .error e) : x = .error e := by
  cases x with
  | ok y => cases h
  | error e' => exact congrArg Except.error (Except.error.inj h)

/-- Settling leaves an outcome alone, or goes on from it to a minimum. -/
theorem Outcome.settle_cases {ρ : Type} {o o' : Outcome α ρ} (h : o.settle n = some o') :
    o' = o ∨ ∃ r, o.solver.solve n = some r ∧ o'.solver = r.solver ∧
      (r.answer = .ok () ∧ o'.answer = o.answer ∨
        ∃ f, r.answer = .error f ∧ o'.answer = .error f) := by
  unfold settle at h
  split at h
  · obtain ⟨r, hr, rfl⟩ := Option.map_eq_some_iff.1 h
    refine .inr ⟨r, hr, rfl, ?_⟩
    cases hanswer : r.answer with
    | ok _ => exact .inl ⟨rfl, rfl⟩
    | error f => exact .inr ⟨f, rfl, rfl⟩
  · exact .inl (Option.some.inj h).symm

/-- A failure stays one, though minimising may put its own in the place. -/
theorem Outcome.settle_fails {ρ : Type} {o o' : Outcome α ρ} (h : o.settle n = some o')
    {e : Failure} (he : o.answer = .error e) : ∃ e', o'.answer = .error e' := by
  rcases settle_cases h with rfl | ⟨r, -, -, ⟨-, hsame⟩ | ⟨e', -, he'⟩⟩
  · exact ⟨e, he⟩
  · exact ⟨e, hsame.trans he⟩
  · exact ⟨e', he'⟩

namespace Solver

omit [Scalar α] in
/-- What a refusal says. -/
theorem refusal_cases (s : Solver α) (id : ConstraintId) (a : Variable) :
    s.refusal id a = .unsatisfiable ∨ ∃ ids, s.refusal id a = .conflict ids := by
  unfold refusal
  split
  · exact .inr ⟨_, rfl⟩
  · exact .inl rfl

variable {s : Solver α} {id : ConstraintId} {f : LinearForm α} {o : Outcome α Unit}

theorem solve_cases (h : s.solve n = some o) :
    ∃ p, s.tableau.minimize n = some p ∧ o = s.afterPass p := by
  obtain ⟨p, hp, rfl⟩ := Option.map_eq_some_iff.1 h
  exact ⟨p, hp, rfl⟩

/-- A repair is told to have failed exactly if it did, and the queue is empty in any case. -/
theorem restore_cases (h : s.restore n = some o) :
    ∃ p, s.tableau.repair n = some p ∧ o.solver = { s with tableau := p.tableau.clearQueue } ∧
      o.answer = .ok () ∧ ∀ e, .repairFailed e ∈ o.log ↔ p.ending = .error e := by
  unfold restore repair at h
  obtain ⟨q, hq, rfl⟩ := Option.map_eq_some_iff.1 h
  obtain ⟨p, hp, rfl⟩ := Option.map_eq_some_iff.1 hq
  refine ⟨p, hp, rfl, rfl, fun e => ?_⟩
  have hanswer : (s.afterPass p).answer = p.ending := rfl
  have hlog : (s.afterPass p).log = p.swaps.map .swapped := rfl
  rw [hanswer, hlog]
  cases p.ending <;> simp [eq_comm]

/-! ## Adding and removing -/

/-- An equation is solved for a variable that suits, or goes through a first phase. -/
theorem bringIn_cases (h : s.bringIn n id f = some o) :
    (∃ v, s.subject? f = some v ∧ o = ⟨s.insertSolved v f, [], .ok ()⟩) ∨
      s.subject? f = none ∧ ∃ p, (s.beginFirstPhase f).tableau.minimizeArtificial n = some p ∧
        o.solver = ((s.beginFirstPhase f).concludeFirstPhase id (s.supply.next .slack) p).solver ∧
        o.answer =
          ((s.beginFirstPhase f).concludeFirstPhase id (s.supply.next .slack) p).answer := by
  unfold bringIn at h
  cases hx : s.subject? f with
  | some v =>
    simp only [hx, Option.some.injEq] at h
    exact .inl ⟨v, rfl, h.symm⟩
  | none =>
    simp only [hx] at h
    obtain ⟨p, hp, rfl⟩ := Option.map_eq_some_iff.1 h
    exact .inr ⟨rfl, p, hp, rfl, rfl⟩

theorem add_cases {c : Constraint α} {o : Outcome α ConstraintId} (h : s.add n c = some o) :
    ∃ q, (s.prepare c).1.bringIn n ⟨s.nextId⟩ (s.prepare c).2 = some q ∧
      Outcome.settle n ⟨q.solver, .adding ⟨s.nextId⟩ c.relation :: q.log,
        q.answer.map fun () => ⟨s.nextId⟩⟩ = some o := by
  unfold add at h
  simp only [Option.bind_eq_bind, Option.bind_eq_some_iff] at h
  exact h

theorem retract_of_unknown (h : s.record? id = none) :
    s.retract id = ⟨s, [], .error (.unknownConstraint id)⟩ := by
  unfold retract
  rw [h]

theorem remove_cases (h : s.remove n id = some o) :
    (∃ e, (s.retract id).answer = .error e ∧ o = s.retract id) ∨
      (s.retract id).answer = .ok () ∧
        Outcome.settle n ⟨(s.retract id).solver, (s.retract id).log ++ [.removed id], .ok ()⟩ =
          some o := by
  unfold remove at h
  cases hanswer : (s.retract id).answer with
  | error e =>
    simp only [hanswer, Option.some.injEq] at h
    exact .inl ⟨e, rfl, h.symm⟩
  | ok _ =>
    simp only [hanswer] at h
    exact .inr ⟨rfl, h⟩

/-! ## All but the tableau -/

variable {r : Record α}

theorem solver_of_solve (h : s.solve n = some o) : ∃ t, o.solver = { s with tableau := t } := by
  obtain ⟨p, -, rfl⟩ := solve_cases h
  exact ⟨p.tableau, rfl⟩

theorem solver_of_settle {ρ : Type} {o o' : Outcome α ρ} (h : o.settle n = some o') :
    ∃ t, o'.solver = { o.solver with tableau := t } := by
  rcases Outcome.settle_cases h with rfl | ⟨q, hq, hsolver, -⟩
  · exact ⟨o'.solver.tableau, rfl⟩
  · rw [hsolver]
    exact solver_of_solve hq

/-- A constraint that is taken out is struck from the books, also when the exchange fails. -/
theorem solver_of_retract (hr : s.record? id = some r) :
    ∃ t, (s.retract id).solver = { s.strike id r with tableau := t } := by
  unfold retract
  simp only [hr]
  split
  · exact ⟨_, rfl⟩
  · split <;> exact ⟨_, rfl⟩

/-- Rolling back drops the artificial variable and takes the constraint out. -/
theorem solver_of_rollBack (s : Solver α) (id : ConstraintId) (a : Variable)
    (news : List (Event α)) (e : Failure) : (s.rollBack id a news e).solver =
      (({ s with tableau := s.tableau.discard a } : Solver α).retract id).solver := by
  unfold rollBack
  simp only
  split <;> rfl

theorem rollBack_fails (s : Solver α) (id : ConstraintId) (a : Variable) (news : List (Event α))
    (e : Failure) : ∃ e', (s.rollBack id a news e).answer = .error e' := by
  unfold rollBack
  simp only
  split
  · exact ⟨e, rfl⟩
  · next e' hanswer => exact ⟨e', hanswer⟩

theorem solver_of_dismiss (s : Solver α) (id : ConstraintId) (a : Variable) :
    ∃ t, (s.dismiss id a).solver = { s with tableau := t } := by
  unfold dismiss
  simp only
  split
  · exact ⟨_, rfl⟩
  · exact ⟨_, rfl⟩
  · split <;> exact ⟨_, rfl⟩

/-- After a first phase the artificial variable goes alone, or with the constraint. -/
theorem concludeFirstPhase_cases (s : Solver α) (id : ConstraintId) (a : Variable) (p : Pass α) :
    s.concludeFirstPhase id a p =
        ({ s with tableau := p.tableau.endFirstPhase } : Solver α).dismiss id a ∨
      ∃ news e, s.concludeFirstPhase id a p =
        ({ s with tableau := p.tableau.endFirstPhase } : Solver α).rollBack id a news e := by
  unfold concludeFirstPhase
  simp only
  split
  · exact .inr ⟨_, _, rfl⟩
  · split
    · exact .inl rfl
    · exact .inr ⟨_, _, rfl⟩

/-- The first phase leaves the books alone, or fails and strikes the constraint. -/
theorem concludeFirstPhase_ends (hr : s.record? id = some r) (a : Variable) (p : Pass α) :
    (∃ t, (s.concludeFirstPhase id a p).solver = { s with tableau := t }) ∨
      (∃ e, (s.concludeFirstPhase id a p).answer = .error e) ∧
        ∃ t, (s.concludeFirstPhase id a p).solver = { s.strike id r with tableau := t } := by
  rcases concludeFirstPhase_cases s id a p with hend | ⟨news, e, hend⟩
  · rw [hend]
    exact .inl (solver_of_dismiss _ id a)
  · rw [hend]
    refine .inr ⟨rollBack_fails _ id a news e, ?_⟩
    rw [solver_of_rollBack]
    exact solver_of_retract (s := { s with tableau := p.tableau.endFirstPhase.discard a }) hr

/-- So does bringing an equation in, which may draw a variable. -/
theorem bringIn_ends (hr : s.record? id = some r) (h : s.bringIn n id f = some o) :
    ∃ supply t, o.solver = { s with supply := supply, tableau := t } ∨
      (∃ e, o.answer = .error e) ∧
        o.solver = { s.strike id r with supply := supply, tableau := t } := by
  rcases bringIn_cases h with ⟨v, -, rfl⟩ | ⟨-, p, -, hsolver, hanswer⟩
  · exact ⟨s.supply, _, .inl rfl⟩
  · rw [hsolver, hanswer]
    rcases concludeFirstPhase_ends (s := s.beginFirstPhase f) hr (s.supply.next .slack) p with
      ⟨t, ht⟩ | ⟨he, t, ht⟩
    · exact ⟨s.supply.advance, t, .inl ht⟩
    · exact ⟨s.supply.advance, t, .inr ⟨he, ht⟩⟩

theorem record?_prepare (s : Solver α) (c : Constraint α) :
    (s.prepare c).1.record? ⟨s.nextId⟩ = some ⟨(Auxiliaries.draw s.supply c).1, c⟩ :=
  (Table.get?_insert s.records _ _ _).trans (if_pos rfl)

/-- A constraint that is to be added is written in, and either stays or is struck again. -/
theorem add_ends {c : Constraint α} {o : Outcome α ConstraintId} (h : s.add n c = some o) :
    ∃ supply t, o.solver = { (s.prepare c).1 with supply := supply, tableau := t } ∨
      (∃ e, o.answer = .error e) ∧
        o.solver = { (s.prepare c).1.strike ⟨s.nextId⟩ ⟨(Auxiliaries.draw s.supply c).1, c⟩ with
          supply := supply, tableau := t } := by
  obtain ⟨q, hq, ho⟩ := add_cases h
  obtain ⟨t, ht⟩ := solver_of_settle ho
  obtain ⟨supply, t', hsolver | ⟨⟨e, he⟩, hsolver⟩⟩ := bringIn_ends (record?_prepare s c) hq
  · refine ⟨supply, t, .inl ?_⟩
    rw [ht]
    simp only [hsolver]
  · refine ⟨supply, t, .inr ⟨Outcome.settle_fails ho (congrArg (Except.map _) he), ?_⟩⟩
    rw [ht]
    simp only [hsolver]

/-- The name that adding answers with is the next one. -/
theorem answer_of_add {c : Constraint α} {o : Outcome α ConstraintId} (h : s.add n c = some o)
    (hok : o.answer = .ok id) : id = ⟨s.nextId⟩ := by
  obtain ⟨q, -, ho⟩ := add_cases h
  have hnamed : (q.answer.map fun () => (⟨s.nextId⟩ : ConstraintId)) = .ok id := by
    rcases Outcome.settle_cases ho with rfl | ⟨r, -, -, ⟨-, hsame⟩ | ⟨f, -, herror⟩⟩
    · exact hok
    · exact hsame.symm.trans hok
    · rw [hok] at herror
      cases herror
  cases hq : q.answer with
  | ok _ =>
    rw [hq] at hnamed
    exact (Except.ok.inj hnamed).symm
  | error f =>
    rw [hq] at hnamed
    cases hnamed

/-- A constraint that is added goes into the books under the next number. -/
theorem records_of_add {c : Constraint α} {o : Outcome α ConstraintId} (h : s.add n c = some o)
    (hok : o.answer = .ok id) :
    id = ⟨s.nextId⟩ ∧
      o.solver.records = s.records.insert id ⟨(Auxiliaries.draw s.supply c).1, c⟩ := by
  obtain rfl := answer_of_add h hok
  obtain ⟨supply, t, hsolver | ⟨⟨e, he⟩, -⟩⟩ := add_ends h
  · rw [hsolver]
    exact ⟨rfl, rfl⟩
  · rw [hok] at he
    cases he

/-! ## Editing -/

/-- The solver with another right side for a constraint, in the books and in the rows. -/
def shifted (s : Solver α) (id : ConstraintId) (r : Record α) (k : α) : Solver α :=
  { s with
    tableau := s.tableau.shiftConstant r.marker
      (r.constraint.constantFor k - r.constraint.form.constant)
    records := s.records.insert id { r with constraint := r.constraint.withRightSide k } }

/-- The solver with another strength for a constraint, in the books and in the objective. -/
def reweighed (s : Solver α) (id : ConstraintId) (r : Record α) (new : Strength α) : Solver α :=
  { s with
    tableau := r.errors.foldl
      (fun t v => t.addCost v (new.weight - r.constraint.strength.weight)) s.tableau
    records := s.records.insert id { r with constraint := r.constraint.withStrength new } }

/-- A constant stays, or moves and is followed by a repair. -/
theorem updateConstant_cases {k : α} (h : s.updateConstant n id k = some o) :
    o = ⟨s, [], .ok ()⟩ ∨ ∃ r q, s.record? id = some r ∧
      (s.shifted id r k).restore n = some q ∧
      o = ⟨q.solver, .constantUpdated id k
        (r.constraint.constantFor k - r.constraint.form.constant) :: q.log, q.answer⟩ := by
  unfold updateConstant at h
  cases hr : s.record? id with
  | none =>
    simp only [hr, Option.some.injEq] at h
    exact .inl h.symm
  | some r =>
    simp only [hr] at h
    split at h
    · exact .inl (Option.some.inj h).symm
    · obtain ⟨q, hq, rfl⟩ := Option.map_eq_some_iff.1 h
      exact .inr ⟨r, q, rfl, hq, rfl⟩

/-- A strength is that of no constraint, stays, or changes without making the constraint required
or the contrary. -/
theorem updateStrength_cases {new : Strength α} (h : s.updateStrength n id new = some o) :
    s.record? id = none ∧ o = ⟨s, [], .error (.unknownConstraint id)⟩ ∨
      (∃ log, o = ⟨s, log, .ok ()⟩) ∨
      ∃ r, s.record? id = some r ∧ new.isRequired = r.constraint.isRequired ∧
        Outcome.settle n ⟨s.reweighed id r new, [.strengthUpdated id new.weight], .ok ()⟩ =
          some o := by
  unfold updateStrength at h
  cases hr : s.record? id with
  | none =>
    simp only [hr, Option.some.injEq] at h
    exact .inl ⟨rfl, h.symm⟩
  | some r =>
    simp only [hr] at h
    right
    split at h
    · exact .inl ⟨_, (Option.some.inj h).symm⟩
    · split at h
      · exact .inl ⟨_, (Option.some.inj h).symm⟩
      · next hkind =>
        rw [Bool.or_eq_true, not_or, Bool.not_eq_true, Bool.not_eq_true] at hkind
        exact .inr ⟨r, rfl, hkind.2.trans hkind.1.symm, h⟩

/-! ## Variables handed out -/

omit [Scalar α] in
/-- An answer that hands no variable out leaves the client with those it had. -/
theorem append_clients_replying {ρ : Type} {p : Outcome α ρ} {f : ρ → Reply}
    (hf : ∀ x, Reply.clients (.ok (f x)) = []) (vs : List Variable) :
    vs ++ Reply.clients (perform.replying f p).answer = vs := by
  have hclients : Reply.clients (perform.replying f p).answer = [] := by
    show Reply.clients (p.answer.map f) = []
    cases p.answer with
    | ok x => exact hf x
    | error e => rfl
  rw [hclients, List.append_nil]

/-- Only a request for a variable hands one out. -/
theorem clients_perform {q : Request α} {o : Outcome α Reply} (ho : s.perform n q = some o) :
    Reply.clients o.answer = [] ∨ ∃ b : Bool, q = .newVariable b ∧
      Reply.clients o.answer = [s.supply.next (if b then .bounded else .free)] := by
  cases q with
  | newVariable b =>
    cases ho
    exact .inr ⟨b, rfl, rfl⟩
  | add _ | remove _ | updateConstant _ _ | updateStrength _ _ | solve =>
    obtain ⟨p, -, rfl⟩ := Option.map_eq_some_iff.1 ho
    exact .inl (append_clients_replying (fun _ => rfl) [])
  | reset | setAutoSolve _ | setExplainFailure _ =>
    cases ho
    exact .inl rfl

end Solver

end SoftSimplex
