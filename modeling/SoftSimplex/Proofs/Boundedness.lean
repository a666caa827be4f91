import SoftSimplex.Proofs.Optimality
import SoftSimplex.Proofs.Rays

/-!
# What is minimised has a least value

The objective is a sum of errors with weights, and the objective of a first phase is the artificial
variable. Neither can fall while restricted variables rise, so whatever enters in order to lower
them is limited by some row, and no pass ends without one. What a request can fail for is then a
short list.
-/

namespace SoftSimplex

theorem Pass.Meets.ending_ok {α : Type} {goal : Tableau α → Prop} {p : Pass α}
    (h : p.Meets goal fun _ _ => False) : p.ending = .ok () := by
  unfold Meets at h
  split at h
  · assumption
  · exact h.elim

namespace Tableau

variable {V : Variable → Prop} {P : Assignment Rat → Prop} {C : Assignment Rat → Rat}
variable {t : Tableau Rat}

/-- A step in which some row limits whatever enters is not stuck. -/
theorem Tidy.descend_limited (hV : Numbered V) (h : t.Tidy V) {chosen : Option Variable}
    (hlimited : ∀ entry, chosen = some entry → ∃ exit, t.tightest? entry = some exit) :
    (t.descend chosen).Meets (Improves V t) (fun _ => True) fun _ _ => False := by
  apply (h.wellFormed.indexed.descend_meets chosen).mono
  · rintro u ⟨entry, exit, -, hx, he⟩
    exact h.improves_exchange hV hx he
  · exact fun _ _ => trivial
  · rintro u f ⟨-, -, entry, hentry, hnone⟩
    obtain ⟨exit, hx⟩ := hlimited entry hentry
    rw [hnone] at hx
    cases hx

/-- A pass whose steps are never stuck succeeds. -/
theorem Tidy.iterate_ok (h : t.Tidy V) {step : Tableau Rat → Step Rat}
    (hstep : ∀ u, Improves V t u →
      (step u).Meets (Improves V u) (fun _ => True) fun _ _ => False) {n : Nat} {p : Pass Rat}
    (hp : iterate step n t = some p) : p.ending = .ok () := by
  have hmeets : p.Meets (fun _ => True) fun _ _ => False := by
    apply iterate_meets (I := Improves V t) _ h.improves_refl hp
    intro u hu
    exact (hstep u hu).mono (fun _ hu' => hu.trans hu') (fun _ hu' => hu') fun _ _ hu' => hu'
  exact hmeets.ending_ok

/-- Minimising succeeds if the cost cannot fall while restricted variables rise. -/
theorem Stands.minimize_ok (hV : Numbered V) (h : t.Stands V P C) (hC : Rising C) {n : Nat}
    {p : Pass Rat} (hp : t.minimize n = some p) : p.ending = .ok () := by
  apply h.tidy.iterate_ok _ hp
  intro u hu
  have htidy := hu.tidy
  obtain ⟨K, hK⟩ := h.measures.recast hu.recast
  rw [htidy.orderly.objectiveStep_eq]
  apply htidy.descend_limited hV
  intro entry hentry
  have hp := (htidy.scouted entry).1 (List.mem_of_head? hentry)
  exact htidy.wellFormed.exists_tightest (fun w hw => htidy.wellFormed.objective_open hw) hC hK
    (profitable_iff.1 hp).2

end Tableau

namespace Solver

open Tableau

variable {V : Variable → Prop} {vs : List Variable} {s : Solver Rat} {id : ConstraintId}
variable {r : Record Rat} {f : LinearForm Rat} {n : Nat}

/-! ## Passes succeed -/

/-- Errors are restricted, so the penalty rises with restricted variables. -/
theorem Books.rising_penalty (h : s.Books V vs)
    (hw : ∀ id r, s.record? id = some r → 0 ≤ r.constraint.weight) : Rising s.penalty := by
  intro σ τ hστ
  unfold penalty
  apply List.sum_le_sum
  rintro ⟨i, q⟩ he
  have hq : s.record? i = some q := Table.get?_eq_some_iff.2 he
  apply mul_le_mul_of_nonneg_left _ (hw i q hq)
  apply List.sum_le_sum
  exact fun v hv => hστ v ((h.proper hq).own_restricted (Record.error_mem_own hv))

theorem Sound.solve_ok (h : s.Sound V vs)
    (hw : ∀ id r, s.record? id = some r → 0 ≤ r.constraint.weight) {o : Outcome Rat Unit}
    (ho : s.solve n = some o) : o.answer = .ok () := by
  obtain ⟨p, hp, rfl⟩ := solve_cases ho
  exact h.stands.minimize_ok h.books.issued.numbered (h.books.rising_penalty hw) hp

/-- Minimising on top of an operation does not change what it is answered with. -/
theorem settle_answer {ρ : Type} {o o' : Outcome Rat ρ} (ho : o.settle n = some o')
    (h : o.solver.Sound V vs)
    (hw : ∀ id r, o.solver.record? id = some r → 0 ≤ r.constraint.weight) :
    o'.answer = o.answer := by
  rcases o.settle_cases ho with rfl | ⟨q, hq, -, ⟨-, hsame⟩ | ⟨e, he, -⟩⟩
  · rfl
  · exact hsame
  · rw [h.solve_ok hw hq] at he
    cases he

/-- A first phase reaches a least value, whether or not the artificial variable keeps its row on
the way. -/
theorem Pending.minimizeArtificial_ok (h : s.Pending V vs id r f) {p : Pass Rat}
    (hp : (s.beginFirstPhase f).tableau.minimizeArtificial n = some p) : p.ending = .ok () := by
  obtain ⟨htidy, -⟩ := h.beginFirstPhase
  have hV := (h.books.issued.next .slack).numbered
  have hrising : Rising fun σ => σ s.artificialVariable := fun σ τ hστ => hστ _ rfl
  apply htidy.iterate_ok _ hp
  intro u hu
  rw [hu.tidy.orderly.artificialStep_eq hV]
  apply hu.tidy.descend_limited hV
  intro entry hentry
  obtain ⟨g, hg⟩ := h.exists_artificial hu.toKeeps
  have hneg := ((mem_artificialEntries hg).1 (Variable.mem_of_lowest? hentry)).2
  apply hu.tidy.wellFormed.exists_tightest (K := 0)
    (fun w hw => hu.tidy.wellFormed.artificial_open hg hw) hrising _ hneg
  intro σ hσ
  rw [zero_add, h.artificial_value hu.toKeeps hg hσ]

/-! ## What requests fail for -/

/-- Adding fails only where the equation could not be brought in. -/
theorem Sound.bringIn_of_add_failure (h : s.Sound V vs)
    (hw : ∀ id r, s.record? id = some r → 0 ≤ r.constraint.weight) {c : Constraint Rat}
    (hc : ∀ v ∈ c.form.vars, v ∈ vs) (hcw : 0 ≤ c.weight) {o : Outcome Rat ConstraintId}
    (ho : s.add n c = some o) {e : Failure} (he : o.answer = .error e) :
    ∃ q, (s.prepare c).1.bringIn n ⟨s.nextId⟩ (s.prepare c).2 = some q ∧ q.answer = .error e ∧
      Outcome.settle n ⟨q.solver, .adding ⟨s.nextId⟩ c.relation :: q.log,
        q.answer.map fun () => ⟨s.nextId⟩⟩ = some o := by
  obtain ⟨q, hq, ho⟩ := add_cases ho
  obtain ⟨W, hbrought, -, hrecords⟩ := (h.prepare hc).bringIn hq
  have hweights : ∀ i p, q.solver.record? i = some p → 0 ≤ p.constraint.weight := by
    intro i p hp
    rcases (record?_insert_iff rfl).1 (hrecords i p hp) with ⟨-, rfl⟩ | ⟨-, hp⟩
    · exact hcw
    · exact hw i p hp
  have hanswer := settle_answer ho hbrought hweights
  exact ⟨q, hq, error_of_map (hanswer.symm.trans he), ho⟩

theorem Sound.add_failure (h : s.Sound V vs)
    (hw : ∀ id r, s.record? id = some r → 0 ≤ r.constraint.weight) {c : Constraint Rat}
    (hc : ∀ v ∈ c.form.vars, v ∈ vs) (hcw : 0 ≤ c.weight) {o : Outcome Rat ConstraintId}
    (ho : s.add n c = some o) {e : Failure} (he : o.answer = .error e) :
    e = .unsatisfiable ∨ ∃ ids, e = .conflict ids := by
  have hpending := h.prepare hc
  obtain ⟨q, hq, hqe, -⟩ := h.bringIn_of_add_failure hw hc hcw ho he
  obtain ⟨-, -, p, hp, hending⟩ := hpending.bringIn_failed hq hqe
  rcases hending with hend | ⟨-, rfl, -⟩
  · rw [hpending.minimizeArtificial_ok hp] at hend
    cases hend
  · exact refusal_cases _ _ _

theorem Sound.remove_failure (h : s.Sound V vs)
    (hw : ∀ id r, s.record? id = some r → 0 ≤ r.constraint.weight) {o : Outcome Rat Unit}
    (ho : s.remove n id = some o) {e : Failure} (he : o.answer = .error e) :
    e = .unknownConstraint id := by
  rcases h.remove_cases ho with ⟨-, rfl⟩ | ⟨r, hr, ho⟩
  · exact (Except.error.inj he).symm
  · obtain ⟨-, hsound, herase, -⟩ := h.retract hr
    have hsettled := settle_answer ho hsound fun i q hq =>
      hw i q ((record?_erase_iff herase).1 hq).2
    rw [he] at hsettled
    cases hsettled

theorem Sound.updateStrength_failure (h : s.Sound V vs)
    (hw : ∀ id r, s.record? id = some r → 0 ≤ r.constraint.weight) {new : Strength Rat}
    (hnew : 0 ≤ new.weight) {o : Outcome Rat Unit} (ho : s.updateStrength n id new = some o)
    {e : Failure} (he : o.answer = .error e) : e = .unknownConstraint id := by
  rcases updateStrength_cases ho with ⟨-, rfl⟩ | ⟨log, rfl⟩ | ⟨r, hr, hreq, ho⟩
  · exact (Except.error.inj he).symm
  · cases he
  · have hsettled := settle_answer ho (h.reweigh hr hreq) fun i q hq => by
      rcases (record?_insert_iff rfl).1 hq with ⟨-, rfl⟩ | ⟨-, hq⟩
      · exact hnew
      · exact hw i q hq
    rw [he] at hsettled
    cases hsettled

/-- A repair that fails is told in the log and is no failure. -/
theorem updateConstant_answer {k : Rat} {o : Outcome Rat Unit}
    (ho : s.updateConstant n id k = some o) : o.answer = .ok () := by
  rcases updateConstant_cases ho with rfl | ⟨r, q, -, hq, rfl⟩
  · rfl
  · obtain ⟨p, -, -, hanswer, -⟩ := restore_cases hq
    exact hanswer

/-- Nothing is ever without a least value. After any requests, failed repairs among them, adding a
constraint fails only because it contradicts the others, removing one or changing its strength only
because it is not there, and nothing else fails; and a first phase, for whatever constraint, ends
well. -/
theorem never_unbounded (h : Reached (fun _ q _ => q.Graded) vs s) :
    (∀ n q o f, q.Within vs → q.Graded → s.perform n q = some o → o.answer = .error f →
      (∃ c, q = .add c ∧ (f = .unsatisfiable ∨ ∃ ids, f = .conflict ids)) ∨
        ∃ id, (q = .remove id ∨ ∃ new, q = .updateStrength id new) ∧ f = .unknownConstraint id) ∧
    ∀ n c p, (∀ v ∈ c.form.vars, v ∈ vs) →
      ((s.prepare c).1.beginFirstPhase (s.prepare c).2).tableau.minimizeArtificial n = some p →
        p.ending = .ok () := by
  obtain ⟨V, hsound⟩ := h.sound
  have hw := h.weight_nonneg fun _ _ _ hok => hok
  refine ⟨fun n q o f hq hgraded ho he => ?_, fun n c p hc hp => ?_⟩
  · cases q with
    | newVariable bounded =>
      cases ho
      cases he
    | add c =>
      obtain ⟨p, hp, rfl⟩ := Option.map_eq_some_iff.1 ho
      obtain ⟨w, hc⟩ := hgraded
      have hcw : 0 ≤ c.weight := by
        show 0 ≤ c.strength.weight
        rw [hc]
        exact Strength.ofWeight_nonneg w
      exact .inl ⟨c, rfl, hsound.add_failure hw hq hcw hp (error_of_map he)⟩
    | remove id =>
      obtain ⟨p, hp, rfl⟩ := Option.map_eq_some_iff.1 ho
      exact .inr ⟨id, .inl rfl, hsound.remove_failure hw hp (error_of_map he)⟩
    | updateConstant id k =>
      obtain ⟨p, hp, rfl⟩ := Option.map_eq_some_iff.1 ho
      have hok := error_of_map he
      rw [updateConstant_answer hp] at hok
      cases hok
    | updateStrength id new =>
      obtain ⟨p, hp, rfl⟩ := Option.map_eq_some_iff.1 ho
      obtain ⟨w, rfl⟩ := hgraded
      exact .inr ⟨id, .inr ⟨_, rfl⟩, hsound.updateStrength_failure hw
        (Strength.ofWeight_nonneg w) hp (error_of_map he)⟩
    | solve =>
      obtain ⟨p, hp, rfl⟩ := Option.map_eq_some_iff.1 ho
      have hok := error_of_map he
      rw [hsound.solve_ok hw hp] at hok
      cases hok
    | reset =>
      cases ho
      cases he
    | setAutoSolve b =>
      cases ho
      cases he
    | setExplainFailure b =>
      cases ho
      cases he
  · exact (hsound.prepare hc).minimizeArtificial_ok hp

/-- A width between 100 and 200 that would rather be 40. To have it 50 takes a first phase with an
exchange, which ends well although the width is then refused; and minimising cannot fail. -/
theorem never_unbounded_of_width :
    ∃ y o p, replay (fun _ q _ => q.isGraded) 9
      [.newVariable true, .add (.compare (.var ⟨0, .bounded⟩) .atLeast (.const 100)),
        .add (.compare (.var ⟨0, .bounded⟩) .atMost (.const 200)),
        .add ((Constraint.compare (.var ⟨0, .bounded⟩) .equal (.const 40)).withStrength .weak)]
      ([], new) = some y ∧
      ((y.2.prepare (.compare (.var ⟨0, .bounded⟩) .equal (.const 50))).1.beginFirstPhase
        (y.2.prepare (.compare (.var ⟨0, .bounded⟩) .equal (.const 50))).2
        ).tableau.minimizeArtificial 9 = some p ∧
      p.swaps ≠ [] ∧ p.ending = .ok () ∧
      y.2.perform 9 (.add (.compare (.var ⟨0, .bounded⟩) .equal (.const 50))) = some o ∧
      o.answer = .error (.conflict [⟨0⟩]) ∧
      ∀ n o' f, y.2.perform n .solve = some o' → o'.answer ≠ .error f := by
  have hrun : (replay (fun _ q _ => q.isGraded) 9
      [.newVariable true, .add (.compare (.var ⟨0, .bounded⟩) .atLeast (.const 100)),
        .add (.compare (.var ⟨0, .bounded⟩) .atMost (.const 200)),
        .add ((Constraint.compare (.var ⟨0, .bounded⟩) .equal (.const 40)).withStrength .weak)]
      ([], new)).any (fun y => decide (y.1 = [⟨0, .bounded⟩]) &&
        (((y.2.prepare (.compare (.var ⟨0, .bounded⟩) .equal (.const 50))).1.beginFirstPhase
          (y.2.prepare (.compare (.var ⟨0, .bounded⟩) .equal (.const 50))).2
          ).tableau.minimizeArtificial 9).any (fun p => decide (p.swaps ≠ [])) &&
        (y.2.perform 9 (.add (.compare (.var ⟨0, .bounded⟩) .equal (.const 50)))).any fun o =>
          decide (o.answer = .error (.conflict [⟨0⟩]))) = true := by
    decide +kernel
  obtain ⟨y, hy, hrest⟩ := (Option.any_eq_true _ _).1 hrun
  rw [Bool.and_eq_true, Bool.and_eq_true, decide_eq_true_eq] at hrest
  obtain ⟨⟨hvs, hpass⟩, hadd⟩ := hrest
  obtain ⟨p, hp, hswaps⟩ := (Option.any_eq_true _ _).1 hpass
  obtain ⟨o, ho, hanswer⟩ := (Option.any_eq_true _ _).1 hadd
  have hreached : Reached (fun _ q _ => q.Graded) y.1 y.2 :=
    Reached.replay (fun _ _ _ htest => Request.graded_of_isGraded htest) (.start {}) hy
  have hwithin : ∀ v ∈ (Constraint.compare (LinearForm.var (⟨0, .bounded⟩ : Variable)) .equal
      (.const (50 : Rat))).form.vars, v ∈ y.1 := by
    rw [hvs]
    decide +kernel
  obtain ⟨hfails, hphase⟩ := never_unbounded hreached
  refine ⟨y, o, p, hy, hp, of_decide_eq_true hswaps, hphase 9 _ p hwithin hp, ho,
    of_decide_eq_true hanswer, fun n o' f ho' hf => ?_⟩
  rcases hfails n .solve o' f trivial trivial ho' hf with
    ⟨c, hc, -⟩ | ⟨id, hid | ⟨new, hnew⟩, -⟩
  · cases hc
  · cases hid
  · cases hnew

end Solver

end SoftSimplex
