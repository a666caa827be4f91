import SoftSimplex.Proofs.Upkeep

/-!
# Preferences need no first phase

A constraint that may be missed brings in two variables, one for each side on which it can be
missed. No row mentions them yet, and in the equation one of the two has the coefficient -1,
whichever sign the equation was given. So there is always a variable to solve for. All that is asked
of the arithmetic is that -1 is negative and that 1 and -1 are what they should be.
-/

namespace SoftSimplex

open LinearForm

variable {α : Type} [Scalar α]

/-- A constraint that may be missed brings in its marker, taken away, and an error, put on top. -/
theorem Auxiliaries.Fits.terms_of_soft {i : Bool} {a : Auxiliaries} (h : a.Fits i false) :
    a.marker.isPivotable = true ∧ ∃ e ∈ a.own, e ≠ a.marker ∧ e.isPivotable = true ∧
      (a.terms : List (Variable × α)) = [(a.marker, -1), (e, 1)] := by
  unfold Variable.isPivotable Auxiliaries.terms Auxiliaries.own
  obtain ⟨hreq, -⟩ | ⟨-, e, hne, hrole, ⟨-, hm, he⟩ | ⟨-, hm, he⟩⟩ := h.shape
  · cases hreq
  · exact ⟨by simp [hm], e, by simp [he], hne, by simp [hrole], by simp [he, hne]⟩
  · exact ⟨by simp [hm], e, by simp [he], hne, by simp [hrole], by simp [he, hne]⟩

namespace Solver

variable {V : Variable → Prop} {vs : List Variable} {s : Solver α} {n : Nat}

/-- Where no row mentions it, a slack or error variable of negative coefficient suits. -/
theorem exists_subject {f : LinearForm α} {v : Variable} {k : α} (hget : f.terms.get? v = some k)
    (hp : v.isPivotable = true) (hk : Scalar.isNeg k = true) (hv : s.tableau.column v = []) :
    ∃ u, s.subject? f = some u := by
  have hsuits : s.suitsOwn f (v, k) = true := by
    unfold suitsOwn admits
    simp [hp, hk, hv]
  have hfound : (f.terms.entries.find? (s.suitsOwn f)).isSome = true :=
    List.find?_isSome.2 ⟨(v, k), Table.get?_eq_some_iff.1 hget, hsuits⟩
  apply Option.isSome_iff_exists.1
  unfold subject?
  rw [Option.isSome_map, Option.isSome_or, Option.isSome_or, hfound, Bool.or_true, Bool.or_true]

/-- Whichever sign the equation of a preference gets, one of its new variables has coefficient
-1. -/
theorem Upheld.exists_falling (h : s.Upheld V vs) (hmul : (1 : α) * -1 = -1)
    (hone : Scalar.negligible (1 : α) = false) (hminus : Scalar.negligible (-1 : α) = false)
    {c : Constraint α} (hc : ∀ v ∈ c.form.vars, v ∈ vs) (hsoft : c.isRequired = false) :
    ∃ v ∈ (Auxiliaries.draw s.supply c).1.own, v.isPivotable = true ∧
      (s.prepare c).2.terms.get? v = some (-1) := by
  obtain ⟨-, hnew⟩ := h.books.issued.draw c
  have hfits := Auxiliaries.draw_fits s.supply c
  rw [hsoft] at hfits
  set a := (Auxiliaries.draw s.supply c).1 with ha
  obtain ⟨hmp, e, he, hne, hep, hterms⟩ := hfits.terms_of_soft (α := α)
  have hfresh : ∀ v ∈ a.own, v ∉ (s.reduce c.form).vars := fun v hv hm =>
    hnew v hv (vars_reduce h.orderly (fun w hw => (h.books.clients w (hc w hw)).1) v hm).1
  set f := (s.reduce c.form).addTerms a.terms with hf
  have hmarker : f.terms.get? a.marker = some (-1) := by
    rw [hf, hterms]
    show ((_ : LinearForm α).addTerm e 1).terms.get? a.marker = _
    rw [get?_addTerm_of_ne _ hne.symm]
    exact get?_addTerm_of_not_mem (hfresh _ List.mem_cons_self) hminus
  have herror : f.terms.get? e = some 1 := by
    rw [hf, hterms]
    apply get?_addTerm_of_not_mem _ hone
    rw [mem_vars_addTerm_of_ne hne]
    exact hfresh e he
  have hequation : (s.prepare c).2 = if Scalar.isNeg f.constant then f.negate else f := rfl
  rw [hequation]
  -- negated, it is the other of the two whose coefficient is -1
  split
  · refine ⟨e, he, hep, ?_⟩
    rw [negate, get?_scale, herror, Option.map_some, hmul]
  · exact ⟨a.marker, List.mem_cons_self, hmp, hmarker⟩

/-- No row mentions a variable that was drawn for a constraint. -/
theorem Upheld.column_own (h : s.Upheld V vs) {c : Constraint α}
    (hc : ∀ v ∈ c.form.vars, v ∈ vs) {v : Variable}
    (hv : v ∈ (Auxiliaries.draw s.supply c).1.own) : (s.prepare c).1.tableau.column v = [] := by
  obtain ⟨-, hnew⟩ := h.books.issued.draw c
  obtain ⟨hprepared, -⟩ := h.prepare hc
  apply List.eq_nil_iff_forall_not_mem.2
  intro b hb
  obtain ⟨f, hf, hm⟩ := hprepared.orderly.wellFormed.indexed.mem_column.1 hb
  have hrow : (s.prepare c).1.tableau.row? b = s.tableau.row? b := row?_addCosts _ _ _ _
  exact (h.orderly.within.absent (hnew v hv)).rows (hrow ▸ hf) hm

/-- After any requests, failed ones among them, and in any arithmetic in which -1 is negative and
neither 1 nor -1 negligible: a constraint that may be missed always has a variable to solve it for.
Adding it needs no first phase and fails only if minimising afterwards does, which has to have been
asked for; in any case it is in the books. -/
theorem preference_added {allowed : Solver α → Request α → Outcome α Reply → Prop}
    (h : Reached allowed vs s) (hneg : Scalar.isNeg (-1 : α) = true) (hmul : (1 : α) * -1 = -1)
    (hone : Scalar.negligible (1 : α) = false) (hminus : Scalar.negligible (-1 : α) = false)
    {c : Constraint α} (hc : ∀ v ∈ c.form.vars, v ∈ vs) (hsoft : c.isRequired = false) :
    ∃ v, (s.prepare c).1.subject? (s.prepare c).2 = some v ∧
      (∀ n, s.add n c = Outcome.settle n ⟨(s.prepare c).1.insertSolved v (s.prepare c).2,
        [.adding ⟨s.nextId⟩ c.relation], .ok ⟨s.nextId⟩⟩) ∧
      ∀ n o, s.add n c = some o →
        (o.answer = .ok ⟨s.nextId⟩ ∨
          s.settings.autoSolve = true ∧ o.answer = .error .unbounded) ∧
        o.solver.record? ⟨s.nextId⟩ = some ⟨(Auxiliaries.draw s.supply c).1, c⟩ := by
  obtain ⟨V, hs⟩ := h.upheld
  obtain ⟨v, hv, hp, hget⟩ := hs.exists_falling hmul hone hminus hc hsoft
  obtain ⟨u, hu⟩ := exists_subject hget hp hneg (hs.column_own hc hv)
  have hadd : ∀ n, s.add n c = Outcome.settle n ⟨(s.prepare c).1.insertSolved u (s.prepare c).2,
      [.adding ⟨s.nextId⟩ c.relation], .ok ⟨s.nextId⟩⟩ := by
    intro n
    unfold add bringIn
    simp only [hu]
    rfl
  obtain ⟨hprepared, hvars⟩ := hs.prepare hc
  refine ⟨u, hu, hadd, fun n o ho => ?_⟩
  rw [hadd] at ho
  constructor
  · exact Upheld.settle_answer (hprepared.insertSolved hvars hu) ho
  · obtain ⟨t, ht⟩ := solver_of_settle ho
    rw [ht]
    exact record?_prepare s c

/-- A width of at least 100 that would rather be at most 50. The equation is negated, so the error
and not the slack is solved for. -/
theorem preference_added_of_width :
    ∃ y v o, replay (fun _ _ _ => true) 9
      [.newVariable false, .add (.compare (.var ⟨0, .free⟩) .atLeast (.const 100)),
        .setAutoSolve true] ([], new) = some y ∧
      let c := (Constraint.compare (var ⟨0, .free⟩) .atMost (.const (50 : Rat))).withStrength .weak
      ((∀ v ∈ c.form.vars, v ∈ y.1) ∧ c.isRequired = false ∧ y.2.add 9 c = some o ∧
        v = ⟨3, .error⟩ ∧ o.answer = .ok ⟨1⟩) ∧
      (y.2.prepare c).1.subject? (y.2.prepare c).2 = some v ∧
      (∀ n, y.2.add n c = Outcome.settle n ⟨(y.2.prepare c).1.insertSolved v (y.2.prepare c).2,
        [.adding ⟨y.2.nextId⟩ c.relation], .ok ⟨y.2.nextId⟩⟩) ∧
      (o.answer = .ok ⟨y.2.nextId⟩ ∨
        y.2.settings.autoSolve = true ∧ o.answer = .error .unbounded) ∧
      o.solver.record? ⟨y.2.nextId⟩ = some ⟨(Auxiliaries.draw y.2.supply c).1, c⟩ := by
  let c := (Constraint.compare (var ⟨0, .free⟩) .atMost (.const (50 : Rat))).withStrength .weak
  have hrun : (replay (fun _ _ _ => true) 9
      [.newVariable false, .add (.compare (.var ⟨0, .free⟩) .atLeast (.const 100)),
        .setAutoSolve true] ([], new)).any (fun y =>
      (Request.add c).isWithin y.1 &&
        decide ((y.2.prepare c).1.subject? (y.2.prepare c).2 = some ⟨3, .error⟩) &&
        (y.2.add 9 c).any fun o => decide (o.answer = .ok ⟨1⟩)) = true := by
    decide +kernel
  obtain ⟨y, hy, hcheck⟩ := (Option.any_eq_true _ _).1 hrun
  rw [Bool.and_eq_true, Bool.and_eq_true, decide_eq_true_eq] at hcheck
  obtain ⟨⟨hwithin, hsubject⟩, hcheck⟩ := hcheck
  obtain ⟨o, ho, hanswer⟩ := (Option.any_eq_true _ _).1 hcheck
  have hreached : Reached (fun _ _ _ => True) y.1 y.2 :=
    Reached.replay (fun _ _ _ _ => trivial) (.start {}) hy
  have hsoft : c.isRequired = false := by decide +kernel
  have hc : ∀ v ∈ c.form.vars, v ∈ y.1 := Request.within_of_isWithin (q := .add c) hwithin
  obtain ⟨v, hv, hadd, hafter⟩ := preference_added hreached (by decide +kernel) (by decide +kernel)
    (by decide +kernel) (by decide +kernel) hc hsoft
  have herror : v = ⟨3, .error⟩ := Option.some.inj (hv.symm.trans hsubject)
  exact ⟨y, v, o, hy, ⟨hc, hsoft, ho, herror, of_decide_eq_true hanswer⟩, hv, hadd, hafter 9 o ho⟩

end Solver

end SoftSimplex
