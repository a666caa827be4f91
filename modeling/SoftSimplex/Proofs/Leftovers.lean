import SoftSimplex.Proofs.Rejection

/-!
# A removed constraint leaves nothing behind

Taking a constraint out drops the rows of its errors and one row for its marker, whichever of them
are basic at that moment, and erases no column. That nothing of them stays is seen from the
solutions: without its equation the rows say nothing about the marker and the errors of a
constraint, and a variable that may have any value occurs in no row of a well-formed tableau and,
once it costs nothing, in no objective.
-/

namespace SoftSimplex

namespace Tableau

variable {α : Type} {t : Tableau α} {v : Variable}

/-- Whether any part of the tableau has to do with `v`. -/
inductive Mentions (t : Tableau α) (v : Variable) : Prop where
  | basic : t.isBasic v = true → t.Mentions v
  | row {b : Variable} {f : LinearForm α} : t.row? b = some f → v ∈ f.vars → t.Mentions v
  | objective : v ∈ t.objective.vars → t.Mentions v
  | artificial {g : LinearForm α} : t.artificial = some g → v ∈ g.vars → t.Mentions v
  | indexed : v ∈ t.columns.keys → t.Mentions v
  | listed {w : Variable} : v ∈ t.column w → t.Mentions v
  | candidate : v ∈ t.candidates.members → t.Mentions v
  | queued : v ∈ t.queue.keys → t.Mentions v

variable {V : Variable → Prop} {t : Tableau Rat}

/-- What no row and no objective has to do with is nowhere else either. -/
theorem Tidy.not_mentions (h : t.Tidy V) (hv : t.Absent v) : ¬t.Mentions v := by
  obtain ⟨hbasic, hrows, hcolumn, hlisted, hobjective, hcandidate, hqueued⟩ := h.silent hv
  intro hm
  cases hm with
  | basic hb =>
    rw [isBasic_eq_false_iff.2 hbasic] at hb
    cases hb
  | row hf hm => exact hrows _ _ hf hm
  | objective hm => exact hobjective hm
  | artificial hg hm => exact hv.artificial hg hm
  | indexed hm => exact Table.get?_eq_none_iff.1 hcolumn hm
  | listed hm => exact hlisted _ hm
  | candidate hm => exact hcandidate hm
  | queued hm => exact hqueued hm

end Tableau

namespace Solver

variable {V W : Variable → Prop} {vs us : List Variable} {s s' : Solver Rat} {id : ConstraintId}
variable {r : Record Rat} {v : Variable}

/-- Whatever is about and is no client variable belongs to a record. -/
theorem Sound.owned_of_mentions (h : s.Sound V vs) (hv : v.isClient = false)
    (hm : s.tableau.Mentions v) : ∃ id r, s.record? id = some r ∧ v ∈ r.own := by
  by_contra hnone
  refine h.stands.tidy.not_mentions (h.absent (fun i q hq hown => hnone ⟨i, q, hq, hown⟩)
    fun i q hq hform => ?_) hm
  rw [(h.books.proper hq).clients v hform] at hv
  cases hv

/-- Once a record is struck out, nothing has to do with its own variables. -/
theorem Sound.not_mentions_of_erased (h : s.Sound V vs) (hr : s.record? id = some r)
    (hv : v ∈ r.own) (h' : s'.Sound W us) (herase : s'.records = s.records.erase id) :
    ¬s'.tableau.Mentions v := by
  intro hm
  obtain ⟨i, q, hq, hown⟩ := h'.owned_of_mentions ((h.books.proper hr).own_not_client hv) hm
  obtain ⟨hne, hq⟩ := (record?_erase_iff herase).1 hq
  exact hne (h.books.apart hq hr hown hv)

/-- Whatever a client asked for before, and whether or not rows are negative: an active constraint
can be taken out, and then its marker and its errors have no row, are in no row and in no objective,
have no column and are in none, are no candidates and do not wait for repair; minimising, where it
follows, does not bring them back. So at any moment a slack, error or dummy variable that is found
anywhere in the tableau is the marker or an error of an active constraint. -/
theorem removed_leaves_nothing
    {allowed : Solver Rat → Request Rat → Outcome Rat Reply → Prop} (h : Reached allowed vs s) :
    (∀ id r, s.record? id = some r → (s.retract id).answer = .ok () ∧
      ∀ v ∈ r.own, ¬(s.retract id).solver.tableau.Mentions v ∧
        ∀ n o, s.remove n id = some o → ¬o.solver.tableau.Mentions v) ∧
    ∀ v, v.isClient = false → s.tableau.Mentions v →
      ∃ id r, s.record? id = some r ∧ v ∈ r.own := by
  obtain ⟨V, hs⟩ := h.sound
  refine ⟨fun id r hr => ?_, fun v hv hm => hs.owned_of_mentions hv hm⟩
  obtain ⟨hanswer, hretract, herase, -⟩ := hs.retract hr
  refine ⟨hanswer, fun v hv => ⟨hs.not_mentions_of_erased hr hv hretract herase, ?_⟩⟩
  intro n o ho
  rcases hs.remove_cases ho with ⟨hnone, -⟩ | ⟨-, -, ho⟩
  · rw [hr] at hnone
    cases hnone
  · obtain ⟨hsettled, -, hrecords, -⟩ := settle_sound ho hretract
    exact hs.not_mentions_of_erased hr hv hsettled (hrecords.trans herase)

/-- A weak wish for 20 beside a strong one for 50. When the weak one goes its marker has a row, and
its other error is in that row, in a column and in the objective. -/
theorem removed_leaves_nothing_of_wish :
    ∃ y r o, replay (fun _ _ _ => true) 9
      [.newVariable false, .newVariable true, .setAutoSolve true,
        .add (.compare (.var ⟨0, .free⟩) .atLeast (.var ⟨1, .bounded⟩)),
        .add ((Constraint.compare (.var ⟨0, .free⟩) .equal (.const 20)).withStrength .weak),
        .add ((Constraint.compare (.var ⟨0, .free⟩) .equal (.const 50)).withStrength .strong)]
      ([], new) = some y ∧
      (y.2.record? ⟨1⟩ = some r ∧ r.marker = ⟨3, .error⟩ ∧ ⟨4, .error⟩ ∈ r.errors ∧
        y.2.tableau.isBasic ⟨3, .error⟩ = true ∧ y.2.tableau.column ⟨4, .error⟩ = [⟨3, .error⟩] ∧
        y.2.tableau.objective.coeff ⟨4, .error⟩ = 20 ∧ y.2.remove 9 ⟨1⟩ = some o) ∧
      (∀ v ∈ r.own, ¬o.solver.tableau.Mentions v) ∧
      (∀ id r, y.2.record? id = some r → (y.2.retract id).answer = .ok () ∧
        ∀ v ∈ r.own, ¬(y.2.retract id).solver.tableau.Mentions v ∧
          ∀ n o, y.2.remove n id = some o → ¬o.solver.tableau.Mentions v) ∧
      ∀ v, v.isClient = false → y.2.tableau.Mentions v →
        ∃ id r, y.2.record? id = some r ∧ v ∈ r.own := by
  have hrun : (replay (fun _ _ _ => true) 9
      [.newVariable false, .newVariable true, .setAutoSolve true,
        .add (.compare (.var ⟨0, .free⟩) .atLeast (.var ⟨1, .bounded⟩)),
        .add ((Constraint.compare (.var ⟨0, .free⟩) .equal (.const 20)).withStrength .weak),
        .add ((Constraint.compare (.var ⟨0, .free⟩) .equal (.const 50)).withStrength .strong)]
      ([], new)).any (fun y =>
      (y.2.record? ⟨1⟩).any (fun r => decide (r.marker = ⟨3, .error⟩) &&
        decide (⟨4, .error⟩ ∈ r.errors)) &&
      y.2.tableau.isBasic ⟨3, .error⟩ &&
      decide (y.2.tableau.column ⟨4, .error⟩ = [⟨3, .error⟩]) &&
      decide (y.2.tableau.objective.coeff ⟨4, .error⟩ = 20) &&
      (y.2.remove 9 ⟨1⟩).isSome) = true := by
    decide +kernel
  obtain ⟨y, hy, hcheck⟩ := (Option.any_eq_true _ _).1 hrun
  simp only [Bool.and_eq_true, decide_eq_true_eq, Option.any_eq_true] at hcheck
  obtain ⟨⟨⟨⟨⟨r, hr, hmarker, herror⟩, hbasic⟩, hcolumn⟩, hcost⟩, hremove⟩ := hcheck
  obtain ⟨o, ho⟩ := Option.isSome_iff_exists.1 hremove
  have hreached : Reached (fun _ _ _ => True) y.1 y.2 :=
    Reached.replay (fun _ _ _ _ => trivial) (.start {}) hy
  have hall := removed_leaves_nothing hreached
  exact ⟨y, r, o, hy, ⟨hr, hmarker, herror, hbasic, hcolumn, hcost, ho⟩,
    fun v hv => ((hall.1 _ r hr).2 v hv).2 9 o ho, hall⟩

end Solver

end SoftSimplex
