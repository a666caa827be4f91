import SoftSimplex.Proofs.Upkeep

/-!
# What the check can find

Of the violations that the check lists only one can occur: a restricted row that is negative, beyond
the tolerance, and does not wait for repair. All others are excluded by what every request keeps,
whatever the arithmetic. An edit of a consistent solver overlooks no row, so it leaves a consistent
solver if its repair ends well. If the repair fails, the queue is dropped with rows still negative.
-/

namespace SoftSimplex

open LinearForm

variable {α : Type} {V : Variable → Prop}

/-! ## The tableau -/

namespace Tableau

variable {t : Tableau α}

theorem Indexed.columnViolations_eq_nil (h : t.Indexed) {v : Variable} {col : Roster Variable}
    (hcol : t.columns.get? v = some col) : t.columnViolations v col = [] := by
  have hfull : col.isEmpty = false := by
    rw [Bool.eq_false_iff]
    intro hempty
    exact h.full v col hcol (List.map_eq_nil_iff.2 (List.isEmpty_iff.1 hempty))
  have hstray : (col.keys.filter fun b => !(t.row? b).any (·.contains v)) = [] := by
    rw [List.filter_eq_nil_iff]
    intro b hb
    obtain ⟨f, hf, hm⟩ := h.mem_column.1 (Columns.mem_rowsOf.2 ⟨col, hcol, hb⟩)
    simp [hf, contains_iff.2 hm]
  unfold columnViolations
  rw [hfull, hstray]
  rfl

variable [Scalar α]

/-- The row is restricted, below zero by more than the tolerance, and not queued. -/
def Neglected (t : Tableau α) (b : Variable) (row : LinearForm α) : Prop :=
  t.row? b = some row ∧ b.isRestricted = true ∧
    Scalar.lt row.constant (-Scalar.tolerance) = true ∧ b ∉ t.queue.keys

theorem WellFormed.mem_rowViolations (h : t.WellFormed) {b : Variable} {f : LinearForm α}
    (hf : t.row? b = some f) {x : Violation α} :
    x ∈ t.rowViolations b f ↔ x = .negativeRow b f ∧ t.Neglected b f := by
  have hself : f.contains b = false := by
    rw [Bool.eq_false_iff]
    intro hb
    rw [h.row_open hf (contains_iff.1 hb)] at hf
    cases hf
  have hmissing : (f.vars.filter fun v => !(t.column v).contains b) = [] := by
    rw [List.filter_eq_nil_iff]
    intro v hv
    simpa using h.indexed.mem_column.2 ⟨f, hf, hv⟩
  unfold rowViolations Neglected
  rw [hself, hmissing]
  have hqueue : t.queue.contains b = false ↔ b ∉ t.queue.keys := by
    rw [← Table.contains_iff, Bool.not_eq_true]
  by_cases hneg : (b.isRestricted && Scalar.lt f.constant (-Scalar.tolerance) &&
      !t.queue.contains b) = true
  · rw [if_pos hneg]
    simp only [Bool.and_eq_true, Bool.not_eq_true'] at hneg
    simp [hf, hneg.1.1, hneg.1.2, hqueue.1 hneg.2]
  · rw [if_neg hneg]
    simp only [Bool.and_eq_true, Bool.not_eq_true', hqueue] at hneg
    simp [hf]
    tauto

/-- The candidates are the profitable variables in the order of their numbers. -/
theorem Orderly.profitableVars_eq (hV : Numbered V) (h : t.Orderly V) :
    t.profitableVars = t.candidates.members := by
  set vs := (t.objective.terms.entries.filter fun e => e.1.mayEnter && Scalar.isNeg e.2).map
    Prod.fst with hvs
  have hmem : ∀ v, v ∈ vs ↔ v ∈ t.candidates.members := by
    intro v
    rw [h.scouted v, hvs]
    unfold profitable
    simp only [List.mem_map, List.mem_filter, Bool.and_eq_true, Option.any_eq_true]
    constructor
    · rintro ⟨e, ⟨he, hm, hneg⟩, rfl⟩
      exact ⟨hm, e.2, Table.get?_eq_some_iff.2 he, hneg⟩
    · rintro ⟨hm, c, hc, hneg⟩
      exact ⟨(v, c), ⟨Table.get?_eq_some_iff.1 hc, hm, hneg⟩, rfl⟩
  have hnodup : vs.Nodup :=
    t.objective.terms.nodup.sublist (List.filter_sublist.map Prod.fst)
  have hcandidates : t.candidates.members.Nodup :=
    t.candidates.sorted.imp fun hlt he => absurd (he ▸ hlt) (Nat.lt_irrefl _)
  have hperm : t.profitableVars.Perm t.candidates.members :=
    (List.mergeSort_perm _ _).trans ((List.perm_ext_iff_of_nodup hnodup hcandidates).2 hmem)
  have hsorted : t.profitableVars.Pairwise fun v w => decide (v.id ≤ w.id) = true := by
    apply List.pairwise_mergeSort
    · intro u v w huv hvw
      simp only [decide_eq_true_eq] at huv hvw ⊢
      omega
    · intro v w
      simp only [Bool.or_eq_true, decide_eq_true_eq]
      omega
  apply hperm.eq_of_pairwise _ hsorted (t.candidates.sorted.imp fun hlt => decide_eq_true hlt.le)
  intro v w hv hw hvw hwv
  have hin : ∀ {u}, u ∈ t.candidates.members → V u := h.within.candidates _
  apply hV v w (hin (hperm.subset hv)) (hin hw)
  simp only [decide_eq_true_eq] at hvw hwv
  omega

theorem Orderly.objectiveViolations_eq_nil (hV : Numbered V) (h : t.Orderly V) :
    t.objectiveViolations = [] := by
  have hbasic : t.objective.vars.filter t.isBasic = [] := by
    rw [List.filter_eq_nil_iff]
    intro v hv hb
    rw [isBasic_eq_false_iff.2 (h.wellFormed.objective_open hv)] at hb
    cases hb
  unfold objectiveViolations
  rw [hbasic, if_pos (h.profitableVars_eq hV)]
  rfl

theorem Orderly.mem_violations (hV : Numbered V) (h : t.Orderly V) {x : Violation α} :
    x ∈ t.violations ↔ ∃ b row, x = .negativeRow b row ∧ t.Neglected b row := by
  have hcolumns : t.columns.entries.flatMap (fun c => t.columnViolations c.1 c.2) = [] := by
    rw [List.flatMap_eq_nil_iff]
    intro c hc
    exact h.wellFormed.indexed.columnViolations_eq_nil (Table.get?_eq_some_iff.2 hc)
  unfold violations
  rw [hcolumns, h.objectiveViolations_eq_nil hV, List.append_nil, List.append_nil, List.mem_flatMap]
  constructor
  · rintro ⟨⟨b, f⟩, hbf, hx⟩
    exact ⟨b, f, (h.wellFormed.mem_rowViolations (Table.get?_eq_some_iff.2 hbf)).1 hx⟩
  · rintro ⟨b, f, hx, hneglected⟩
    exact ⟨(b, f), Table.get?_eq_some_iff.1 hneglected.1,
      (h.wellFormed.mem_rowViolations hneglected.1).2 ⟨hx, hneglected⟩⟩

end Tableau

/-! ## The solver -/

theorem Request.Within.mono {vs ws : List Variable} {q : Request α} (h : q.Within vs)
    (hsub : ∀ v ∈ vs, v ∈ ws) : q.Within ws := by
  cases q with
  | add c => exact fun v hv => hsub v (h v hv)
  | _ => trivial

instance (vs : List Variable) (q : Request α) : Decidable (q.Within vs) :=
  match q with
  | .add c => inferInstanceAs (Decidable (∀ v ∈ c.form.vars, v ∈ vs))
  | .newVariable _ | .remove _ | .updateConstant _ _ | .updateStrength _ _ | .solve | .reset
  | .setAutoSolve _ | .setExplainFailure _ => .isTrue trivial

namespace Solver

variable [Scalar α] {vs : List Variable} {s : Solver α}

/-- Each marker leads back to its constraint, and there are no others. -/
theorem Books.markers_perm (h : s.Books V vs) :
    s.markers.entries.Perm (s.records.entries.map fun e => (e.2.marker, e.1)) := by
  have hrecords : (s.records.entries.map fun e => (e.2.marker, e.1)).Nodup :=
    List.pairwise_map.2 <|
      List.Pairwise.of_map Prod.fst (fun _ _ hne he => hne (congrArg Prod.snd he)) s.records.nodup
  rw [List.perm_ext_iff_of_nodup s.markers.nodup_entries hrecords]
  rintro ⟨m, id⟩
  rw [← Table.get?_eq_some_iff, h.marked, List.mem_map]
  constructor
  · rintro ⟨r, hr, rfl⟩
    exact ⟨(id, r), Table.get?_eq_some_iff.1 hr, rfl⟩
  · rintro ⟨⟨i, r⟩, hr, he⟩
    cases he
    exact ⟨r, Table.get?_eq_some_iff.2 hr, rfl⟩

/-- The only violation that can occur is a row that is negative and not queued. -/
theorem Upheld.mem_violations (h : s.Upheld V vs) {x : Violation α} :
    x ∈ s.violations ↔ ∃ b row, x = .negativeRow b row ∧ s.tableau.Neglected b row := by
  have hastray : (s.records.entries.filter fun e => s.markers.get? e.2.marker != some e.1) = [] := by
    rw [List.filter_eq_nil_iff]
    intro e he
    have hmarked := h.books.marked.2 ⟨e.2, Table.get?_eq_some_iff.2 he, rfl⟩
    simp [hmarked]
  have hcount : s.markers.size = s.records.size := by
    have hlength := h.books.markers_perm.length_eq
    rw [List.length_map] at hlength
    exact hlength
  unfold violations
  rw [hastray, if_pos hcount, List.map_nil, List.append_nil, List.append_nil]
  exact h.orderly.mem_violations h.books.issued.numbered

/-- An edit of a consistent solver leaves a consistent one if its repair does not fail. -/
theorem Upheld.violations_of_repaired (hα : Scalar.Raises α)
    (hbelow : ∀ a : α, Scalar.lt a (-Scalar.tolerance) = true → Scalar.isNeg a = true)
    (h : s.Upheld V vs) (hok : s.violations = []) {n : Nat} {id : ConstraintId} {k : α}
    {o : Outcome α Unit} (ho : s.updateConstant n id k = some o) (hrep : o.Repaired) :
    o.solver.violations = [] := by
  rcases h.updateConstant_attends hα ho hrep with hsame | ⟨hattends, hqueue⟩
  · rw [hsame, hok]
  · rw [List.eq_nil_iff_forall_not_mem]
    intro x hx
    obtain ⟨b, row, -, hrow, hr, hlow, -⟩ := (h.updateConstant ho).mem_violations.1 hx
    -- the row was as negative before, and was not queued
    obtain ⟨hout, hbefore⟩ := hattends.of_queue_empty hqueue ⟨hr, row, hrow, hbelow _ hlow⟩
    have hmem := h.mem_violations.2 ⟨b, row, rfl, hbefore.symm.trans hrow, hr, hlow, hout⟩
    rw [hok] at hmem
    cases hmem

/-! ## Rationals with the tolerance of the doubles -/

theorem raises_coarse : Scalar.Raises Coarse :=
  Scalar.raises_rat

theorem isNeg_of_below_tolerance {a : Coarse} (h : Scalar.lt a (-Scalar.tolerance) = true) :
    Scalar.isNeg a = true := by
  have hlow : a.toRat < -Coarse.bound := (Scalar.lt_rat _ _).1 h
  have hneg : a.toRat < 0 := hlow.trans (by unfold Coarse.bound; norm_num)
  exact (Scalar.isNeg_rat a.toRat).2 hneg

/-- After an edit of a consistent solver the check finds nothing if the repair did not fail, and else
nothing but rows that are negative and no longer wait. -/
theorem violations_updateConstant {s : Solver Coarse}
    {allowed : Solver Coarse → Request Coarse → Outcome Coarse Reply → Prop}
    (h : Reached allowed vs s) (hok : s.violations = []) {n : Nat} {id : ConstraintId} {k : Coarse}
    {o : Outcome Coarse Unit} (ho : s.updateConstant n id k = some o) :
    (o.Repaired → o.solver.violations = []) ∧
    ∀ x, x ∈ o.solver.violations ↔
      ∃ b row, x = .negativeRow b row ∧ o.solver.tableau.Neglected b row := by
  obtain ⟨V, hs⟩ := h.upheld
  refine ⟨fun hrep => ?_, fun x => (hs.updateConstant ho).mem_violations⟩
  exact hs.violations_of_repaired raises_coarse (fun _ => isNeg_of_below_tolerance) hok ho hrep

/-- A client that goes on making requests about variables that it has. -/
theorem Reached.foldlM (h : Reached (fun _ _ _ => True) vs s) {n : Nat} {qs : List (Request α)}
    (hqs : ∀ q ∈ qs, q.Within vs) {s' : Solver α}
    (hs : qs.foldlM (fun s q => (s.perform n q).map Outcome.solver) s = some s') :
    ∃ ws, vs ⊆ ws ∧ Reached (fun _ _ _ => True) ws s' := by
  induction qs generalizing vs s with
  | nil =>
    cases hs
    exact ⟨vs, List.Subset.refl _, h⟩
  | cons q qs ih =>
    obtain ⟨hq, hqs⟩ := List.forall_mem_cons.1 hqs
    rw [List.foldlM_cons] at hs
    obtain ⟨t, ht, hs⟩ := Option.bind_eq_some_iff.1 hs
    obtain ⟨o, ho, rfl⟩ := Option.map_eq_some_iff.1 ht
    have hmore : vs ⊆ vs ++ Reply.clients o.answer := List.subset_append_left _ _
    obtain ⟨ws, hws, hend⟩ :=
      ih (h.step hq ho trivial) (fun p hp => (hqs p hp).mono fun v hv => hmore hv) hs
    exact ⟨ws, List.Subset.trans hmore hws, hend⟩

/-- A client that gets one variable. -/
theorem reached_newVariable :
    Reached (fun _ _ _ => True) [⟨0, .free⟩] (new.newVariable false : _ × Solver α).2 :=
  .step (n := 0) (r := .newVariable false) (.start {}) trivial rfl trivial

/-- A client that gets one variable and then makes requests about it. -/
theorem reached_of_foldlM {n : Nat} {qs : List (Request α)}
    (hqs : ∀ q ∈ qs, q.Within [⟨0, .free⟩])
    (hs : qs.foldlM (fun s q => (s.perform n q).map Outcome.solver) (new.newVariable false).2 =
      some s) : ∃ ws, Reached (fun _ _ _ => True) ws s := by
  obtain ⟨ws, -, h⟩ := reached_newVariable.foldlM hqs hs
  exact ⟨ws, h⟩

/-- A width between 60 and 200 that would rather be 100. To have it at most 80 takes a repair with an
exchange. -/
theorem violations_of_width :
    ∃ (vs : List Variable) (s : Solver Coarse) (o : Outcome Coarse Unit),
      Reached (fun _ _ _ => True) vs s ∧ s.violations = [] ∧
        s.updateConstant 9 ⟨1⟩ (Coarse.ofRat 80) = some o ∧ o.log.length = 2 ∧ o.Repaired ∧
        o.solver.violations = [] := by
  let x : LinearForm Coarse := .var ⟨0, .free⟩
  let wish : Constraint Coarse := (Constraint.compare x .equal (.const (.ofRat 100))).withStrength .weak
  let session : List (Request Coarse) :=
    [.add (.compare x .atLeast (.const (.ofRat 60))), .add (.compare x .atMost (.const (.ofRat 200))),
      .add wish, .solve]
  have hrun : (session.foldlM (fun (s : Solver Coarse) q => (s.perform 9 q).map Outcome.solver)
      (new.newVariable false).2).any (fun s => s.violations.isEmpty &&
        (s.updateConstant 9 ⟨1⟩ (Coarse.ofRat 80)).any fun o => decide (o.log.length = 2) &&
          o.log.all fun e => match e with
            | .constantUpdated .. | .swapped _ => true
            | _ => false) = true := by
    decide +kernel
  obtain ⟨s, hs, hrest⟩ := (Option.any_eq_true _ _).1 hrun
  rw [Bool.and_eq_true, List.isEmpty_iff] at hrest
  obtain ⟨hok, hrest⟩ := hrest
  obtain ⟨o, ho, hcheck⟩ := (Option.any_eq_true _ _).1 hrest
  rw [Bool.and_eq_true, decide_eq_true_eq] at hcheck
  have hrep : o.Repaired := by
    intro f hf
    have hno := List.all_eq_true.1 hcheck.2 _ hf
    cases hno
  have hwithin : ∀ q ∈ session, q.Within [⟨0, .free⟩] := by decide +kernel
  obtain ⟨ws, hreached⟩ := reached_of_foldlM hwithin hs
  exact ⟨_, s, o, hreached, hok, ho, hcheck.1, hrep, (violations_updateConstant hreached hok ho).1 hrep⟩

/-- A failed repair can leave a negative row that no longer waits, where nothing was wrong before: a
width of at least 100 and at most 200 is to be at most 50. -/
theorem row_abandoned :
    ∃ (vs : List Variable) (s : Solver Coarse) (o : Outcome Coarse Unit),
      Reached (fun _ _ _ => True) vs s ∧ s.violations = [] ∧
        s.updateConstant 9 ⟨1⟩ (Coarse.ofRat 50) = some o ∧ o.solver.violations ≠ [] := by
  let x : LinearForm Coarse := .var ⟨0, .free⟩
  let session : List (Request Coarse) :=
    [.add (.compare x .atLeast (.const (.ofRat 100))), .add (.compare x .atMost (.const (.ofRat 200)))]
  have hrun : (session.foldlM (fun (s : Solver Coarse) q => (s.perform 9 q).map Outcome.solver)
      (new.newVariable false).2).any (fun s => s.violations.isEmpty &&
        (s.updateConstant 9 ⟨1⟩ (Coarse.ofRat 50)).any fun o => !o.solver.violations.isEmpty) =
      true := by
    decide +kernel
  obtain ⟨s, hs, hrest⟩ := (Option.any_eq_true _ _).1 hrun
  rw [Bool.and_eq_true, List.isEmpty_iff] at hrest
  obtain ⟨hok, hrest⟩ := hrest
  obtain ⟨o, ho, hcheck⟩ := (Option.any_eq_true _ _).1 hrest
  rw [Bool.not_eq_true', ← Bool.not_eq_true, List.isEmpty_iff] at hcheck
  have hwithin : ∀ q ∈ session, q.Within [⟨0, .free⟩] := by decide +kernel
  obtain ⟨ws, hreached⟩ := reached_of_foldlM hwithin hs
  exact ⟨_, s, o, hreached, hok, ho, hcheck⟩

end Solver

end SoftSimplex
