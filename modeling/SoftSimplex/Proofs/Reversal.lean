import SoftSimplex.Proofs.Rearrangement
import SoftSimplex.Proofs.Requests

/-!
# Taking an exchange back

An exchange leaves the solutions as they are, and the objectives on them. The opposite exchange
makes the same variables basic again, so what it leaves is the tableau as it was, up to order. All
that is asked of the tableau is that its forms and its index are in order; nothing is asked of the
queue, which no exchange looks at, or of the candidates.
-/

namespace SoftSimplex

open LinearForm

namespace Tableau

variable {α : Type} [Scalar α] {t t' : Tableau α}

/-- The index is exact, no basic variable occurs in a form, and no form stores a zero. -/
structure Coherent (t : Tableau α) : Prop where
  indexed : t.Indexed
  row_open : ∀ {b f v}, t.row? b = some f → v ∈ f.vars → t.row? v = none
  objective_open : ∀ {v}, v ∈ t.objective.vars → t.row? v = none
  artificial_open : ∀ {g v}, t.artificial = some g → v ∈ g.vars → t.row? v = none
  trim : t.Trim

theorem WellFormed.coherent (h : t.WellFormed) (ht : t.Trim) : t.Coherent :=
  ⟨h.indexed, h.row_open, h.objective_open, h.artificial_open, ht⟩

theorem Coherent.wellFormed_clearQueue (h : t.Coherent) : t.clearQueue.WellFormed :=
  ⟨⟨h.indexed.mirrors, h.indexed.full⟩, h.row_open, h.objective_open, h.artificial_open,
    fun hb => by cases hb⟩

theorem Coherent.trim_clearQueue (h : t.Coherent) : t.clearQueue.Trim :=
  ⟨h.trim.row, h.trim.objective, h.trim.artificial⟩

theorem Coherent.of_clearQueue (h : t.clearQueue.Coherent) : t.Coherent :=
  ⟨⟨h.indexed.mirrors, h.indexed.full⟩, h.row_open, h.objective_open, h.artificial_open,
    ⟨h.trim.row, h.trim.objective, h.trim.artificial⟩⟩

/-! ## No exchange looks at the queue -/

omit [Scalar α] in
theorem clearQueue_removeRow (t : Tableau α) (b : Variable) :
    (t.removeRow b).clearQueue = t.clearQueue.removeRow b := by
  have hrow : t.clearQueue.row? b = t.row? b := rfl
  unfold removeRow
  rw [hrow]
  cases t.row? b <;> rfl

theorem clearQueue_enqueue (t : Tableau α) (b : Variable) :
    (t.enqueue b).clearQueue = t.clearQueue := by
  unfold enqueue
  split <;> rfl

theorem clearQueue_substituteRow (v : Variable) (g : LinearForm α) (t : Tableau α)
    (b : Variable) :
    (substituteRow v g t b).clearQueue = (substituteRow v g t.clearQueue b).clearQueue := by
  have hrow : t.clearQueue.row? b = t.row? b := rfl
  unfold substituteRow
  rw [hrow]
  cases t.row? b with
  | none => rfl
  | some f =>
    simp only [clearQueue_enqueue]
    rfl

theorem clearQueue_foldl_substituteRow (v : Variable) (g : LinearForm α) (bs : List Variable)
    (t : Tableau α) :
    (bs.foldl (substituteRow v g) t).clearQueue =
      (bs.foldl (substituteRow v g) t.clearQueue).clearQueue := by
  induction bs generalizing t with
  | nil => rfl
  | cons b bs ih =>
    rw [List.foldl_cons, List.foldl_cons, ih, clearQueue_substituteRow, ← ih]

theorem clearQueue_refreshAll (t : Tableau α) (vs : List Variable) :
    (t.refreshAll vs).clearQueue = t.clearQueue.refreshAll vs := by
  induction vs generalizing t with
  | nil => rfl
  | cons v vs ih =>
    rw [refreshAll_cons, refreshAll_cons, ih]
    rfl

theorem clearQueue_substitute (t : Tableau α) (v : Variable) (g : LinearForm α) :
    (t.substitute v g).clearQueue = (t.clearQueue.substitute v g).clearQueue := by
  have hrows : (t.substituteRows v g).clearQueue =
      (t.clearQueue.substituteRows v g).clearQueue :=
    clearQueue_foldl_substituteRow v g (t.column v) _
  have hforms : (t.substituteForms v g).clearQueue =
      (t.clearQueue.substituteForms v g).clearQueue := by
    unfold substituteForms
    generalize t.substituteRows v g = u, t.clearQueue.substituteRows v g = u' at hrows
    have hobjective : u.objective = u'.objective := congrArg (·.objective) hrows
    have hartificial : u.artificial = u'.artificial := congrArg (·.artificial) hrows
    have hrest := congrArg (fun w : Tableau α => (w.rows, w.columns, w.candidates)) hrows
    simp only [clearQueue, Prod.mk.injEq] at hrest ⊢
    rw [hobjective, hartificial, hrest.1, hrest.2.1, hrest.2.2]
  rw [substitute_eq, substitute_eq, clearQueue_refreshAll, clearQueue_refreshAll, hforms]

/-- An exchange does the same whatever is queued, apart from what is queued then. -/
theorem exists_exchange_clearQueue {entry exit : Variable} (he : t.exchange entry exit = .ok t') :
    ∃ u, t.clearQueue.exchange entry exit = .ok u ∧ u.clearQueue = t'.clearQueue := by
  obtain ⟨row, hrow, hmem, rfl⟩ := exchange_eq_ok.1 he
  refine ⟨_, exchange_eq_ok.2 ⟨row, hrow, hmem, rfl⟩, ?_⟩
  have hinsert : ∀ (x : Tableau α) (f : LinearForm α),
      (x.insertRow entry f).clearQueue = x.clearQueue.insertRow entry f := fun _ _ => rfl
  rw [hinsert, hinsert, ← clearQueue_removeRow, ← clearQueue_substitute]

section Reversal

variable {t t' : Tableau Rat} {entry exit : Variable} {row : LinearForm Rat}

theorem Coherent.exchange (h : t.Coherent) (he : t.exchange entry exit = .ok t') :
    t'.Coherent := by
  obtain ⟨u, hu, hclear⟩ := exists_exchange_clearQueue he
  have hwell := h.wellFormed_clearQueue
  have hcoherent := (hwell.exchange hu).coherent (h.trim_clearQueue.exchange hwell.indexed hu)
  apply Coherent.of_clearQueue
  rw [← hclear]
  exact hcoherent.wellFormed_clearQueue.coherent hcoherent.trim_clearQueue

theorem Coherent.recast_exchange (h : t.Coherent) (he : t.exchange entry exit = .ok t') :
    t'.Recast t := by
  obtain ⟨u, hu, hclear⟩ := exists_exchange_clearQueue he
  have hforget : ∀ x : Tableau Rat, x.clearQueue.Recast x :=
    fun _ => Recast.of_frame (fun _ => rfl) rfl rfl
  have hrecall : ∀ x : Tableau Rat, x.Recast x.clearQueue :=
    fun _ => Recast.of_frame (fun _ => rfl) rfl rfl
  have hu' : t'.Recast u := (hrecall t').trans (hclear ▸ hforget u)
  exact (hu'.trans (h.wellFormed_clearQueue.recast_exchange h.trim_clearQueue hu)).trans
    (hforget t)

/-- The rows after an exchange. -/
theorem Coherent.row?_exchange (h : t.Coherent) (hrow : t.row? exit = some row)
    (he : t.exchange entry exit = .ok t') (c : Variable) :
    t'.row? c = if c = entry then some (row.exchange exit entry)
      else if c = exit then none
      else (t.row? c).map (·.substitute entry (row.exchange exit entry)) := by
  obtain ⟨u, hu, hclear⟩ := exists_exchange_clearQueue he
  show t'.clearQueue.row? c = _
  rw [← hclear]
  exact h.wellFormed_clearQueue.row?_exchange hrow hu c

/-- The variables that are basic after an exchange. -/
theorem Coherent.isBasic_exchange (h : t.Coherent) (he : t.exchange entry exit = .ok t')
    (c : Variable) :
    t'.isBasic c = true ↔ c = entry ∨ c ≠ exit ∧ t.isBasic c = true := by
  obtain ⟨row, hrow, -⟩ := exchange_eq_ok.1 he
  rw [isBasic_iff, isBasic_iff, h.row?_exchange hrow he]
  by_cases hentry : c = entry
  · simp [hentry]
  · by_cases hexit : c = exit
    · simp [hexit]
    · simp [hentry, hexit]

theorem Coherent.ne_of_mem (h : t.Coherent) (hrow : t.row? exit = some row)
    (hmem : entry ∈ row.vars) : entry ≠ exit := by
  rintro rfl
  rw [h.row_open hrow hmem] at hrow
  cases hrow

/-- The row that is exchanged mentions the old basic variable afterwards, with the reciprocal of a
coefficient that is not zero. -/
theorem Coherent.mem_vars_exchange (h : t.Coherent) (hrow : t.row? exit = some row)
    (hmem : entry ∈ row.vars) : exit ∈ (row.exchange exit entry).vars := by
  have hself : exit ∉ row.vars := fun hm => h.ne_of_mem hrow hm rfl
  apply mem_vars_of_coeff
  rw [coeff_exchange_old (h.ne_of_mem hrow hmem) hmem hself]
  exact one_div_ne_zero (h.trim.row hrow entry hmem)

theorem Coherent.isBasic_undone (h : t.Coherent) (hrow : t.row? exit = some row)
    (hmem : entry ∈ row.vars) {t'' : Tableau Rat} (he : t.exchange entry exit = .ok t')
    (he' : t'.exchange exit entry = .ok t'') (v : Variable) : t''.isBasic v = t.isBasic v := by
  rw [Bool.eq_iff_iff, (h.exchange he).isBasic_exchange he', h.isBasic_exchange he]
  by_cases hv : v = exit
  · simp [hv, isBasic_iff.2 ⟨row, hrow⟩]
  · by_cases hv' : v = entry
    · simp [hv', h.ne_of_mem hrow hmem, isBasic_eq_false_iff.2 (h.row_open hrow hmem)]
    · simp [hv, hv']

/-- A system and the variables that are basic determine a coherent tableau but for order. -/
theorem Coherent.rearranges (h : t.Coherent) (h' : t'.Coherent) (hr : t'.Recast t)
    (hb : ∀ v, t'.isBasic v = t.isBasic v) : t'.Rearranges t := by
  have hclear : t'.clearQueue.Recast t.clearQueue := ⟨hr.solves, hr.objective, hr.artificial⟩
  have hsame := h.wellFormed_clearQueue.rearranges h.trim_clearQueue h'.wellFormed_clearQueue
    h'.trim_clearQueue hclear hb
  exact ⟨hsame.row, hsame.column, hsame.objective, hsame.artificial⟩

/-- In a coherent tableau any basic variable may be exchanged for any variable of its row. That
leaves the solutions as they are, and both objectives on the solutions, and the opposite exchange is
possible and brings back every row, every column and both objectives, up to order. -/
theorem Coherent.exchange_undone (h : t.Coherent) (hrow : t.row? exit = some row)
    (hmem : entry ∈ row.vars) :
    ∃ t' t'', t.exchange entry exit = .ok t' ∧ t'.Recast t ∧
      t'.exchange exit entry = .ok t'' ∧ t''.Rearranges t := by
  obtain ⟨t', he⟩ := exchange_ok_of_mem hrow hmem
  have hback : t'.row? entry = some (row.exchange exit entry) := by
    rw [h.row?_exchange hrow he, if_pos rfl]
  obtain ⟨t'', he'⟩ := exchange_ok_of_mem hback (h.mem_vars_exchange hrow hmem)
  have hrecast : t''.Recast t := ((h.exchange he).recast_exchange he').trans (h.recast_exchange he)
  exact ⟨t', t'', he, h.recast_exchange he, he',
    h.rearranges ((h.exchange he).exchange he') hrecast (h.isBasic_undone hrow hmem he he')⟩

/-- A width of at most 50 and the first phase of a second constraint, which says at least 60. The
width and the slack of its bound change places and change back, in the rows of all three basic
variables and in the objective of the phase. -/
theorem exchange_undone_in_firstPhase :
    ∃ y t, Solver.replay (fun _ _ o => o.isRepaired) 9
        [.newVariable true, .newVariable false,
          .add (.compare (.var ⟨0, .bounded⟩) .atMost (.const 50)),
          .add ((Constraint.compare (.var ⟨1, .free⟩) .equal
            ((const 20).addScaled (.var ⟨0, .bounded⟩) 1)).withStrength .weak)]
        ([], .new) = some y ∧
      t = ((y.2.prepare (.compare (.var ⟨0, .bounded⟩) .atLeast (.const 60))).1.beginFirstPhase
        (y.2.prepare (.compare (.var ⟨0, .bounded⟩) .atLeast (.const 60))).2).tableau ∧
      t.column ⟨2, .slack⟩ = [⟨0, .bounded⟩, ⟨1, .free⟩, ⟨6, .slack⟩] ∧
      (∃ g, t.artificial = some g ∧ g.coeff ⟨2, .slack⟩ = 1) ∧
      ∃ t' t'', t.exchange ⟨2, .slack⟩ ⟨0, .bounded⟩ = .ok t' ∧ t'.Recast t ∧
        t'.exchange ⟨0, .bounded⟩ ⟨2, .slack⟩ = .ok t'' ∧ t''.Rearranges t := by
  have hrun : (Solver.replay (fun _ _ o => o.isRepaired) 9
      [.newVariable true, .newVariable false,
        .add (.compare (.var ⟨0, .bounded⟩) .atMost (.const 50)),
        .add ((Constraint.compare (.var ⟨1, .free⟩) .equal
          ((const 20).addScaled (.var ⟨0, .bounded⟩) 1)).withStrength .weak)]
      ([], .new)).any (fun y =>
        let t := ((y.2.prepare (.compare (.var ⟨0, .bounded⟩) .atLeast (.const 60))).1.beginFirstPhase
          (y.2.prepare (.compare (.var ⟨0, .bounded⟩) .atLeast (.const 60))).2).tableau
        decide (y.1 = [⟨0, .bounded⟩, ⟨1, .free⟩]) &&
        decide (t.column ⟨2, .slack⟩ = [⟨0, .bounded⟩, ⟨1, .free⟩, ⟨6, .slack⟩]) &&
        t.artificial.any (fun g => decide (g.coeff ⟨2, .slack⟩ = 1)) &&
        (t.row? ⟨0, .bounded⟩).any (·.contains ⟨2, .slack⟩)) = true := by
    decide +kernel
  obtain ⟨y, hy, hcheck⟩ := (Option.any_eq_true _ _).1 hrun
  simp only [Bool.and_eq_true, decide_eq_true_eq, Option.any_eq_true] at hcheck
  obtain ⟨⟨⟨hvs, hcolumn⟩, hart⟩, row, hrow, hmem⟩ := hcheck
  have hreached : Solver.Reached (fun _ _ o => o.Repaired) y.1 y.2 :=
    Solver.Reached.replay (fun _ _ _ htest => Outcome.repaired_of_isRepaired htest) (.start {}) hy
  obtain ⟨V, hsound⟩ := hreached.sound
  have hwithin : ∀ v ∈ (Constraint.compare (LinearForm.var (⟨0, .bounded⟩ : Variable)) .atLeast
      (.const (60 : Rat))).form.vars, v ∈ y.1 := by
    rw [hvs]
    decide +kernel
  obtain ⟨htidy, -⟩ := (hsound.prepare hwithin).beginFirstPhase
  exact ⟨y, _, hy, rfl, hcolumn, hart,
    (htidy.wellFormed.coherent htidy.trim).exchange_undone hrow (contains_iff.1 hmem)⟩

end Reversal

end Tableau

end SoftSimplex
