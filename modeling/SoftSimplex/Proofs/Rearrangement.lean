import SoftSimplex.Proofs.Recast

/-!
# The same tableau but for order

Tables keep the order in which things arrived, and nothing that a tableau means depends on it. A
system of equations and the variables that are basic determine the tableau up to that order: a row
is what its basic variable equals in the other ones, and those may have any values.
-/

namespace SoftSimplex

structure LinearForm.Rearranges {α : Type} (f g : LinearForm α) : Prop where
  constant : f.constant = g.constant
  terms : f.terms.entries.Perm g.terms.entries

/-- The same rows, columns and objectives but for order. -/
structure Tableau.Rearranges {α : Type} (t' t : Tableau α) : Prop where
  row : ∀ b, Option.Rel LinearForm.Rearranges (t'.row? b) (t.row? b)
  column : ∀ v, Option.Rel (fun col' col => col'.keys.Perm col.keys)
    (t'.columns.get? v) (t.columns.get? v)
  objective : t'.objective.Rearranges t.objective
  artificial : Option.Rel LinearForm.Rearranges t'.artificial t.artificial

namespace LinearForm

variable {f g : LinearForm Rat}

theorem Rearranges.mem_vars_iff {α : Type} {f g : LinearForm α} (h : f.Rearranges g)
    {v : Variable} : v ∈ f.vars ↔ v ∈ g.vars :=
  (h.terms.map Prod.fst).mem_iff

theorem Rearranges.coeff {α : Type} [Scalar α] {f g : LinearForm α} (h : f.Rearranges g)
    (v : Variable) : f.coeff v = g.coeff v := by
  rw [coeff_eq, coeff_eq, Table.get?_eq_of_perm h.terms]

/-- What does not depend on order holds of both forms, if there are any. -/
theorem exists_iff_of_rearranges {α : Type} {x y : Option (LinearForm α)}
    (h : Option.Rel Rearranges x y) {P : LinearForm α → Prop}
    (hP : ∀ f g, f.Rearranges g → (P f ↔ P g)) :
    (∃ f, x = some f ∧ P f) ↔ ∃ g, y = some g ∧ P g := by
  cases h with
  | none => rfl
  | some hfg => simp [hP _ _ hfg]

/-- Forms without zero coefficients that have the same values differ in order only. -/
theorem rearranges_of_eval (hf : f.Trim) (hg : g.Trim) (h : ∀ σ, f.eval σ = g.eval σ) :
    f.Rearranges g := by
  have hcoeff : ∀ v, f.coeff v = g.coeff v := fun v => by
    rw [coeff_eq_eval, coeff_eq_eval, h, h]
  refine ⟨?_, Table.perm_of_get?_eq fun v => ?_⟩
  · rw [← eval_at_zero, ← eval_at_zero, h]
  · have hmem : v ∈ f.vars ↔ v ∈ g.vars := by rw [hf.mem_iff, hg.mem_iff, hcoeff]
    by_cases hv : v ∈ f.vars
    · rw [get?_of_mem hv, get?_of_mem (hmem.1 hv), hcoeff]
    · rw [Table.get?_eq_none_iff.2 hv, Table.get?_eq_none_iff.2 (mt hmem.2 hv)]

end LinearForm

namespace Tableau

section Columns

variable {α : Type} {t t' : Tableau α}

/-- The rows determine the columns. -/
theorem Indexed.column_rearranges (ht' : t'.Indexed) (ht : t.Indexed)
    (h : ∀ b, Option.Rel LinearForm.Rearranges (t'.row? b) (t.row? b)) (v : Variable) :
    Option.Rel (fun col' col => col'.keys.Perm col.keys) (t'.columns.get? v)
      (t.columns.get? v) := by
  have hsame : ∀ b, b ∈ t'.column v ↔ b ∈ t.column v := by
    intro b
    rw [ht'.mem_column, ht.mem_column]
    exact LinearForm.exists_iff_of_rearranges (h b) fun _ _ hfg => hfg.mem_vars_iff
  unfold column Columns.rowsOf at hsame
  cases hcol' : t'.columns.get? v with
  | none =>
    cases hcol : t.columns.get? v with
    | none => exact .none
    | some col =>
      obtain ⟨b, hb⟩ := List.exists_mem_of_ne_nil _ (ht.full v col hcol)
      rw [hcol', hcol] at hsame
      cases (hsame b).2 hb
  | some col' =>
    cases hcol : t.columns.get? v with
    | none =>
      obtain ⟨b, hb⟩ := List.exists_mem_of_ne_nil _ (ht'.full v col' hcol')
      rw [hcol', hcol] at hsame
      cases (hsame b).1 hb
    | some col =>
      rw [hcol', hcol] at hsame
      exact .some ((List.perm_ext_iff_of_nodup col'.nodup col.nodup).2 hsame)

theorem Rearranges.refl (t : Tableau α) : t.Rearranges t where
  row b := by
    cases t.row? b with
    | none => exact .none
    | some f => exact .some ⟨rfl, .rfl⟩
  column v := by
    cases t.columns.get? v with
    | none => exact .none
    | some col => exact .some .rfl
  objective := ⟨rfl, .rfl⟩
  artificial := by
    cases t.artificial with
    | none => exact .none
    | some g => exact .some ⟨rfl, .rfl⟩

theorem Rearranges.isBasic (h : t'.Rearranges t) (b : Variable) : t'.isBasic b = t.isBasic b := by
  have hrow := LinearForm.exists_iff_of_rearranges (h.row b) (P := fun _ => True)
    fun _ _ _ => Iff.rfl
  rw [Bool.eq_iff_iff, isBasic_iff, isBasic_iff]
  simpa using hrow

theorem Rearranges.mem_column (h : t'.Rearranges t) {v b : Variable} :
    b ∈ t'.column v ↔ b ∈ t.column v := by
  have hcol := h.column v
  unfold Tableau.column Columns.rowsOf
  generalize t'.columns.get? v = x, t.columns.get? v = y at hcol
  cases hcol with
  | none => rfl
  | some hperm => exact hperm.mem_iff

end Columns

variable {t t' : Tableau Rat}

/-- Forms in nonbasic variables that agree on the solutions differ in order only. -/
theorem WellFormed.form_rearranges (h : t.WellFormed) {f g : LinearForm Rat} (hf : f.Trim)
    (hg : g.Trim) (hfo : ∀ v ∈ f.vars, t.row? v = none) (hgo : ∀ v ∈ g.vars, t.row? v = none)
    (hfg : ∀ σ, t.Solves σ → f.eval σ = g.eval σ) : f.Rearranges g :=
  LinearForm.rearranges_of_eval hf hg (h.eval_eq_of_solutions hfo hgo hfg)

/-- A system and the variables that are basic determine the tableau but for order. -/
theorem WellFormed.rearranges (h : t.WellFormed) (ht : t.Trim) (h' : t'.WellFormed)
    (ht' : t'.Trim) (hr : t'.Recast t) (hb : ∀ v, t'.isBasic v = t.isBasic v) :
    t'.Rearranges t := by
  have hopen : ∀ {v}, t'.row? v = none → t.row? v = none := by
    intro v hv
    rwa [← isBasic_eq_false_iff, ← hb, isBasic_eq_false_iff]
  have hrow : ∀ b, Option.Rel LinearForm.Rearranges (t'.row? b) (t.row? b) := by
    intro b
    have hbasic := hb b
    cases hf : t'.row? b with
    | none =>
      rw [hopen hf]
      exact .none
    | some f =>
      rw [isBasic_iff.2 ⟨f, hf⟩] at hbasic
      obtain ⟨g, hg⟩ := isBasic_iff.1 hbasic.symm
      rw [hg]
      refine .some (h.form_rearranges (ht'.row hf) (ht.row hg)
        (fun v hv => hopen (h'.row_open hf hv)) (fun v hv => h.row_open hg hv) fun σ hσ => ?_)
      rw [← ((hr.solves σ).2 hσ).row hf, ← hσ.row hg]
  refine ⟨hrow, h'.indexed.column_rearranges h.indexed hrow, ?_, ?_⟩
  · exact h.form_rearranges ht'.objective ht.objective
      (fun v hv => hopen (h'.objective_open hv)) (fun v hv => h.objective_open hv) hr.objective
  · have hvalue := hr.artificial
    -- that there is a first phase at all is read off at one solution
    have hpoint := hvalue _ h.solves_point
    cases hf : t'.artificial with
    | none =>
      rw [hf, Option.map_none, eq_comm, Option.map_eq_none_iff] at hpoint
      rw [hpoint]
      exact .none
    | some f =>
      rw [hf, Option.map_some, eq_comm, Option.map_eq_some_iff] at hpoint
      obtain ⟨g, hg, -⟩ := hpoint
      rw [hf, hg] at hvalue
      rw [hg]
      exact .some (h.form_rearranges (ht'.artificial hf) (ht.artificial hg)
        (fun v hv => hopen (h'.artificial_open hf hv)) (fun v hv => h.artificial_open hg hv)
        fun σ hσ => Option.some.inj (hvalue σ hσ))

end Tableau

end SoftSimplex
