import Mathlib.Logic.Function.Basic
import SoftSimplex.Proofs.FormValue
import SoftSimplex.Proofs.Trim
import SoftSimplex.Proofs.WellFormed

/-!
# The solutions of a tableau

What an operation does to the rows is said through the assignments that solve them. An exchange
keeps the solutions; inserting a row adds an equation; dropping the row of a basic variable
forgets that variable; erasing a column puts the variable to zero. A well-formed tableau has a
solution for every choice of its nonbasic variables.
-/

namespace SoftSimplex

open LinearForm

namespace Tableau

variable {t t' : Tableau Rat} {σ : Assignment Rat}

theorem solves_iff : t.Solves σ ↔ ∀ b f, t.row? b = some f → σ b = f.eval σ := by
  unfold Solves
  simp only [Scalar.eq_rat]
  constructor
  · intro h b f hf
    exact h (b, f) (mem_rows_iff.2 hf)
  · rintro h ⟨b, f⟩ hr
    exact h b f (mem_rows_iff.1 hr)

theorem Solves.row (h : t.Solves σ) {b : Variable} {f : LinearForm Rat}
    (hf : t.row? b = some f) : σ b = f.eval σ :=
  solves_iff.1 h b f hf

theorem solves_congr (h : ∀ b, t'.row? b = t.row? b) : t'.Solves σ ↔ t.Solves σ := by
  simp only [solves_iff, h]

theorem solves_empty : (∅ : Tableau Rat).Solves σ := by
  rw [solves_iff]
  intro b f hf
  cases hf

/-! ## Changing one value -/

theorem eval_update (f : LinearForm Rat) (v : Variable) (k : Rat) :
    f.eval (Function.update σ v k) = f.eval σ + f.coeff v * (k - σ v) := by
  have h : (f.erase v).eval (Function.update σ v k) = (f.erase v).eval σ :=
    eval_congr _ _ fun w hw => Function.update_of_ne (mem_vars_erase.1 hw).1 k σ
  rw [eval_erase, eval_erase, Function.update_self] at h
  linarith

theorem eval_update_of_not_mem {f : LinearForm Rat} {v : Variable} (h : v ∉ f.vars) (k : Rat) :
    f.eval (Function.update σ v k) = f.eval σ := by
  rw [eval_update, coeff_of_not_mem h]
  ring

/-- A variable that no row has to do with may have any value. -/
theorem solves_update_iff {v : Variable} (hv : t.row? v = none)
    (hrows : ∀ {b f}, t.row? b = some f → v ∉ f.vars) (k : Rat) :
    t.Solves (Function.update σ v k) ↔ t.Solves σ := by
  rw [solves_iff, solves_iff]
  apply forall_congr'
  intro b
  apply forall_congr'
  intro f
  apply imp_congr_right
  intro hf
  have hne : b ≠ v := by
    rintro rfl
    rw [hv] at hf
    cases hf
  rw [Function.update_of_ne hne, eval_update_of_not_mem (hrows hf)]

theorem Absent.solves_update_iff {v : Variable} (h : t.Absent v) (k : Rat) :
    t.Solves (Function.update σ v k) ↔ t.Solves σ :=
  Tableau.solves_update_iff h.nonbasic h.rows k

/-! ## Rows -/

theorem solves_insertRow {b : Variable} {f : LinearForm Rat} (hb : t.row? b = none) :
    (t.insertRow b f).Solves σ ↔ t.Solves σ ∧ σ b = f.eval σ := by
  rw [solves_iff, solves_iff]
  constructor
  · intro h
    refine ⟨fun c g hg => h c g ?_, h b f (by rw [row?_insertRow, if_pos rfl])⟩
    have hne : c ≠ b := by
      rintro rfl
      rw [hb] at hg
      cases hg
    rw [row?_insertRow, if_neg hne, hg]
  · rintro ⟨h, hf⟩ c g hg
    rw [row?_insertRow] at hg
    split at hg
    · next hc =>
      cases hg
      exact hc ▸ hf
    · exact h c g hg

theorem solves_iff_removeRow {b : Variable} {f : LinearForm Rat} (hb : t.row? b = some f) :
    t.Solves σ ↔ (t.removeRow b).Solves σ ∧ σ b = f.eval σ := by
  rw [solves_iff, solves_iff]
  constructor
  · intro h
    exact ⟨fun c g hg => h c g (row?_of_removeRow hg).2, h b f hb⟩
  · rintro ⟨h, hf⟩ c g hg
    by_cases hc : c = b
    · subst hc
      rw [hb] at hg
      cases hg
      exact hf
    · exact h c g (by rw [row?_removeRow, if_neg hc, hg])

/-- Without its row a basic variable is forgotten: what is left holds for some value of it. -/
theorem WellFormed.solves_removeRow (h : t.WellFormed) {b : Variable} {f : LinearForm Rat}
    (hb : t.row? b = some f) :
    (t.removeRow b).Solves σ ↔ ∃ k, t.Solves (Function.update σ b k) := by
  have habs := h.absent_removeRow hb
  have hself : b ∉ f.vars := by
    intro hm
    rw [h.row_open hb hm] at hb
    cases hb
  constructor
  · intro hs
    refine ⟨f.eval σ, (solves_iff_removeRow hb).2 ⟨(habs.solves_update_iff _).2 hs, ?_⟩⟩
    rw [Function.update_self, eval_update_of_not_mem hself]
  · rintro ⟨k, hk⟩
    exact (habs.solves_update_iff k).1 ((solves_iff_removeRow hb).1 hk).1

theorem Indexed.solves_substitute (h : t.Indexed) {v : Variable} {g : LinearForm Rat}
    (hv : σ v = g.eval σ) : (t.substitute v g).Solves σ ↔ t.Solves σ := by
  rw [solves_iff, solves_iff]
  constructor
  · intro hs b f hf
    rw [hs b (f.substitute v g) (by rw [h.row?_substitute, hf]; rfl), eval_substitute σ f g hv]
  · intro hs b f hf
    rw [h.row?_substitute, Option.map_eq_some_iff] at hf
    obtain ⟨f', hf', rfl⟩ := hf
    rw [eval_substitute σ f' g hv]
    exact hs b f' hf'

/-- Solving an equation for a nonbasic variable and making it basic adds the equation. -/
theorem WellFormed.solves_insertSolved (h : t.WellFormed) {v : Variable} {f : LinearForm Rat}
    (hv : t.row? v = none) (hc : f.coeff v ≠ 0) :
    ((t.substitute v (f.isolate v)).insertRow v (f.isolate v)).Solves σ ↔
      t.Solves σ ∧ f.eval σ = 0 := by
  have hopen : (t.substitute v (f.isolate v)).row? v = none := by
    rw [h.indexed.row?_substitute, hv]
    rfl
  rw [solves_insertRow hopen, eval_isolate_iff σ f hc]
  constructor
  · rintro ⟨hs, hf⟩
    exact ⟨(h.indexed.solves_substitute ((eval_isolate_iff σ f hc).2 hf)).1 hs, hf⟩
  · rintro ⟨hs, hf⟩
    exact ⟨(h.indexed.solves_substitute ((eval_isolate_iff σ f hc).2 hf)).2 hs, hf⟩

/-- An exchange keeps the solutions. -/
theorem WellFormed.solves_exchange (h : t.WellFormed) (ht : t.Trim) {entry exit : Variable}
    (he : t.exchange entry exit = .ok t') : t'.Solves σ ↔ t.Solves σ := by
  obtain ⟨row, hrow, hmem, rfl⟩ := exchange_eq_ok.1 he
  have hne : entry ≠ exit := h.ne_of_mem hrow hmem hrow
  have hc : row.coeff entry ≠ 0 := ht.row hrow entry hmem
  have hopen :
      ((t.removeRow exit).substitute entry (row.exchange exit entry)).row? entry = none := by
    rw [(h.indexed.removeRow exit).row?_substitute, row?_removeRow, h.row_open hrow hmem]
    simp
  rw [solves_insertRow hopen, solves_iff_removeRow hrow, eval_exchange_iff σ row hne hc]
  constructor
  · rintro ⟨hs, hx⟩
    have hentry := (eval_exchange_iff σ row hne hc).2 hx
    exact ⟨((h.indexed.removeRow exit).solves_substitute hentry).1 hs, hx⟩
  · rintro ⟨hs, hx⟩
    have hentry := (eval_exchange_iff σ row hne hc).2 hx
    exact ⟨((h.indexed.removeRow exit).solves_substitute hentry).2 hs, hx⟩

/-- What an exchange puts in the place of the entering variable is its value. -/
theorem WellFormed.exchange_value (h : t.WellFormed) (ht : t.Trim) {entry exit : Variable}
    {row : LinearForm Rat} (hrow : t.row? exit = some row) (hmem : entry ∈ row.vars)
    (hs : t.Solves σ) : σ entry = (row.exchange exit entry).eval σ :=
  (eval_exchange_iff σ row (h.ne_of_mem hrow hmem hrow) (ht.row hrow entry hmem)).2 (hs.row hrow)

/-- Erasing a column puts the variable to zero. -/
theorem Indexed.solves_removeColumn (h : t.Indexed) {v : Variable} (hv : t.row? v = none) :
    (t.removeColumn v).Solves σ ↔ t.Solves (Function.update σ v 0) := by
  have heval : ∀ f : LinearForm Rat, (f.erase v).eval σ = f.eval (Function.update σ v 0) := by
    intro f
    rw [eval_erase, eval_update]
    ring
  rw [solves_iff, solves_iff]
  constructor
  · intro hs b f hf
    have hne : b ≠ v := by
      rintro rfl
      rw [hv] at hf
      cases hf
    rw [Function.update_of_ne hne, ← heval]
    exact hs b (f.erase v) (by rw [h.row?_removeColumn, hf]; rfl)
  · intro hs b f hf
    rw [h.row?_removeColumn, Option.map_eq_some_iff] at hf
    obtain ⟨f', hf', rfl⟩ := hf
    have hne : b ≠ v := by
      rintro rfl
      rw [hv] at hf'
      cases hf'
    have hb := hs b f' hf'
    rw [Function.update_of_ne hne] at hb
    rw [heval, hb]

/-- The rows after a shift: a row that does not mention `m` moves by zero times `δ`. -/
theorem WellFormed.row?_shiftConstant_eq (h : t.WellFormed) (m : Variable) (δ : Rat) (b : Variable) :
    (t.shiftConstant m δ).row? b =
      (t.row? b).map fun f => f.shift (if b = m then δ else -f.coeff m * δ) := by
  have hzero : ∀ f : LinearForm Rat, f.shift 0 = f := by
    intro f
    show (⟨f.constant + 0, f.terms⟩ : LinearForm Rat) = f
    rw [add_zero]
  cases hf : t.row? b with
  | none =>
    rcases row?_shiftConstant t m δ b with h' | ⟨k, h'⟩
    · rw [h', hf]
      rfl
    · rw [h', hf]
      rfl
  | some f =>
    rw [Option.map_some]
    cases hm : t.row? m with
    | some row =>
      rw [row?_shiftConstant_of_basic hm, hf]
      by_cases hb : b = m
      · simp [hb]
      · have hout : m ∉ f.vars := fun hmem => h.ne_of_mem hf hmem hm rfl
        simp [hb, coeff_of_not_mem hout, hzero]
    | none =>
      have hb : b ≠ m := by
        rintro rfl
        rw [hm] at hf
        cases hf
      rw [row?_shiftConstant_of_nonbasic hm, hf, if_neg hb]
      by_cases hcol : b ∈ t.column m
      · rw [if_pos hcol]
        rfl
      · have hout := h.indexed.not_mem_of_not_mem_column hf hcol
        rw [if_neg hcol, coeff_of_not_mem hout, neg_zero, zero_mul, hzero]

/-- A shifted row says of the one assignment what the row says of the other. -/
theorem WellFormed.eval_shifted_iff (h : t.WellFormed) {b : Variable} {f : LinearForm Rat}
    (hf : t.row? b = some f) (m : Variable) (δ : Rat) :
    σ b = (f.shift (if b = m then δ else -f.coeff m * δ)).eval σ ↔
      Function.update σ m (σ m - δ) b = f.eval (Function.update σ m (σ m - δ)) := by
  rw [eval_shift, eval_update]
  by_cases hb : b = m
  · subst hb
    have hout : b ∉ f.vars := fun hmem => h.ne_of_mem hf hmem hf rfl
    rw [if_pos rfl, Function.update_self, coeff_of_not_mem hout]
    constructor <;> intro he <;> linarith
  · rw [if_neg hb, Function.update_of_ne hb]
    constructor <;> intro he <;> linarith

/-- Moving the constant of a constraint moves its marker by as much. -/
theorem WellFormed.solves_shiftConstant (h : t.WellFormed) (m : Variable) (δ : Rat) :
    (t.shiftConstant m δ).Solves σ ↔ t.Solves (Function.update σ m (σ m - δ)) := by
  rw [solves_iff, solves_iff]
  constructor
  · intro hs b f hf
    apply (h.eval_shifted_iff hf m δ).1
    apply hs b
    rw [h.row?_shiftConstant_eq, hf]
    rfl
  · intro hs b f hf
    rw [h.row?_shiftConstant_eq, Option.map_eq_some_iff] at hf
    obtain ⟨g, hg, rfl⟩ := hf
    exact (h.eval_shifted_iff hg m δ).2 (hs b g hg)

/-! ## Existence -/

/-- The solution in which the nonbasic variables have the given values. -/
def fill (t : Tableau Rat) (ρ : Assignment Rat) : Assignment Rat := fun v =>
  match t.row? v with
  | some f => f.eval ρ
  | none => ρ v

theorem fill_of_nonbasic {v : Variable} (h : t.row? v = none) (ρ : Assignment Rat) :
    t.fill ρ v = ρ v := by
  unfold fill
  rw [h]

theorem eval_fill {f : LinearForm Rat} (h : ∀ v ∈ f.vars, t.row? v = none)
    (ρ : Assignment Rat) : f.eval (t.fill ρ) = f.eval ρ :=
  eval_congr _ _ fun v hv => fill_of_nonbasic (h v hv) ρ

theorem WellFormed.solves_fill (h : t.WellFormed) (ρ : Assignment Rat) :
    t.Solves (t.fill ρ) := by
  rw [solves_iff]
  intro b f hf
  rw [eval_fill (fun v hv => h.row_open hf hv)]
  unfold fill
  rw [hf]

theorem point_of_basic {v : Variable} {f : LinearForm Rat} (h : t.row? v = some f) :
    t.point v = f.constant := by
  unfold point
  rw [h]

theorem point_of_nonbasic {v : Variable} (h : t.row? v = none) : t.point v = 0 := by
  unfold point
  rw [h]

theorem point_eq_fill : t.point = t.fill fun _ => 0 := by
  funext v
  unfold fill
  cases hv : t.row? v with
  | some f => exact (point_of_basic hv).trans (eval_at_zero f).symm
  | none => exact point_of_nonbasic hv

theorem WellFormed.solves_point (h : t.WellFormed) : t.Solves t.point := by
  rw [point_eq_fill]
  exact h.solves_fill _

theorem eval_point {f : LinearForm Rat} (h : ∀ v ∈ f.vars, t.row? v = none) :
    f.eval t.point = f.constant := by
  rw [point_eq_fill, eval_fill h, eval_at_zero]

/-- Forms in nonbasic variables that agree on the solutions agree. -/
theorem WellFormed.eval_eq_of_solutions (h : t.WellFormed) {f g : LinearForm Rat}
    (hf : ∀ v ∈ f.vars, t.row? v = none) (hg : ∀ v ∈ g.vars, t.row? v = none)
    (hfg : ∀ σ, t.Solves σ → f.eval σ = g.eval σ) (ρ : Assignment Rat) : f.eval ρ = g.eval ρ := by
  rw [← eval_fill hf, ← eval_fill hg]
  exact hfg _ (h.solves_fill ρ)

/-- A variable whose value the rows leave open occurs in none of them. -/
theorem WellFormed.nowhere_of_loose (h : t.WellFormed) (ht : t.Trim) {v : Variable}
    (hv : ∀ σ k, t.Solves σ → t.Solves (Function.update σ v k)) :
    t.row? v = none ∧ ∀ {b f}, t.row? b = some f → v ∉ f.vars := by
  have hpoint := h.solves_point
  have hmoved := hv _ (t.point v + 1) hpoint
  have hout : ∀ {b f}, b ≠ v → t.row? b = some f → v ∉ f.vars := by
    intro b f hne hf hm
    have h₁ := hpoint.row hf
    have h₂ := hmoved.row hf
    rw [Function.update_of_ne hne, eval_update] at h₂
    have hzero : f.coeff v = 0 := by linarith
    exact ht.row hf v hm hzero
  have hnone : t.row? v = none := by
    cases hb : t.row? v with
    | none => rfl
    | some f =>
      have hself : v ∉ f.vars := by
        intro hm
        rw [h.row_open hb hm] at hb
        cases hb
      have h₁ := hpoint.row hb
      have h₂ := hmoved.row hb
      rw [Function.update_self, eval_update_of_not_mem hself] at h₂
      exact absurd h₂ (by linarith)
  refine ⟨hnone, ?_⟩
  intro b f hf
  apply hout _ hf
  rintro rfl
  rw [hnone] at hf
  cases hf

end Tableau

end SoftSimplex
