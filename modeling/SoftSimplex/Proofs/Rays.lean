import SoftSimplex.Proofs.Ratios
import SoftSimplex.Proofs.Solutions

/-!
# Letting one variable rise

The nonbasic variables determine a solution. `ray v y` is the solution in which `v` has the value
`y` and the other nonbasic variables are zero: every row moves along the column of `v`. A form that
cannot fall while the restricted variables rise falls along no ray without a limit.
-/

namespace SoftSimplex

open LinearForm

namespace LinearForm

variable {f : LinearForm Rat} {σ τ : Assignment Rat}

/-- A form is as great as its terms are. -/
theorem eval_le_eval (h : ∀ v ∈ f.vars, f.coeff v * σ v ≤ f.coeff v * τ v) :
    f.eval σ ≤ f.eval τ := by
  have hdiff : ∀ ts : List (Variable × Rat),
      evalTerms (fun v => τ v - σ v) ts = evalTerms τ ts - evalTerms σ ts := by
    intro ts
    induction ts with
    | nil => simp
    | cons t ts ih =>
      simp only [evalTerms_cons, ih]
      ring
  have hle : f.constant ≤ f.eval fun v => τ v - σ v := by
    apply constant_le_eval
    intro v hv
    have hterm := h v hv
    linarith
  have hterms := hdiff f.terms.entries
  rw [eval_eq] at hle ⊢
  rw [eval_eq]
  linarith

/-- A form falls only where one of its terms falls. -/
theorem exists_term_lt (h : f.eval σ < f.eval τ) :
    ∃ v ∈ f.vars, f.coeff v * σ v < f.coeff v * τ v := by
  by_contra hno
  refine absurd (eval_le_eval (σ := τ) (τ := σ) fun v hv => ?_) (not_le.2 h)
  by_contra hlt
  exact hno ⟨v, hv, not_le.1 hlt⟩

end LinearForm

namespace Tableau

variable {t : Tableau Rat} {σ τ : Assignment Rat} {v w : Variable} {y : Rat}

/-- Solutions that agree without rows agree. -/
theorem WellFormed.eq_of_nonbasic (h : t.WellFormed) (hσ : t.Solves σ) (hτ : t.Solves τ)
    (hst : ∀ v, t.row? v = none → σ v = τ v) : σ = τ := by
  funext v
  cases hv : t.row? v with
  | none => exact hst v hv
  | some f =>
    rw [hσ.row hv, hτ.row hv]
    exact eval_congr _ _ fun w hw => hst w (h.row_open hv hw)

/-- The solution in which `v` has the value `y` and all else without a row is zero. -/
def ray (t : Tableau Rat) (v : Variable) (y : Rat) : Assignment Rat :=
  t.fill (Function.update (fun _ => 0) v y)

theorem WellFormed.solves_ray (h : t.WellFormed) (v : Variable) (y : Rat) :
    t.Solves (t.ray v y) :=
  h.solves_fill _

theorem ray_zero (t : Tableau Rat) (v : Variable) : t.ray v 0 = t.point := by
  unfold ray
  rw [Function.update_eq_self v fun _ => (0 : Rat), ← point_eq_fill]

theorem ray_self (hv : t.row? v = none) : t.ray v y v = y := by
  unfold ray
  rw [fill_of_nonbasic hv, Function.update_self]

theorem ray_of_nonbasic (hw : t.row? w = none) (hne : w ≠ v) : t.ray v y w = 0 := by
  unfold ray
  rw [fill_of_nonbasic hw, Function.update_of_ne hne]

theorem eval_direction (f : LinearForm Rat) (v : Variable) (y : Rat) :
    f.eval (Function.update (fun _ => 0) v y) = f.constant + f.coeff v * y := by
  rw [eval_update, eval_at_zero, sub_zero]

theorem ray_of_basic {f : LinearForm Rat} (hf : t.row? w = some f) :
    t.ray v y w = f.constant + f.coeff v * y := by
  unfold ray fill
  rw [hf]
  exact eval_direction f v y

theorem eval_ray {f : LinearForm Rat} (hf : ∀ w ∈ f.vars, t.row? w = none) :
    f.eval (t.ray v y) = f.constant + f.coeff v * y := by
  unfold ray
  rw [eval_fill hf, eval_direction]

/-! ## Limits -/

/-- What cannot fall while restricted variables rise and free ones move. -/
def Rising (C : Assignment Rat → Rat) : Prop :=
  ∀ σ τ : Assignment Rat, (∀ v, v.isRestricted = true → σ v ≤ τ v) → C σ ≤ C τ

/-- If entering a variable lowers what cannot fall while restricted variables rise, some
restricted row falls with it. -/
theorem WellFormed.exists_tightest (h : t.WellFormed) {g : LinearForm Rat}
    (hg : ∀ w ∈ g.vars, t.row? w = none) {C : Assignment Rat → Rat} (hC : Rising C) {K : Rat}
    (heval : ∀ σ, t.Solves σ → C σ = K + g.eval σ) (hneg : g.coeff v < 0) :
    ∃ exit, t.tightest? v = some exit := by
  cases hx : t.tightest? v with
  | some exit => exact ⟨exit, rfl⟩
  | none =>
    have hrows := h.indexed.tightest?_eq_none.1 hx
    have hup : ∀ w, w.isRestricted = true → t.ray v 0 w ≤ t.ray v 1 w := by
      intro w hr
      cases hw : t.row? w with
      | none =>
        by_cases hne : w = v
        · subst hne
          rw [ray_self hw, ray_self hw]
          norm_num
        · rw [ray_of_nonbasic hw hne, ray_of_nonbasic hw hne]
      | some f =>
        have hnn := hrows w f hw hr
        rw [ray_of_basic hw, ray_of_basic hw]
        linarith
    have hle := hC _ _ hup
    rw [heval _ (h.solves_ray v 0), heval _ (h.solves_ray v 1), eval_ray hg, eval_ray hg] at hle
    linarith

end Tableau

end SoftSimplex
