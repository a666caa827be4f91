import SoftSimplex.Proofs.Solutions
import SoftSimplex.Solver.Equation

/-!
# What a record demands

A constraint in the books demands one equation between its form and the variables it brought in.
`Balanced` writes the equation out for each kind of constraint. All that proofs need of it is that
it is linear, that each of the constraint's own variables is determined by the others, and that no
foreign variable matters unless the form mentions it.
-/

namespace SoftSimplex

open LinearForm

theorem Variable.bounded_of_client {v : Variable} (hc : v.isClient = true)
    (hr : v.isRestricted = true) : v.role = .bounded := by
  unfold isClient at hc
  unfold isRestricted at hr
  cases hrole : v.role <;> simp [hrole] at hc hr ⊢

namespace Auxiliaries

def own (a : Auxiliaries) : List Variable := a.marker :: a.errors

/-- The variables are of the kind, and in the number, that the constraint calls for. -/
def Fits (inequality required : Bool) (a : Auxiliaries) : Prop :=
  match inequality, required with
  | true, true => a.marker.role = .slack ∧ a.errors = []
  | true, false => a.marker.role = .slack ∧ ∃ e, a.errors = [e] ∧ e.role = .error
  | false, true => a.marker.role = .dummy ∧ a.errors = []
  | false, false =>
    a.marker.role = .error ∧ ∃ e, a.errors = [a.marker, e] ∧ e.role = .error ∧ e ≠ a.marker

/-- A required constraint has its marker only. Another one has one variable more, an error, which
makes up for what the form lacks; its marker is a slack or again an error. -/
theorem Fits.shape {i r : Bool} {a : Auxiliaries} (h : a.Fits i r) :
    r = true ∧ a.errors = [] ∧ a.marker.role = (if i then .slack else .dummy) ∨
      r = false ∧ ∃ e, e ≠ a.marker ∧ e.role = .error ∧
        (i = true ∧ a.marker.role = .slack ∧ a.errors = [e] ∨
          i = false ∧ a.marker.role = .error ∧ a.errors = [a.marker, e]) := by
  unfold Fits at h
  split at h
  · exact .inl ⟨rfl, h.2, h.1⟩
  · obtain ⟨hm, e, he, hr⟩ := h
    have hne : e ≠ a.marker := by
      rintro rfl
      rw [hm] at hr
      cases hr
    exact .inr ⟨rfl, e, hne, hr, .inl ⟨rfl, hm, he⟩⟩
  · exact .inl ⟨rfl, h.2, h.1⟩
  · obtain ⟨hm, e, he, hr, hne⟩ := h
    exact .inr ⟨rfl, e, hne, hr, .inr ⟨rfl, hm, he⟩⟩

/-- The roles and the number of the variables, one by one. -/
theorem Fits.described {i r : Bool} {a : Auxiliaries} (h : a.Fits i r) :
    (i = true → a.marker.role = .slack) ∧
    (i = false → r = true → a.marker.role = .dummy) ∧
    (i = false → r = false → a.marker.role = .error ∧ a.errors.head? = some a.marker) ∧
    a.errors.length = (if r then 0 else if i then 1 else 2) ∧
    a.errors.Nodup ∧ ∀ e ∈ a.errors, e.role = .error := by
  obtain ⟨rfl, he, hm⟩ | ⟨rfl, e, hne, hrole, ⟨rfl, hm, he⟩ | ⟨rfl, hm, he⟩⟩ := h.shape
  · cases i <;> simp_all
  · simp [hm, he, hrole]
  · simp [hm, he, hrole, hne.symm]

theorem Fits.mem_own {i r : Bool} {a : Auxiliaries} (h : a.Fits i r) {v : Variable}
    (hv : v ∈ a.own) : v = a.marker ∨ r = false ∧ v.role = .error := by
  rcases List.mem_cons.1 hv with hm | he
  · exact .inl hm
  · obtain ⟨-, herrors, -⟩ | ⟨hr, e, -, hrole, ⟨-, -, herrors⟩ | ⟨-, -, herrors⟩⟩ := h.shape
    · rw [herrors] at he
      cases he
    · rw [herrors, List.mem_singleton] at he
      exact .inr ⟨hr, he ▸ hrole⟩
    · rw [herrors, List.mem_cons, List.mem_singleton] at he
      rcases he with hm | rfl
      · exact .inl hm
      · exact .inr ⟨hr, hrole⟩

theorem Fits.role_of_own {i r : Bool} {a : Auxiliaries} (h : a.Fits i r) {v : Variable}
    (hv : v ∈ a.own) : v.role = .slack ∨ v.role = .error ∨ v.role = .dummy := by
  rcases h.mem_own hv with rfl | ⟨-, hrole⟩
  · obtain ⟨-, -, hm⟩ | ⟨-, e, -, -, ⟨-, hm, -⟩ | ⟨-, hm, -⟩⟩ := h.shape
    · cases i with
      | true => exact .inl hm
      | false => exact .inr (.inr hm)
    · exact .inl hm
    · exact .inr (.inl hm)
  · exact .inr (.inl hrole)

theorem mem_own_of_terms {α : Type} [Scalar α] {a : Auxiliaries} {v : Variable}
    (hv : v ∈ (a.terms : List (Variable × α)).map Prod.fst) : v ∈ a.own := by
  unfold terms at hv
  rw [List.map_cons, List.mem_cons] at hv
  rcases hv with hm | he
  · exact hm ▸ List.mem_cons_self
  · obtain ⟨t, ht, rfl⟩ := List.mem_map.1 he
    obtain ⟨e, herror, rfl⟩ := List.mem_map.1 ht
    exact List.mem_cons_of_mem _ (List.mem_filter.1 herror).1

/-- What is drawn for a constraint fits it. -/
theorem draw_fits {α : Type} [Scalar α] (s : Supply) (c : Constraint α) :
    (draw s c).1.Fits c.isInequality c.isRequired := by
  unfold draw
  cases c.isInequality with
  | true =>
    cases c.isRequired with
    | true => exact ⟨rfl, rfl⟩
    | false => exact ⟨rfl, _, rfl, rfl⟩
  | false =>
    cases c.isRequired with
    | true => exact ⟨rfl, rfl⟩
    | false =>
      refine ⟨rfl, _, rfl, rfl, ?_⟩
      intro h
      have hid := congrArg Variable.id h
      simp [Supply.next, Supply.advance] at hid

end Auxiliaries

namespace Record

section Any

variable {α : Type} {r : Record α}

theorem marker_mem_own (r : Record α) : r.marker ∈ r.own := List.mem_cons_self

theorem error_mem_own {v : Variable} (hv : v ∈ r.errors) : v ∈ r.own := List.mem_cons_of_mem _ hv

variable [Scalar α]

/-- The record's own variables fit its constraint, which speaks of client variables only. -/
structure Proper (r : Record α) : Prop where
  fits : r.Fits r.constraint.isInequality r.constraint.isRequired
  clients : ∀ v ∈ r.constraint.form.vars, v.isClient = true

theorem Proper.own_restricted (h : r.Proper) {v : Variable} (hv : v ∈ r.own) :
    v.isRestricted = true := by
  unfold Variable.isRestricted
  rcases h.fits.role_of_own hv with hr | hr | hr <;> rw [hr] <;> rfl

theorem Proper.own_not_client (h : r.Proper) {v : Variable} (hv : v ∈ r.own) :
    v.isClient = false := by
  unfold Variable.isClient
  rcases h.fits.role_of_own hv with hr | hr | hr <;> rw [hr] <;> rfl

theorem Proper.own_not_mem (h : r.Proper) {v : Variable} (hv : v ∈ r.own) :
    v ∉ r.constraint.form.vars := by
  intro hm
  have hc := h.clients v hm
  rw [h.own_not_client hv] at hc
  cases hc

theorem Proper.eq_marker (h : r.Proper) (hreq : r.constraint.isRequired = true) {v : Variable}
    (hv : v ∈ r.own) : v = r.marker := by
  apply (h.fits.mem_own hv).resolve_right
  rintro ⟨hsoft, -⟩
  rw [hreq] at hsoft
  cases hsoft

/-- A constraint that may be missed has an own variable besides its marker. -/
theorem Proper.exists_error (h : r.Proper) (hsoft : r.constraint.isRequired = false) :
    ∃ e ∈ r.own, e ≠ r.marker := by
  obtain ⟨hreq, -⟩ | ⟨-, e, hne, -, ⟨-, -, he⟩ | ⟨-, -, he⟩⟩ := h.fits.shape
  · rw [hsoft] at hreq
    cases hreq
  · exact ⟨e, error_mem_own (by simp [he]), hne⟩
  · exact ⟨e, error_mem_own (by simp [he]), hne⟩

theorem Proper.marker_dummy (h : r.Proper) (hreq : r.constraint.isRequired = true)
    (hi : r.constraint.isInequality = false) : r.marker.role = .dummy := by
  obtain ⟨-, -, hm⟩ | ⟨hsoft, -⟩ := h.fits.shape
  · rw [hi] at hm
    exact hm
  · rw [hreq] at hsoft
    cases hsoft

end Any

variable {r : Record Rat} {σ : Assignment Rat}

/-- The equation that a record demands: the form equals the slack, or the slack less the error, or
the dummy, or what is too much less what is too little. -/
def Balanced (r : Record Rat) (σ : Assignment Rat) : Prop :=
  match r.constraint.isInequality, r.constraint.isRequired, r.errors with
  | true, true, [] => r.constraint.form.eval σ - σ r.marker = 0
  | true, false, [e] => r.constraint.form.eval σ - σ r.marker + σ e = 0
  | false, true, [] => r.constraint.form.eval σ - σ r.marker = 0
  | false, false, [p, q] => r.constraint.form.eval σ - σ p + σ q = 0
  | _, _, _ => False

/-- The form that is zero when the record is balanced. -/
def residual (r : Record Rat) : LinearForm Rat := r.constraint.form.addTerms r.terms

/-- The marker stands for what the form has too much. -/
theorem Proper.terms_eq (h : r.Proper) :
    r.terms = [(r.marker, (-1 : Rat))] ∧ (∀ v ∈ r.own, v = r.marker) ∨
      ∃ e, e ≠ r.marker ∧ e ∈ r.errors ∧ r.terms = [(r.marker, (-1 : Rat)), (e, 1)] ∧
        ∀ v ∈ r.own, v = r.marker ∨ v = e := by
  unfold Auxiliaries.terms Auxiliaries.own
  obtain ⟨-, he, -⟩ | ⟨-, e, hne, -, ⟨-, -, he⟩ | ⟨-, -, he⟩⟩ := h.fits.shape
  · left
    simp [he]
  · exact .inr ⟨e, hne, by simp [he], by simp [he, hne], by simp [he]⟩
  · exact .inr ⟨e, hne, by simp [he], by simp [he, hne], by simp [he]⟩

theorem Proper.coeff_marker (h : r.Proper) : r.residual.coeff r.marker = -1 := by
  have hout := coeff_of_not_mem (h.own_not_mem r.marker_mem_own)
  unfold residual
  rcases h.terms_eq with ⟨ht, -⟩ | ⟨e, hne, -, ht, -⟩
  · simp [ht, addTerms, coeff_addTerm, hout]
  · simp [ht, addTerms, coeff_addTerm, hout, hne.symm]

/-- The other own variable makes up for what the form lacks. -/
theorem Proper.coeff_error (h : r.Proper) {v : Variable} (hv : v ∈ r.own) (hne : v ≠ r.marker) :
    r.residual.coeff v = 1 := by
  have hout := coeff_of_not_mem (h.own_not_mem hv)
  unfold residual
  rcases h.terms_eq with ⟨-, hown⟩ | ⟨e, -, -, ht, hown⟩
  · exact absurd (hown v hv) hne
  · obtain rfl := (hown v hv).resolve_left hne
    simp [ht, addTerms, coeff_addTerm, hout, hne]

theorem Proper.coeff_own_ne_zero (h : r.Proper) {v : Variable} (hv : v ∈ r.own) :
    r.residual.coeff v ≠ 0 := by
  by_cases hne : v = r.marker
  · subst hne
    rw [h.coeff_marker]
    norm_num
  · rw [h.coeff_error hv hne]
    norm_num

theorem Proper.coeff_foreign (h : r.Proper) {v : Variable} (hv : v ∉ r.own) :
    r.residual.coeff v = r.constraint.form.coeff v := by
  unfold residual
  have hm : v ≠ r.marker := fun he => hv (he ▸ r.marker_mem_own)
  rcases h.terms_eq with ⟨ht, -⟩ | ⟨e, -, he, ht, -⟩
  · simp [ht, addTerms, coeff_addTerm, hm]
  · have hve : v ≠ e := fun hve => hv (hve ▸ error_mem_own he)
    simp [ht, addTerms, coeff_addTerm, hm, hve]

/-- A required constraint's marker has the value of its form. -/
theorem Proper.balanced_iff_of_required (h : r.Proper) (hreq : r.constraint.isRequired = true) :
    r.Balanced σ ↔ r.constraint.form.eval σ = σ r.marker := by
  obtain ⟨-, he, -⟩ | ⟨hsoft, -⟩ := h.fits.shape
  · have hb : r.Balanced σ ↔ r.constraint.form.eval σ - σ r.marker = 0 := by
      unfold Balanced
      cases hi : r.constraint.isInequality <;> simp only [hreq, he]
    exact hb.trans sub_eq_zero
  · rw [hreq] at hsoft
    cases hsoft

/-- What another constraint's form has too much is in its marker, and what it lacks is in the other
variable. -/
theorem Proper.balanced_iff_of_soft (h : r.Proper) {e : Variable} (he : e ∈ r.own)
    (hne : e ≠ r.marker) : r.Balanced σ ↔ r.constraint.form.eval σ = σ r.marker - σ e := by
  have hb : r.Balanced σ ↔ r.constraint.form.eval σ - σ r.marker + σ e = 0 := by
    unfold Balanced
    obtain ⟨-, herrors, -⟩ | ⟨hr, e', -, -, ⟨hi, -, herrors⟩ | ⟨hi, -, herrors⟩⟩ := h.fits.shape
    · simp [Auxiliaries.own, herrors, hne] at he
    · have hee : e = e' := by simpa [Auxiliaries.own, herrors, hne] using he
      simp only [hi, hr, herrors, hee]
    · have hee : e = e' := by simpa [Auxiliaries.own, herrors, hne] using he
      simp only [hi, hr, herrors, hee]
  rw [hb, sub_add, sub_eq_zero]

theorem Proper.balanced_iff (h : r.Proper) : r.Balanced σ ↔ r.residual.eval σ = 0 := by
  unfold residual
  rw [eval_addTerms]
  cases hr : r.constraint.isRequired with
  | true =>
    rcases h.terms_eq with ⟨ht, -⟩ | ⟨e, hne, he, -⟩
    · rw [h.balanced_iff_of_required hr, ht, evalTerms_cons, evalTerms_nil]
      constructor <;> intro hz <;> linarith
    · exact absurd (h.eq_marker hr (error_mem_own he)) hne
  | false =>
    obtain ⟨e, he, hne⟩ := h.exists_error hr
    rcases h.terms_eq with ⟨-, hown⟩ | ⟨e', -, -, ht, hown⟩
    · exact absurd (hown e he) hne
    · obtain rfl := (hown e he).resolve_left hne
      rw [h.balanced_iff_of_soft he hne, ht, evalTerms_cons, evalTerms_cons, evalTerms_nil]
      constructor <;> intro hz <;> linarith

theorem Proper.eq_error (h : r.Proper) {v e : Variable} (hv : v ∈ r.own) (hvm : v ≠ r.marker)
    (he : e ∈ r.own) (hem : e ≠ r.marker) : v = e := by
  rcases h.terms_eq with ⟨-, hown⟩ | ⟨e', -, -, -, hown⟩
  · exact absurd (hown v hv) hvm
  · rw [(hown v hv).resolve_left hvm, (hown e he).resolve_left hem]

/-! ## One variable moves -/

theorem Proper.balanced_update_iff (h : r.Proper) (v : Variable) (k : Rat) :
    r.Balanced (Function.update σ v k) ↔
      r.residual.eval σ + r.residual.coeff v * (k - σ v) = 0 := by
  rw [h.balanced_iff, Tableau.eval_update]

/-- The other variables determine an own one. -/
theorem Proper.determined (h : r.Proper) {v : Variable} (hv : v ∈ r.own) (σ : Assignment Rat) :
    ∃ k₀, ∀ k, r.Balanced (Function.update σ v k) ↔ k = k₀ := by
  have hc := h.coeff_own_ne_zero hv
  refine ⟨σ v - r.residual.eval σ / r.residual.coeff v, fun k => ?_⟩
  rw [h.balanced_update_iff]
  constructor
  · intro hk
    have hk : r.residual.coeff v * (k - σ v) = -r.residual.eval σ := by linarith
    have hk : k - σ v = -r.residual.eval σ / r.residual.coeff v := by
      rw [eq_div_iff hc]
      linarith
    rw [neg_div] at hk
    linarith
  · rintro rfl
    field_simp
    ring

/-- A variable that neither came with the constraint nor occurs in it does not matter. -/
theorem Proper.balanced_update_foreign (h : r.Proper) {v : Variable} (hv : v ∉ r.own)
    (hf : v ∉ r.constraint.form.vars) (k : Rat) :
    r.Balanced (Function.update σ v k) ↔ r.Balanced σ := by
  rw [h.balanced_update_iff, h.coeff_foreign hv, coeff_of_not_mem hf, h.balanced_iff, zero_mul,
    add_zero]

/-! ## Edits -/

theorem Proper.withRightSide (h : r.Proper) (k : Rat) :
    ({ r with constraint := r.constraint.withRightSide k } : Record Rat).Proper :=
  ⟨h.fits, h.clients⟩

/-- Moving the constant is as good as moving the marker the other way. -/
theorem Proper.balanced_withRightSide (h : r.Proper) (k : Rat) :
    ({ r with constraint := r.constraint.withRightSide k } : Record Rat).Balanced σ ↔
      r.Balanced (Function.update σ r.marker
        (σ r.marker - (r.constraint.constantFor k - r.constraint.form.constant))) := by
  rw [(h.withRightSide k).balanced_iff, h.balanced_update_iff, h.coeff_marker]
  have heval :
      ({ r with constraint := r.constraint.withRightSide k } : Record Rat).residual.eval σ =
      r.residual.eval σ + (r.constraint.constantFor k - r.constraint.form.constant) := by
    unfold residual
    rw [eval_addTerms, eval_addTerms, eval_eq, eval_eq]
    show r.constraint.constantFor k + evalTerms σ r.constraint.form.terms.entries + _ = _
    ring
  rw [heval]
  constructor <;> intro hz <;> linarith

theorem balanced_withStrength {new : Strength Rat}
    (hnew : new.isRequired = r.constraint.isRequired) :
    ({ r with constraint := r.constraint.withStrength new } : Record Rat).Balanced σ ↔
      r.Balanced σ := by
  unfold Balanced
  have hreq : (r.constraint.withStrength new).isRequired = r.constraint.isRequired := hnew
  simp only [hreq]
  exact Iff.rfl

/-! ## What missing a constraint costs -/

def penalty (r : Record Rat) (σ : Assignment Rat) : Rat :=
  r.constraint.weight * (r.errors.map σ).sum

theorem Proper.penalty_of_required (h : r.Proper) (hreq : r.constraint.isRequired = true)
    (σ : Assignment Rat) : r.penalty σ = 0 := by
  obtain ⟨-, he, -⟩ | ⟨hsoft, -⟩ := h.fits.shape
  · unfold penalty
    rw [he, List.map_nil, List.sum_nil, mul_zero]
  · rw [hreq] at hsoft
    cases hsoft

/-- Too much of a form costs something in an equality only. -/
theorem Proper.penalty_of_soft (h : r.Proper) {e : Variable} (he : e ∈ r.own)
    (hne : e ≠ r.marker) (σ : Assignment Rat) :
    r.penalty σ =
      r.constraint.weight * ((if r.constraint.isInequality then 0 else σ r.marker) + σ e) := by
  unfold penalty
  obtain ⟨-, herrors, -⟩ | ⟨-, e', -, -, ⟨hi, -, herrors⟩ | ⟨hi, -, herrors⟩⟩ := h.fits.shape
  · simp [Auxiliaries.own, herrors, hne] at he
  · have hee : e = e' := by simpa [Auxiliaries.own, herrors, hne] using he
    simp [hi, herrors, hee]
  · have hee : e = e' := by simpa [Auxiliaries.own, herrors, hne] using he
    simp [hi, herrors, hee]

theorem penalty_congr {τ : Assignment Rat} (h : ∀ v ∈ r.errors, σ v = τ v) :
    r.penalty σ = r.penalty τ := by
  unfold penalty
  rw [List.map_congr_left h]

/-- What a marker costs: nothing, unless it is an error. -/
def markerCost (r : Record Rat) : Rat :=
  if r.marker ∈ r.errors then r.constraint.weight else 0

theorem Proper.penalty_update_marker (h : r.Proper) (σ : Assignment Rat) (k : Rat) :
    r.penalty (Function.update σ r.marker k) = r.penalty σ + r.markerCost * (k - σ r.marker) := by
  unfold penalty markerCost
  obtain ⟨-, he, -⟩ | ⟨-, e, hne, -, ⟨-, -, he⟩ | ⟨-, -, he⟩⟩ := h.fits.shape
  · simp [he]
  · simp [he, hne, hne.symm]
  · simp [he, hne]
    ring

end Record

end SoftSimplex
