import SoftSimplex.Proofs.Completion
import SoftSimplex.Proofs.Rays
import SoftSimplex.Proofs.Requests

/-!
# Errors are what is missed

The slack and the error of an inequality move together without anybody noticing, and so do the two
errors of an equality. A tableau determines its basic variables, so never both have rows: one of the
two is zero. Where no restricted row is negative the other is then all that the form has too much, or
all that it lacks, whether or not the objective has been minimised.
-/

namespace SoftSimplex

open LinearForm

namespace Tableau

variable {t : Tableau Rat} {v w : Variable}

/-- Two variables that the rows let rise together do not both have rows. -/
theorem WellFormed.nonbasic_of_joint (h : t.WellFormed) (hne : v ≠ w)
    (hjoint : ∀ σ, t.Solves σ →
      t.Solves (Function.update (Function.update σ v (σ v + 1)) w (σ w + 1))) :
    t.row? v = none ∨ t.row? w = none := by
  by_contra hboth
  rw [not_or] at hboth
  have hpoint := h.solves_point
  have hsame := h.eq_of_nonbasic hpoint (hjoint _ hpoint) fun u hu => by
    have huv : u ≠ v := fun he => hboth.1 (he ▸ hu)
    have huw : u ≠ w := fun he => hboth.2 (he ▸ hu)
    rw [Function.update_of_ne huw, Function.update_of_ne huv]
  have hv := congrFun hsame v
  rw [Function.update_of_ne hne, Function.update_self] at hv
  linarith

end Tableau

namespace Record

variable {r : Record Rat} {σ : Assignment Rat}

/-- The two variables of a constraint that may be missed rise together. -/
theorem Proper.balanced_joint (h : r.Proper) {e : Variable} (he : e ∈ r.own) (hne : e ≠ r.marker)
    (hb : r.Balanced σ) : r.Balanced
      (Function.update (Function.update σ r.marker (σ r.marker + 1)) e (σ e + 1)) := by
  have hform : r.constraint.form.eval
      (Function.update (Function.update σ r.marker (σ r.marker + 1)) e (σ e + 1)) =
        r.constraint.form.eval σ := by
    rw [Tableau.eval_update_of_not_mem (h.own_not_mem he),
      Tableau.eval_update_of_not_mem (h.own_not_mem r.marker_mem_own)]
  rw [h.balanced_iff_of_soft he hne] at hb ⊢
  rw [hform, hb, Function.update_self, Function.update_of_ne hne.symm, Function.update_self]
  ring

/-- If one of the two variables of a constraint that may be missed is zero and none is negative, they
are what the form has too much and what it lacks. -/
theorem Proper.own_eq_amend (h : r.Proper) (hsoft : r.constraint.isRequired = false)
    (hb : r.Balanced σ) (hnn : ∀ v ∈ r.own, 0 ≤ σ v) {e : Variable} (he : e ∈ r.own)
    (hne : e ≠ r.marker) (hzero : σ r.marker = 0 ∨ σ e = 0) : ∀ v ∈ r.own, σ v = r.amend σ v := by
  have hform := (h.balanced_iff_of_soft he hne).1 hb
  have hm := hnn _ r.marker_mem_own
  have he' := hnn e he
  intro v hv
  by_cases hvm : v = r.marker
  · rw [hvm, amend_marker hsoft]
    rcases hzero with hz | hz
    · rw [max_eq_right (by linarith), hz]
    · rw [max_eq_left (by linarith)]
      linarith
  · rw [h.eq_error hv hvm he hne, amend_error hsoft hne]
    rcases hzero with hz | hz
    · rw [max_eq_left (by linarith)]
      linarith
    · rw [max_eq_right (by linarith), hz]

end Record

namespace Solver

variable {V : Variable → Prop} {vs : List Variable} {s : Solver Rat} {id : ConstraintId}
variable {r : Record Rat}

/-- Of the two variables of a constraint that may be missed one has no row. -/
theorem Sound.own_nonbasic (h : s.Sound V vs) (hr : s.record? id = some r) {e : Variable}
    (he : e ∈ r.own) (hne : e ≠ r.marker) :
    s.tableau.row? r.marker = none ∨ s.tableau.row? e = none := by
  apply h.stands.tidy.wellFormed.nonbasic_of_joint hne.symm
  intro σ hσ
  rw [h.stands.solves] at hσ ⊢
  intro i q hq
  by_cases hi : i = id
  · rw [hi, hr] at hq
    cases hq
    exact (h.books.proper hr).balanced_joint he hne (hσ id r hr)
  · have hout : ∀ v ∈ r.own, v ∉ q.own := fun v hv hvq => hi (h.books.apart hq hr hvq hv)
    rw [(h.books.proper hq).balanced_update_foreign (hout e he) (h.books.own_foreign hr hq he),
      (h.books.proper hq).balanced_update_foreign (hout _ r.marker_mem_own)
        (h.books.own_foreign hr hq r.marker_mem_own)]
    exact hσ i q hq

/-- In a history without a failed repair, minimised or not: the errors of a constraint that may be
missed add up to what it is missed by. For an equality that is the amount of its form, too much in
the marker and too little in the other error, one of them zero; for an inequality it is what the form
is below zero, and the error or the slack is zero. -/
theorem errors_sum_violation (h : Reached (fun _ _ o => o.Repaired) vs s)
    (hr : s.record? id = some r) (hsoft : r.constraint.isRequired = false) :
    (r.errors.map s.value).sum = r.constraint.violation s.value ∧
    (r.constraint.isInequality = false → ∃ e, r.errors = [r.marker, e] ∧
      s.value r.marker + s.value e = |r.constraint.form.eval s.value| ∧
      (s.value r.marker = 0 ∨ s.value e = 0)) ∧
    (r.constraint.isInequality = true → ∃ e, r.errors = [e] ∧
      s.value e = max 0 (-r.constraint.form.eval s.value) ∧
      (s.value r.marker = 0 ∨ s.value e = 0)) := by
  obtain ⟨V, hs⟩ := h.sound
  have hproper := hs.books.proper hr
  have hb := hs.stands.point id r hr
  have hnn : ∀ v ∈ r.own, 0 ≤ s.value v := by
    intro v hv
    rw [value_eq_point]
    exact (h.feasible fun _ _ _ ho => ho).point_nonneg (hproper.own_restricted hv)
  rw [← value_eq_point] at hb
  obtain ⟨e, he, hne⟩ := hproper.exists_error hsoft
  have hzero : s.value r.marker = 0 ∨ s.value e = 0 := by
    rw [value_eq_point]
    exact (hs.own_nonbasic hr he hne).imp Tableau.point_of_nonbasic Tableau.point_of_nonbasic
  have hamend := hproper.own_eq_amend hsoft hb hnn he hne hzero
  refine ⟨hproper.sum_errors_amend hsoft hamend, ?_⟩
  have hmarker := hamend _ r.marker_mem_own
  have herror := hamend e he
  rw [Record.amend_marker hsoft] at hmarker
  rw [Record.amend_error hsoft hne] at herror
  -- the books say which of the two count as errors
  obtain ⟨hreq, -⟩ | ⟨-, e', hne', -, ⟨hi, -, herrors⟩ | ⟨hi, -, herrors⟩⟩ := hproper.fits.shape
  · rw [hsoft] at hreq
    cases hreq
  · obtain rfl := hproper.eq_error he hne (Record.error_mem_own (by simp [herrors])) hne'
    rw [hi]
    refine ⟨nofun, fun _ => ⟨e, herrors, ?_, hzero⟩⟩
    rw [herror, max_comm]
  · obtain rfl := hproper.eq_error he hne (Record.error_mem_own (by simp [herrors])) hne'
    rw [hi]
    refine ⟨fun _ => ⟨e, herrors, ?_, hzero⟩, nofun⟩
    rw [hmarker, herror, max_zero_add_max_neg_zero_eq_abs_self]

/-- A width that would much rather be 60 than the 100 that it has been raised to. Nobody has asked for
less cost yet: a candidate is waiting, and 40 is what the wish is missed by. -/
theorem errors_sum_violation_of_width :
    ∃ y r, replay (fun _ _ o => o.isRepaired) 9
      [.newVariable false,
        .add ((Constraint.compare (.var ⟨0, .free⟩) .equal (.const 40)).withStrength .strong),
        .add ((Constraint.compare (.var ⟨0, .free⟩) .atLeast (.const 100)).withStrength .medium),
        .updateConstant ⟨0⟩ 60] ([], new) = some y ∧
      y.2.record? ⟨0⟩ = some r ∧ r.constraint.isRequired = false ∧
      y.2.tableau.candidates.members = [⟨4, .error⟩] ∧
      (r.errors.map y.2.value).sum = 40 ∧
      (r.errors.map y.2.value).sum = r.constraint.violation y.2.value ∧
      (r.constraint.isInequality = false → ∃ e, r.errors = [r.marker, e] ∧
        y.2.value r.marker + y.2.value e = |r.constraint.form.eval y.2.value| ∧
        (y.2.value r.marker = 0 ∨ y.2.value e = 0)) ∧
      (r.constraint.isInequality = true → ∃ e, r.errors = [e] ∧
        y.2.value e = max 0 (-r.constraint.form.eval y.2.value) ∧
        (y.2.value r.marker = 0 ∨ y.2.value e = 0)) := by
  have hrun : (replay (fun _ _ o => o.isRepaired) 9
      [.newVariable false,
        .add ((Constraint.compare (.var ⟨0, .free⟩) .equal (.const 40)).withStrength .strong),
        .add ((Constraint.compare (.var ⟨0, .free⟩) .atLeast (.const 100)).withStrength .medium),
        .updateConstant ⟨0⟩ 60] ([], new)).any (fun y =>
      decide (y.2.tableau.candidates.members = [⟨4, .error⟩]) &&
        (y.2.record? ⟨0⟩).any fun r => r.constraint.isRequired == false &&
          decide ((r.errors.map y.2.value).sum = 40)) = true := by
    decide +kernel
  obtain ⟨y, hy, hcheck⟩ := (Option.any_eq_true _ _).1 hrun
  rw [Bool.and_eq_true, decide_eq_true_eq] at hcheck
  obtain ⟨r, hr, hrecord⟩ := (Option.any_eq_true _ _).1 hcheck.2
  rw [Bool.and_eq_true, decide_eq_true_eq, beq_iff_eq] at hrecord
  exact ⟨y, r, hy, hr, hrecord.1, hcheck.1, hrecord.2,
    errors_sum_violation (Reached.of_repaired hy) hr hrecord.1⟩

end Solver

end SoftSimplex
