import SoftSimplex.Proofs.Feasibility
import SoftSimplex.Proofs.Recast
import SoftSimplex.Proofs.Steps

/-!
# What the passes do

Over the rationals each pass keeps the system the tableau stands for, by induction over its steps,
and the state it stops in says why it stopped: no candidate, no way down, no row left to repair,
or a row that nothing can raise.
-/

namespace SoftSimplex

namespace Tableau

variable {V : Variable → Prop} {t t' t'' : Tableau Rat}

/-! ## What a pass keeps -/

/-- Another tableau for the same system, as tidy as the first. -/
structure Keeps (V : Variable → Prop) (t t' : Tableau Rat) : Prop where
  tidy : t'.Tidy V
  recast : t'.Recast t
  freeApart : t.FreeApart → t'.FreeApart

theorem Tidy.keeps_refl (h : t.Tidy V) : Keeps V t t := ⟨h, Recast.refl t, id⟩

theorem Keeps.trans (h₁ : Keeps V t t') (h₂ : Keeps V t' t'') : Keeps V t t'' :=
  ⟨h₂.tidy, h₂.recast.trans h₁.recast, fun hf => h₂.freeApart (h₁.freeApart hf)⟩

/-- The first phase begins and ends outside the passes. -/
theorem Keeps.artificial_none (h : Keeps V t t') (ht : t.Tidy V) (ha : t.artificial = none) :
    t'.artificial = none := by
  have hpoint := h.recast.artificial _ ht.wellFormed.solves_point
  rw [ha] at hpoint
  exact Option.map_eq_none_iff.1 hpoint

theorem Tidy.keeps_withQueue (h : t.Tidy V) {q : Roster Variable}
    (hq : ∀ b ∈ q.keys, b ∈ t.queue.keys) : Keeps V t { t with queue := q } :=
  ⟨h.withQueue hq, .of_frame (fun _ => rfl) rfl rfl, fun hf => hf.of_rows fun _ => rfl⟩

theorem Tidy.keeps_exchange (hV : Numbered V) (h : t.Tidy V) {entry exit : Variable}
    (hr : exit.isRestricted = true) (he : t.exchange entry exit = .ok t') : Keeps V t t' :=
  ⟨h.exchange hV he, h.wellFormed.recast_exchange h.trim he,
    fun hf => hf.exchange h.wellFormed.indexed hr he⟩

/-! ## The primal passes -/

/-- What a primal step does on top: no restricted row becomes negative. -/
structure Improves (V : Variable → Prop) (t t' : Tableau Rat) : Prop extends Keeps V t t' where
  feasible : t.Feasible → t'.Feasible

theorem Tidy.improves_refl (h : t.Tidy V) : Improves V t t := ⟨h.keeps_refl, id⟩

theorem Improves.trans (h₁ : Improves V t t') (h₂ : Improves V t' t'') : Improves V t t'' :=
  ⟨h₁.toKeeps.trans h₂.toKeeps, fun hf => h₂.feasible (h₁.feasible hf)⟩

theorem profitable_iff {v : Variable} :
    t.profitable v = true ↔ v.mayEnter = true ∧ t.objective.coeff v < 0 := by
  unfold profitable
  rw [Bool.and_eq_true]
  cases hv : t.objective.terms.get? v with
  | none =>
    rw [LinearForm.coeff_eq, hv]
    simp
  | some c =>
    rw [LinearForm.coeff_of_get? hv]
    simp [Scalar.isNeg_rat]

theorem Tidy.improves_exchange (hV : Numbered V) (h : t.Tidy V) {entry exit : Variable}
    (hx : t.tightest? entry = some exit) (he : t.exchange entry exit = .ok t') :
    Improves V t t' := by
  obtain ⟨hr, -⟩ := h.wellFormed.indexed.row_of_tightest? hx
  exact ⟨h.keeps_exchange hV hr he, fun hf => hf.exchange_tightest h.wellFormed hx he⟩

theorem Tidy.descend_meets (hV : Numbered V) (h : t.Tidy V) (chosen : Option Variable) :
    (t.descend chosen).Meets (Improves V t) (fun u => Improves V t u ∧ u = t ∧ chosen = none)
      fun u f => Improves V t u ∧ f = .unbounded := by
  apply (h.wellFormed.indexed.descend_meets chosen).mono
  · rintro u ⟨entry, exit, -, hx, he⟩
    exact h.improves_exchange hV hx he
  · rintro u ⟨rfl, hnone⟩
    exact ⟨h.improves_refl, rfl, hnone⟩
  · rintro u f ⟨rfl, hf, -⟩
    exact ⟨h.improves_refl, hf⟩

/-- A step down the objective: no candidate, a way down without end, or an exchange. -/
theorem Tidy.objectiveStep_meets (hV : Numbered V) (h : t.Tidy V) :
    t.objectiveStep.Meets (Improves V t) (fun u => Improves V t u ∧ u.candidates.members = [])
      fun u f => Improves V t u ∧ f = .unbounded := by
  rw [h.orderly.objectiveStep_eq]
  apply (h.descend_meets hV _).mono (fun _ hu => hu) _ fun _ _ hu => hu
  rintro u ⟨hu, rfl, hnone⟩
  exact ⟨hu, List.head?_eq_none_iff.1 hnone⟩

/-- Minimising keeps the system; if it ends well, nothing is left that lowers the objective. -/
theorem Tidy.minimize_meets (hV : Numbered V) (h : t.Tidy V) {n : Nat} {p : Pass Rat}
    (hp : t.minimize n = some p) :
    p.Meets (fun u => Improves V t u ∧ u.candidates.members = [])
      fun u f => Improves V t u ∧ f = .unbounded := by
  apply iterate_meets (I := Improves V t) _ h.improves_refl hp
  intro u hu
  apply (hu.tidy.objectiveStep_meets hV).mono
  · exact fun u' hu' => hu.trans hu'
  · exact fun u' hu' => ⟨hu.trans hu'.1, hu'.2⟩
  · exact fun u' f hu' => ⟨hu.trans hu'.1, hu'.2⟩

/-- The variables that may enter and lower the artificial objective. -/
theorem mem_artificialEntries {g : LinearForm Rat} (hg : t.artificial = some g) {v : Variable} :
    v ∈ t.artificialEntries ↔ v.mayEnter = true ∧ g.coeff v < 0 := by
  rw [mem_artificialEntries_iff hg, Scalar.isNeg_rat]
  refine and_congr_right' (and_iff_right_of_imp fun hneg => ?_)
  exact LinearForm.mem_vars_of_coeff (ne_of_lt hneg)

theorem Tidy.artificialStep_meets (hV : Numbered V) (h : t.Tidy V) :
    t.artificialStep.Meets (Improves V t) (fun u => Improves V t u ∧ u.artificialEntries = [])
      fun u f => Improves V t u ∧ f = .unbounded := by
  rw [h.orderly.artificialStep_eq hV]
  apply (h.descend_meets hV _).mono (fun _ hu => hu) _ fun _ _ hu => hu
  rintro u ⟨hu, rfl, hnone⟩
  exact ⟨hu, Variable.lowest?_eq_none.1 hnone⟩

/-- The first phase keeps the system; if it ends well, nothing lowers the artificial objective. -/
theorem Tidy.minimizeArtificial_meets (hV : Numbered V) (h : t.Tidy V) {n : Nat} {p : Pass Rat}
    (hp : t.minimizeArtificial n = some p) :
    p.Meets (fun u => Improves V t u ∧ u.artificialEntries = [])
      fun u f => Improves V t u ∧ f = .unbounded := by
  apply iterate_meets (I := Improves V t) _ h.improves_refl hp
  intro u hu
  apply (hu.tidy.artificialStep_meets hV).mono
  · exact fun u' hu' => hu.trans hu'
  · exact fun u' hu' => ⟨hu.trans hu'.1, hu'.2⟩
  · exact fun u' f hu' => ⟨hu.trans hu'.1, hu'.2⟩

/-! ## The dual pass -/

/-- A row that has to rise and that nothing can raise. -/
def Stuck (t : Tableau Rat) : Prop :=
  ∃ b row, t.row? b = some row ∧ b.isRestricted = true ∧ row.constant < 0 ∧
    ∀ v ∈ row.vars, v.mayEnter = true → row.coeff v ≤ 0

theorem isSettled_iff {b : Variable} :
    t.isSettled b = true ↔ ∀ row, t.row? b = some row → 0 ≤ row.constant := by
  unfold isSettled
  cases t.row? b <;> simp

/-- A repairing step keeps the system, or is stuck at a row that cannot be raised. -/
theorem Tidy.repairStep_meets (hV : Numbered V) (h : t.Tidy V) :
    t.repairStep.Meets (Keeps V t) (Keeps V t) fun u _ => Keeps V t u ∧ u.Stuck := by
  apply h.wellFormed.repairStep_meets.mono
  · rintro u ⟨q, exit, row, entry, hq, -, -, hr, -, -, he⟩
    have hk := h.keeps_withQueue hq
    exact hk.trans (hk.tidy.keeps_exchange hV hr he)
  · rintro u ⟨-, rfl⟩
    exact h.keeps_withQueue fun b hb => by cases hb
  · rintro u f ⟨-, q, exit, row, hq, hrow, hr, hset, hx, rfl⟩
    have hneg : row.constant < 0 := by
      rw [Bool.eq_false_iff, Ne, isSettled_iff] at hset
      by_contra hnn
      exact hset fun g hg => Option.some.inj (hrow.symm.trans hg) ▸ not_lt.1 hnn
    refine ⟨h.keeps_withQueue hq, exit, row, hrow, hr, hneg, fun v hv hm => ?_⟩
    exact cheapest?_eq_none.1 hx v hm hv

/-- Repairing keeps the system. Where every negative row was queued, it leaves none, unless it
meets one that nothing can raise. -/
theorem Tidy.repair_meets (hV : Numbered V) (h : t.Tidy V) {n : Nat} {p : Pass Rat}
    (hp : t.repair n = some p) :
    p.Meets (fun u => Keeps V t u ∧ (t.Watched → u.Feasible))
      fun u f => (Keeps V t u ∧ u.Stuck) ∧ f = .fault .noRepair := by
  have hkeeps : p.Meets (Keeps V t) fun u _ => Keeps V t u ∧ u.Stuck := by
    apply iterate_meets (I := Keeps V t) _ h.keeps_refl hp
    intro u hu
    apply (hu.tidy.repairStep_meets hV).mono
    · exact fun u' hu' => hu.trans hu'
    · exact fun u' hu' => hu.trans hu'
    · exact fun u' f hu' => ⟨hu.trans hu'.1, hu'.2⟩
  apply (hkeeps.and (h.wellFormed.repair_attends Scalar.raises_rat hp)).mono
  · exact fun u hu => ⟨hu.1, fun hw => hw.feasible hu.2.1 hu.2.2⟩
  · exact fun u f hu => hu

end Tableau

end SoftSimplex
