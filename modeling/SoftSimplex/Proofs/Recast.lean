import SoftSimplex.Proofs.Solutions
import SoftSimplex.Proofs.Tidy

/-!
# The same system in another basis

`Recast t' t` says that two tableaus have the same solutions, and on them the same objectives:
what a pass does to a tableau. `Measures t C` says that the objective is `C` up to a constant,
which is all that the choice of a least point needs. The stored constant of the objective is left
out on purpose: moving the constant of a constraint does not follow it.
-/

namespace SoftSimplex

open LinearForm

namespace Tableau

variable {V : Variable → Prop} {t t' t'' : Tableau Rat} {entry exit : Variable}

/-- The same solutions, and the same objectives on them. -/
structure Recast (t' t : Tableau Rat) : Prop where
  solves : ∀ σ, t'.Solves σ ↔ t.Solves σ
  objective : ∀ σ, t.Solves σ → t'.objective.eval σ = t.objective.eval σ
  artificial : ∀ σ, t.Solves σ → t'.artificial.map (·.eval σ) = t.artificial.map (·.eval σ)

theorem Recast.refl (t : Tableau Rat) : t.Recast t :=
  ⟨fun _ => Iff.rfl, fun _ _ => rfl, fun _ _ => rfl⟩

theorem Recast.trans (h₁ : t''.Recast t') (h₂ : t'.Recast t) : t''.Recast t where
  solves := fun σ => (h₁.solves σ).trans (h₂.solves σ)
  objective := fun σ hσ =>
    (h₁.objective σ ((h₂.solves σ).2 hσ)).trans (h₂.objective σ hσ)
  artificial := fun σ hσ =>
    (h₁.artificial σ ((h₂.solves σ).2 hσ)).trans (h₂.artificial σ hσ)

theorem Recast.of_frame (hrow : ∀ c, t'.row? c = t.row? c) (hobj : t'.objective = t.objective)
    (hart : t'.artificial = t.artificial) : t'.Recast t :=
  ⟨fun _ => solves_congr hrow, fun _ _ => by rw [hobj], fun _ _ => by rw [hart]⟩

/-- An exchange recasts the tableau. -/
theorem WellFormed.recast_exchange (h : t.WellFormed) (ht : t.Trim)
    (he : t.exchange entry exit = .ok t') : t'.Recast t := by
  refine ⟨fun σ => h.solves_exchange ht he, ?_, ?_⟩
  · intro σ hσ
    obtain ⟨row, hrow, hmem, -⟩ := exchange_eq_ok.1 he
    rw [objective_exchange hrow he]
    exact eval_substitute σ _ _ (h.exchange_value ht hrow hmem hσ)
  · intro σ hσ
    obtain ⟨row, hrow, hmem, rfl⟩ := exchange_eq_ok.1 he
    rw [artificial_insertRow, artificial_substitute, artificial_removeRow, Option.map_map]
    congr 1
    funext g
    exact eval_substitute σ _ _ (h.exchange_value ht hrow hmem hσ)

/-! ## What the objective measures -/

/-- On the solutions the objective is `C` up to a constant. -/
def Measures (t : Tableau Rat) (C : Assignment Rat → Rat) : Prop :=
  ∃ K, ∀ σ, t.Solves σ → C σ = K + t.objective.eval σ

variable {C : Assignment Rat → Rat}

theorem measures_empty : (∅ : Tableau Rat).Measures fun _ => 0 :=
  ⟨0, fun σ _ => by
    show 0 = 0 + (0 : LinearForm Rat).eval σ
    simp⟩

theorem Measures.congr {D : Assignment Rat → Rat} (h : t.Measures C) (hCD : ∀ σ, D σ = C σ) :
    t.Measures D := by
  obtain ⟨K, hK⟩ := h
  exact ⟨K, fun σ hσ => (hCD σ).trans (hK σ hσ)⟩

theorem Measures.recast (h : t.Measures C) (hr : t'.Recast t) : t'.Measures C := by
  obtain ⟨K, hK⟩ := h
  refine ⟨K, fun σ hσ => ?_⟩
  have hσ := (hr.solves σ).1 hσ
  rw [hr.objective σ hσ]
  exact hK σ hσ

theorem eval_accumulate {σ : Assignment Rat} (hσ : t.Solves σ) (f : LinearForm Rat)
    (v : Variable) (c : Rat) : (t.accumulate f v c).eval σ = f.eval σ + c * σ v := by
  unfold accumulate
  cases hrow : t.row? v with
  | some row =>
    simp only [eval_addScaled, ← hσ.row hrow]
    ring
  | none => simp

theorem Measures.addCost (h : t.Measures C) (v : Variable) (c : Rat) :
    (t.addCost v c).Measures fun σ => C σ + c * σ v := by
  obtain ⟨K, hK⟩ := h
  refine ⟨K, fun σ hσ => ?_⟩
  have hσ : t.Solves σ := (solves_congr fun b => row?_addCost t v b c).1 hσ
  have hC := hK σ hσ
  rw [objective_addCost, eval_accumulate hσ]
  show C σ + c * σ v = _
  linarith

theorem Measures.insertRow (h : t.Measures C) {b : Variable} (hb : t.row? b = none)
    (f : LinearForm Rat) : (t.insertRow b f).Measures C := by
  obtain ⟨K, hK⟩ := h
  exact ⟨K, fun σ hσ => hK σ ((solves_insertRow hb).1 hσ).1⟩

theorem Measures.insertSolved (h : t.Measures C) (ht : t.WellFormed) {v : Variable}
    {f : LinearForm Rat} (hv : t.row? v = none) (hc : f.coeff v ≠ 0) :
    ((t.substitute v (f.isolate v)).insertRow v (f.isolate v)).Measures C := by
  obtain ⟨K, hK⟩ := h
  refine ⟨K, fun σ hσ => ?_⟩
  obtain ⟨hσ, hf⟩ := (ht.solves_insertSolved hv hc).1 hσ
  rw [objective_insertRow, objective_substitute,
    eval_substitute σ _ _ ((eval_isolate_iff σ f hc).2 hf)]
  exact hK σ hσ

/-- A variable that `C` ignores may lose its row. -/
theorem Measures.removeRow (h : t.Measures C) (ht : t.WellFormed) {b : Variable}
    (hC : ∀ σ k, C (Function.update σ b k) = C σ) : (t.removeRow b).Measures C := by
  cases hb : t.row? b with
  | none =>
    unfold Tableau.removeRow
    simpa [hb] using h
  | some f =>
    obtain ⟨K, hK⟩ := h
    refine ⟨K, fun σ hσ => ?_⟩
    obtain ⟨k, hk⟩ := (ht.solves_removeRow hb).1 hσ
    have hout : b ∉ t.objective.vars := by
      intro hm
      rw [ht.objective_open hm] at hb
      cases hb
    rw [objective_removeRow, ← hC σ k, hK _ hk, eval_update_of_not_mem hout]

/-- A variable that `C` ignores may lose its column. -/
theorem Measures.removeColumn (h : t.Measures C) (ht : t.Indexed) {v : Variable}
    (hv : t.row? v = none) (hC : ∀ σ k, C (Function.update σ v k) = C σ) :
    (t.removeColumn v).Measures C := by
  obtain ⟨K, hK⟩ := h
  refine ⟨K, fun σ hσ => ?_⟩
  have hσ := (ht.solves_removeColumn hv).1 hσ
  have hobj : (t.removeColumn v).objective = t.objective.erase v := rfl
  rw [← hC σ 0, hK _ hσ, hobj, eval_erase, eval_update]
  ring

/-- Moving a constant moves what the objective measures by a constant. -/
theorem Measures.shiftConstant (h : t.Measures C) (ht : t.WellFormed) (m : Variable) (δ : Rat)
    {D : Assignment Rat → Rat} {d : Rat}
    (hD : ∀ σ, D σ = C (Function.update σ m (σ m - δ)) + d) :
    (t.shiftConstant m δ).Measures D := by
  obtain ⟨K, hK⟩ := h
  obtain ⟨-, hobj, -, -⟩ := shiftConstant_frame t m δ
  refine ⟨K + d - t.objective.coeff m * δ, fun σ hσ => ?_⟩
  have hσ := (ht.solves_shiftConstant m δ).1 hσ
  rw [hD, hK _ hσ, hobj, eval_update]
  ring

end Tableau

end SoftSimplex
