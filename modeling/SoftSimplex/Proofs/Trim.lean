import Mathlib.Algebra.Order.Field.Rat
import Mathlib.Tactic.NormNum
import SoftSimplex.Proofs.TableauView
import SoftSimplex.Scalar.Exact

/-!
# No zero coefficients

A form is trim if it stores no zero coefficient, and a tableau if none of its forms does. Sums are
looked at before they are stored, and what is negligible is not; products are not looked at. So all
that is asked of the arithmetic is that what is not negligible is not zero and that factors that are
not zero have no zero product. The rationals are such, with a tolerance or without. A tolerance does
not bound the coefficients from below: a product may be smaller.
-/

namespace SoftSimplex

/-- What is not negligible is not zero, and neither is a product, nor a reciprocal, of such. -/
class Scalar.Sharp (α : Type) [Scalar α] : Prop where
  ne_zero_of_kept : ∀ {a : α}, negligible a = false → a ≠ 0
  mul_ne_zero : ∀ {a b : α}, a ≠ 0 → b ≠ 0 → a * b ≠ 0
  neg_one_ne_zero : (-1 : α) ≠ 0
  neg_one_div_ne_zero : ∀ {a : α}, a ≠ 0 → -1 / a ≠ 0

instance : Scalar.Sharp Rat where
  ne_zero_of_kept {a} h h0 := by
    rw [(Scalar.negligible_rat a).2 h0] at h
    cases h
  mul_ne_zero := mul_ne_zero
  neg_one_ne_zero := by norm_num
  neg_one_div_ne_zero h := div_ne_zero (by norm_num) h

instance : Scalar.Sharp Coarse where
  ne_zero_of_kept h h0 := by
    have hzero : Scalar.negligible (0 : Coarse) = true := by decide +kernel
    rw [h0, hzero] at h
    cases h
  mul_ne_zero {a b} ha hb := mul_ne_zero (a := a.toRat) (b := b.toRat) ha hb
  neg_one_ne_zero := show (-1 : Rat) ≠ 0 by norm_num
  neg_one_div_ne_zero {a} ha :=
    have hneg : (-1 : Rat) ≠ 0 := by norm_num
    div_ne_zero hneg (show a.toRat ≠ 0 from ha)

variable {α : Type} [Scalar α]

/-! ## Forms -/

namespace LinearForm

def Trim (f : LinearForm α) : Prop := ∀ v ∈ f.vars, f.coeff v ≠ 0

variable {f : LinearForm α}

theorem Trim.mem_iff (h : f.Trim) {v : Variable} : v ∈ f.vars ↔ f.coeff v ≠ 0 :=
  ⟨h v, mem_vars_of_coeff⟩

theorem trim_iff : f.Trim ↔ f.Stores fun c => c ≠ 0 := by
  constructor
  · intro h v c hc
    rw [← coeff_of_get? hc]
    exact h v (mem_vars_iff.2 ⟨c, hc⟩)
  · exact fun h v hv => h.coeff hv

theorem trim_const (k : α) : (const k).Trim := by
  intro v hv
  simp at hv

theorem trim_zero_form : (0 : LinearForm α).Trim := trim_const 0

theorem Trim.erase (h : f.Trim) (v : Variable) : (f.erase v).Trim :=
  trim_iff.2 ((trim_iff.1 h).erase v)

theorem Trim.shift (h : f.Trim) (k : α) : (f.shift k).Trim := h

variable [Scalar.Sharp α]

theorem Trim.scale (h : f.Trim) {k : α} (hk : k ≠ 0) : (f.scale k).Trim :=
  trim_iff.2 ((trim_iff.1 h).scale fun _ hc => Scalar.Sharp.mul_ne_zero hc hk)

/-- A sum is stored only if it is not negligible. -/
theorem Trim.addTerm (h : f.Trim) (v : Variable) (c : α) : (f.addTerm v c).Trim :=
  trim_iff.2 ((trim_iff.1 h).addTerm Scalar.Sharp.ne_zero_of_kept v c)

theorem Trim.addTerms (h : f.Trim) (ts : List (Variable × α)) : (f.addTerms ts).Trim :=
  trim_iff.2 ((trim_iff.1 h).addTerms Scalar.Sharp.ne_zero_of_kept ts)

theorem Trim.addScaled (h : f.Trim) (g : LinearForm α) (m : α) : (f.addScaled g m).Trim :=
  trim_iff.2 ((trim_iff.1 h).addScaled Scalar.Sharp.ne_zero_of_kept g m)

theorem Trim.negate (h : f.Trim) : f.negate.Trim := h.scale Scalar.Sharp.neg_one_ne_zero

theorem Trim.isolate (h : f.Trim) (v : Variable) : (f.isolate v).Trim :=
  trim_iff.2 ((trim_iff.1 h).isolate fun hv =>
    trim_iff.1 ((h.erase v).scale (Scalar.Sharp.neg_one_div_ne_zero (h v hv))))

theorem Trim.exchange (h : f.Trim) (old new : Variable) : (f.exchange old new).Trim :=
  (h.addTerm old (-1)).isolate new

theorem Trim.substitute (h : f.Trim) (v : Variable) (g : LinearForm α) :
    (f.substitute v g).Trim :=
  trim_iff.2 ((trim_iff.1 h).substitute Scalar.Sharp.ne_zero_of_kept v g)

end LinearForm

/-! ## Tableaus -/

namespace Tableau

structure Trim (t : Tableau α) : Prop where
  row : ∀ {b f}, t.row? b = some f → f.Trim
  objective : t.objective.Trim
  artificial : ∀ {g}, t.artificial = some g → g.Trim

variable {t t' : Tableau α}

theorem trim_empty : (∅ : Tableau α).Trim where
  row := by
    intro b f hf
    cases hf
  objective := LinearForm.trim_zero_form
  artificial := by
    intro g hg
    cases hg

theorem Trim.removeRow (h : t.Trim) (b : Variable) : (t.removeRow b).Trim where
  row := fun hf => h.row (row?_of_removeRow hf).2
  objective := by simpa using h.objective
  artificial := by
    intro g hg
    rw [artificial_removeRow] at hg
    exact h.artificial hg

theorem Trim.insertRow (h : t.Trim) (b : Variable) {f : LinearForm α} (hf : f.Trim) :
    (t.insertRow b f).Trim where
  row := by
    intro c g hg
    rw [row?_insertRow] at hg
    split at hg
    · cases hg
      exact hf
    · exact h.row hg
  objective := h.objective
  artificial := h.artificial

theorem Trim.removeColumn (h : t.Trim) (ht : t.Indexed) (v : Variable) :
    (t.removeColumn v).Trim where
  row := by
    intro b f hf
    rw [ht.row?_removeColumn, Option.map_eq_some_iff] at hf
    obtain ⟨f', hf', rfl⟩ := hf
    exact (h.row hf').erase v
  objective := h.objective.erase v
  artificial := by
    intro g hg
    obtain ⟨g', hg', rfl⟩ := Option.map_eq_some_iff.1 hg
    exact (h.artificial hg').erase v

theorem Trim.shiftConstant (h : t.Trim) (m : Variable) (δ : α) : (t.shiftConstant m δ).Trim := by
  obtain ⟨-, hobj, hart, -⟩ := shiftConstant_frame t m δ
  refine ⟨?_, hobj ▸ h.objective, hart ▸ h.artificial⟩
  intro b f hb
  rcases row?_shiftConstant t m δ b with h' | ⟨k, h'⟩
  · exact h.row (h' ▸ hb)
  · rw [h', Option.map_eq_some_iff] at hb
    obtain ⟨f', hf', rfl⟩ := hb
    exact (h.row hf').shift k

variable [Scalar.Sharp α]

theorem trim_accumulate {f : LinearForm α} (hf : f.Trim) (v : Variable) (c : α) :
    (t.accumulate f v c).Trim := by
  unfold accumulate
  cases t.row? v with
  | some row => exact hf.addScaled row c
  | none => exact hf.addTerm v c

theorem Trim.addCost (h : t.Trim) (v : Variable) (c : α) : (t.addCost v c).Trim where
  row := by
    intro b f hf
    rw [row?_addCost] at hf
    exact h.row hf
  objective := by
    rw [objective_addCost]
    exact trim_accumulate h.objective v c
  artificial := by
    intro g hg
    rw [artificial_addCost] at hg
    exact h.artificial hg

theorem Trim.substitute (h : t.Trim) (ht : t.Indexed) (v : Variable) (g : LinearForm α) :
    (t.substitute v g).Trim where
  row := by
    intro b f hf
    rw [ht.row?_substitute, Option.map_eq_some_iff] at hf
    obtain ⟨f', hf', rfl⟩ := hf
    exact (h.row hf').substitute v g
  objective := by
    rw [objective_substitute]
    exact h.objective.substitute v g
  artificial := by
    intro f hf
    rw [artificial_substitute, Option.map_eq_some_iff] at hf
    obtain ⟨f', hf', rfl⟩ := hf
    exact (h.artificial hf').substitute v g

theorem Trim.exchange (h : t.Trim) (ht : t.Indexed) {entry exit : Variable}
    (he : t.exchange entry exit = .ok t') : t'.Trim := by
  obtain ⟨row, hrow, -, rfl⟩ := exchange_eq_ok.1 he
  exact ((h.removeRow exit).substitute (ht.removeRow exit) _ _).insertRow _
    ((h.row hrow).exchange exit entry)

end Tableau

end SoftSimplex
