import SoftSimplex.Proofs.FormValue

/-!
# Forms with a tolerance

Coarse numbers are rationals that are dropped below a bound. Forms over them differ from forms over
the rationals in one operation only: where a term is added, the sum is stored or, if it is below the
bound, dropped. Products are not looked at, so that a stored coefficient may be below the bound.
-/

namespace SoftSimplex

namespace Coarse

theorem bound_pos : 0 < bound := by
  unfold bound
  norm_num

end Coarse

namespace Scalar

theorem negligible_coarse {c : Coarse} : negligible c = true ↔ |c.toRat| < Coarse.bound := by
  show (decide (-Coarse.bound < c.toRat) && decide (c.toRat < Coarse.bound)) = true ↔ _
  rw [Bool.and_eq_true, decide_eq_true_eq, decide_eq_true_eq, abs_lt]

theorem bound_le_of_kept {c : Coarse} (h : negligible c = false) :
    Coarse.bound ≤ |c.toRat| := by
  rw [← Bool.not_eq_true, negligible_coarse] at h
  exact not_lt.1 h

end Scalar

namespace LinearForm

/-! ## Kept coefficients -/

section Kept

variable {α : Type} [Scalar α] {f : LinearForm α}

def Substantial (f : LinearForm α) : Prop :=
  ∀ v c, f.terms.get? v = some c → Scalar.negligible c = false

theorem substantial_iff : f.Substantial ↔ f.Stores fun c => Scalar.negligible c = false := Iff.rfl

theorem substantial_const (k : α) : (const k).Substantial := substantial_iff.2 (stores_const _ k)

theorem Substantial.coeff (h : f.Substantial) {v : Variable} (hv : v ∈ f.vars) :
    Scalar.negligible (f.coeff v) = false :=
  (substantial_iff.1 h).coeff hv

theorem Substantial.addTerm (h : f.Substantial) (v : Variable) (c : α) :
    (f.addTerm v c).Substantial :=
  substantial_iff.2 ((substantial_iff.1 h).addTerm id v c)

theorem Substantial.addTerms (h : f.Substantial) (ts : List (Variable × α)) :
    (f.addTerms ts).Substantial :=
  substantial_iff.2 ((substantial_iff.1 h).addTerms id ts)

theorem Substantial.addScaled (h : f.Substantial) (g : LinearForm α) (m : α) :
    (f.addScaled g m).Substantial :=
  substantial_iff.2 ((substantial_iff.1 h).addScaled id g m)

end Kept

/-! ## The same forms over the rationals -/

def toRat (f : LinearForm Coarse) : LinearForm Rat := f

variable (f : LinearForm Coarse)

@[simp] theorem vars_toRat : f.toRat.vars = f.vars := rfl

@[simp] theorem coeff_toRat (v : Variable) : f.toRat.coeff v = (f.coeff v).toRat := rfl

@[simp] theorem toRat_erase (v : Variable) : (f.erase v).toRat = f.toRat.erase v := rfl

@[simp] theorem toRat_shift (k : Coarse) : (f.shift k).toRat = f.toRat.shift k.toRat := rfl

/-- The sum is dropped or stored. -/
theorem addTerm_dropped_or_stored (v : Variable) (c : Coarse) :
    (f.addTerm v c = f.erase v ∧ |(f.coeff v + c).toRat| < Coarse.bound) ∨
      f.addTerm v c = { f with terms := f.terms.insert v (f.coeff v + c) } := by
  unfold addTerm
  cases hf : f.terms.get? v with
  | some old =>
    rw [coeff_of_get? hf]
    by_cases hn : Scalar.negligible (old + c) = true
    · exact .inl ⟨if_pos hn, Scalar.negligible_coarse.1 hn⟩
    · exact .inr (if_neg hn)
  | none =>
    have hv : v ∉ f.vars := Table.get?_eq_none_iff.1 hf
    have hsum : f.coeff v + c = c := by
      rw [coeff_of_not_mem hv]
      exact zero_add c.toRat
    rw [hsum]
    by_cases hn : Scalar.negligible c = true
    · have hgone : f.erase v = f := by
        unfold erase
        rw [Table.swapErase_of_not_mem hv]
      exact .inl ⟨(if_pos hn).trans hgone.symm, Scalar.negligible_coarse.1 hn⟩
    · exact .inr (if_neg hn)

end LinearForm

end SoftSimplex
