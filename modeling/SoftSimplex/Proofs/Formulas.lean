import SoftSimplex.Proofs.Construction

/-!
# What a formula comes to

Every operator has a version for each kind of operands, and none of them changes what the operator
means, so the form of a formula has the value that was written. A coefficient is the difference of
two values, hence the coefficient of a variable is the total of what the formula says of it. As sums
are looked at before they are stored, a variable whose occurrences cancel out is not listed, unless
a factor zero or a form that came with a stored zero let one in.
-/

namespace SoftSimplex

/-! ## Read off the formula -/

def Operand.total (v : Variable) : Operand Rat → Rat
  | .number _ => 0
  | .var w => if w = v then 1 else 0
  | .form f => f.coeff v

namespace Formula

/-- The coefficient of `v`, all its occurrences taken together. -/
def total (v : Variable) : Formula Rat → Rat
  | .operand o => o.total v
  | .add a b | .addAssign a b => a.total v + b.total v
  | .sub a b | .subAssign a b => a.total v - b.total v
  | .scale a k | .scaleAssign a k => a.total v * k
  | .divide a k => a.total v / k
  | .neg a => -a.total v

def factors : Formula Rat → List Rat
  | .operand _ => []
  | .add a b | .addAssign a b | .sub a b | .subAssign a b => a.factors ++ b.factors
  | .scale a k | .scaleAssign a k | .divide a k => k :: a.factors
  | .neg a => a.factors

def forms : Formula Rat → List (LinearForm Rat)
  | .operand (.form f) => [f]
  | .operand _ => []
  | .add a b | .addAssign a b | .sub a b | .subAssign a b => a.forms ++ b.forms
  | .scale a _ | .scaleAssign a _ | .divide a _ | .neg a => a.forms

end Formula

/-! ## Values -/

namespace Operand

variable (σ : Assignment Rat)

@[simp] theorem eval_toForm (o : Operand Rat) : o.toForm.eval σ = o.eval σ := by
  cases o with
  | number k => exact LinearForm.eval_const σ k
  | var v => exact LinearForm.eval_var σ v
  | form f => rfl

@[simp] theorem eval_plus (f : LinearForm Rat) (o : Operand Rat) :
    (f.plus o).eval σ = f.eval σ + o.eval σ := by
  cases o with
  | number k => exact LinearForm.eval_shift σ f k
  | var v => exact (LinearForm.eval_addTerm σ f v 1).trans (by rw [one_mul]; rfl)
  | form g => exact (LinearForm.eval_addScaled σ f g 1).trans (by rw [mul_one]; rfl)

@[simp] theorem eval_minus (f : LinearForm Rat) (o : Operand Rat) :
    (f.minus o).eval σ = f.eval σ - o.eval σ := by
  rw [sub_eq_add_neg]
  cases o with
  | number k => exact LinearForm.eval_shift σ f (-k)
  | var v => exact (LinearForm.eval_addTerm σ f v (-1)).trans (by rw [neg_one_mul]; rfl)
  | form g => exact (LinearForm.eval_addScaled σ f g (-1)).trans (by rw [mul_neg_one]; rfl)

@[simp] theorem eval_scale (o : Operand Rat) (k : Rat) :
    (o.scale k).eval σ = o.eval σ * k := by
  cases o with
  | number c => exact (LinearForm.eval_scale σ (.const c) k).trans (by simp [eval])
  | var v => exact (LinearForm.eval_term σ v k).trans (mul_comm _ _)
  | form f => exact LinearForm.eval_scale σ f k

variable (a b : Operand Rat) (k : Rat)

@[simp] theorem eval_add : (a.add b).eval σ = a.eval σ + b.eval σ := by
  have hform : (a.toForm.plus b).eval σ = a.eval σ + b.eval σ := by simp
  unfold add
  split
  · rfl
  · exact hform

@[simp] theorem eval_sub : (a.sub b).eval σ = a.eval σ - b.eval σ := by
  have hform : (a.toForm.minus b).eval σ = a.eval σ - b.eval σ := by simp
  unfold sub
  split
  · rfl
  · exact hform

@[simp] theorem eval_times : (a.times k).eval σ = a.eval σ * k := by
  unfold times
  split
  · rfl
  · exact eval_scale σ _ k

@[simp] theorem eval_divided : (a.divided k).eval σ = a.eval σ / k := by
  unfold divided
  split
  · rfl
  · exact (eval_scale σ _ _).trans (mul_one_div _ _)

@[simp] theorem eval_opposite : a.opposite.eval σ = -a.eval σ := by
  unfold opposite
  split
  · rfl
  · exact (eval_scale σ _ _).trans (mul_neg_one _)

end Operand

namespace Formula

theorem eval_value (a : Formula Rat) (σ : Assignment Rat) : a.value.eval σ = a.eval σ := by
  have hform : ∀ f : LinearForm Rat, (Operand.form f).eval σ = f.eval σ := fun _ => rfl
  induction a with
  | operand o => rfl
  | add a b iha ihb | sub a b iha ihb => simp [value, eval, iha, ihb]
  | addAssign a b iha ihb | subAssign a b iha ihb => simp [value, eval, hform, iha, ihb]
  | scale a k ih | divide a k ih | neg a ih => simp [value, eval, ih]
  | scaleAssign a k ih => simp [value, eval, hform, ih]

theorem eval_toForm (a : Formula Rat) (σ : Assignment Rat) : a.toForm.eval σ = a.eval σ :=
  (Operand.eval_toForm σ a.value).trans (a.eval_value σ)

end Formula

/-! ## Coefficients -/

theorem Operand.total_eq_eval (o : Operand Rat) (v : Variable) :
    o.total v = o.eval (LinearForm.unit v) - o.eval fun _ => 0 := by
  cases o with
  | number k => exact (sub_self k).symm
  | var w => exact (sub_zero _).symm
  | form f => exact f.coeff_eq_eval v

namespace Formula

theorem total_eq_eval (a : Formula Rat) (v : Variable) :
    a.total v = a.eval (LinearForm.unit v) - a.eval fun _ => 0 := by
  induction a with
  | operand o => exact o.total_eq_eval v
  | add a b iha ihb | addAssign a b iha ihb | sub a b iha ihb | subAssign a b iha ihb =>
    rw [total, eval, eval, iha, ihb]
    ring
  | scale a k ih | scaleAssign a k ih | divide a k ih | neg a ih =>
    rw [total, eval, eval, ih]
    ring

theorem coeff_toForm (a : Formula Rat) (v : Variable) : a.toForm.coeff v = a.total v := by
  rw [LinearForm.coeff_eq_eval, eval_toForm, eval_toForm, total_eq_eval]

end Formula

/-! ## Variables -/

namespace LinearForm

variable {f : LinearForm Rat} (h : f.Trim) (o : Operand Rat)
include h

theorem Trim.plus : (f.plus o).Trim := by
  cases o with
  | number k => exact h.shift k
  | var v => exact h.addTerm v 1
  | form g => exact h.addScaled g 1

theorem Trim.minus : (f.minus o).Trim := by
  cases o with
  | number k => exact h.shift (-k)
  | var v => exact h.addTerm v (-1)
  | form g => exact h.addScaled g (-1)

end LinearForm

namespace Operand

variable {a : Operand Rat} (h : a.toForm.Trim) (b : Operand Rat)
include h

theorem trim_scale {k : Rat} (hk : k ≠ 0) : (a.scale k).Trim := by
  cases a with
  | number c => exact h.scale hk
  | var v => exact LinearForm.trim_zero_form.addTerm v k
  | form f => exact h.scale hk

theorem trim_add : (a.add b).toForm.Trim := by
  have hform := h.plus b
  unfold add
  split
  · exact LinearForm.trim_const _
  · exact hform

theorem trim_sub : (a.sub b).toForm.Trim := by
  have hform := h.minus b
  unfold sub
  split
  · exact LinearForm.trim_const _
  · exact hform

variable {k : Rat} (hk : k ≠ 0)

include hk in
theorem trim_times : (a.times k).toForm.Trim := by
  unfold times
  split
  · exact LinearForm.trim_const _
  · exact trim_scale h hk

include hk in
theorem trim_divided : (a.divided k).toForm.Trim := by
  unfold divided
  split
  · exact LinearForm.trim_const _
  · exact trim_scale h (one_div_ne_zero hk)

theorem trim_opposite : a.opposite.toForm.Trim := by
  unfold opposite
  split
  · exact LinearForm.trim_const _
  · exact trim_scale h Scalar.Sharp.neg_one_ne_zero

end Operand

namespace Formula

/-- Without the factor zero, a formula over forms that store no zero stores none. -/
theorem trim_toForm (a : Formula Rat) (hfactors : ∀ k ∈ a.factors, k ≠ 0)
    (hforms : ∀ f ∈ a.forms, f.Trim) : a.toForm.Trim := by
  -- What is added is looked at term by term, so only the left part of a sum has to be trim.
  have hleft : ∀ {a b : Formula Rat},
      ((∀ k ∈ a.factors, k ≠ 0) → (∀ f ∈ a.forms, f.Trim) → a.toForm.Trim) →
      (∀ k ∈ a.factors ++ b.factors, k ≠ 0) → (∀ f ∈ a.forms ++ b.forms, f.Trim) →
      a.toForm.Trim :=
    fun ih hk hf => ih (List.forall_mem_append.1 hk).1 (List.forall_mem_append.1 hf).1
  induction a with
  | operand o =>
    cases o with
    | number k => exact LinearForm.trim_const k
    | var v => exact LinearForm.trim_zero_form.addTerm v 1
    | form f => exact hforms f (List.mem_singleton_self f)
  | add a b ih _ => exact Operand.trim_add (hleft ih hfactors hforms) b.value
  | sub a b ih _ => exact Operand.trim_sub (hleft ih hfactors hforms) b.value
  | addAssign a b ih _ => exact (hleft ih hfactors hforms).plus b.value
  | subAssign a b ih _ => exact (hleft ih hfactors hforms).minus b.value
  | scale a k ih =>
    obtain ⟨hk, hfactors⟩ := List.forall_mem_cons.1 hfactors
    exact Operand.trim_times (ih hfactors hforms) hk
  | divide a k ih =>
    obtain ⟨hk, hfactors⟩ := List.forall_mem_cons.1 hfactors
    exact Operand.trim_divided (ih hfactors hforms) hk
  | scaleAssign a k ih =>
    obtain ⟨hk, hfactors⟩ := List.forall_mem_cons.1 hfactors
    exact (ih hfactors hforms).scale hk
  | neg a ih => exact Operand.trim_opposite (ih hfactors hforms)

/-- The form of a formula has the value of the formula read as arithmetic, whatever the variables
stand for. It lists every variable at most once, with its total in the formula as coefficient; and
if no factor is zero and no form in the formula stores a zero, as none does that was built without
the factor zero, it lists exactly those whose total is not zero. -/
theorem toForm_as_written (a : Formula Rat) :
    (∀ σ, a.toForm.eval σ = a.eval σ) ∧
    a.toForm.vars.Nodup ∧
    (∀ v, a.toForm.coeff v = a.total v) ∧
    ((∀ k ∈ a.factors, k ≠ 0) → (∀ f ∈ a.forms, f.Trim) →
      ∀ v, v ∈ a.toForm.vars ↔ a.total v ≠ 0) := by
  refine ⟨a.eval_toForm, a.toForm.terms.nodup, a.coeff_toForm, fun hfactors hforms v => ?_⟩
  rw [(a.trim_toForm hfactors hforms).mem_iff, coeff_toForm]

/-- In `((x + y - x) * 4 / 2 += f -= -(10 - y)) *= 3` with `x / 2 - y` for `f`, first `x` and then
`y` cancel out; `x` comes back with `f`. -/
theorem toForm_of_cancelling :
    ∃ (a : Formula Rat) (x y : Variable), (∀ k ∈ a.factors, k ≠ 0) ∧ (∀ f ∈ a.forms, f.Trim) ∧
      a.toForm.vars = [x] ∧ a.total x = 3 / 2 ∧ a.total y = 0 ∧ y ∉ a.toForm.vars ∧
      ∀ σ, a.toForm.eval σ = 3 / 2 * σ x + 30 := by
  let x : Variable := ⟨0, .free⟩
  let y : Variable := ⟨1, .free⟩
  let f : LinearForm Rat := (LinearForm.term x (1 / 2)).addTerm y (-1)
  let doubled : Formula Rat :=
    .divide (.scale (.sub (.add (.operand (.var x)) (.operand (.var y))) (.operand (.var x))) 4) 2
  let opposite : Formula Rat := .neg (.sub (.operand (.number 10)) (.operand (.var y)))
  let a : Formula Rat :=
    .scaleAssign (.subAssign (.addAssign doubled (.operand (.form f))) opposite) 3
  have hfactors : ∀ k ∈ a.factors, k ≠ 0 := by decide +kernel
  have hforms : ∀ g ∈ a.forms, g.Trim := by
    intro g hg
    obtain rfl : g = f := List.mem_singleton.1 hg
    exact (LinearForm.Built.addTerm y (-1) (.term x (1 / 2))).trim
  obtain ⟨hvalue, -, -, hlisted⟩ := toForm_as_written a
  have hy : a.total y = 0 := by decide +kernel
  refine ⟨a, x, y, hfactors, hforms, by decide +kernel, by decide +kernel, hy,
    fun hmem => (hlisted hfactors hforms y).1 hmem hy, fun σ => ?_⟩
  rw [hvalue]
  have hf : f.eval σ = 1 / 2 * σ x - σ y := by
    rw [LinearForm.eval_addTerm, LinearForm.eval_term]
    ring
  show ((σ x + σ y - σ x) * 4 / 2 + f.eval σ - -(10 - σ y)) * 3 = _
  rw [hf]
  ring

end Formula

end SoftSimplex
