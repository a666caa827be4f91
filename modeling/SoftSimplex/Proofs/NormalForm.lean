import SoftSimplex.Constraint
import SoftSimplex.Proofs.FormValue

/-!
# Constraints as written

A constraint keeps one form, which has to be zero or at least zero, and the relation as written. The
form is the difference of the two sides times the sign of the relation, and the constant on the
right-hand side is read and written with that sign; here is all that the sign is good for. However a
constraint was made and edited since, it says what was written: that the terms of the left-hand side
less those of the right-hand side stand in the relation to its constant.
-/

namespace SoftSimplex

open LinearForm

namespace Relation

def sign : Relation → Rat
  | .atMost => -1
  | .equal | .atLeast => 1

theorem sign_mul_cancel (r : Relation) (a : Rat) : r.sign * (r.sign * a) = a := by
  cases r with
  | atMost => simp [sign]
  | equal => simp [sign]
  | atLeast => simp [sign]

end Relation

namespace Constraint

/-- `c` was made from `lhs relation rhs`, and may have been given other strengths and constants
since. -/
inductive Stems {α : Type} [Scalar α] (lhs : LinearForm α) (relation : Relation)
    (rhs : LinearForm α) : Constraint α → Prop
  | compare : Stems lhs relation rhs (.compare lhs relation rhs)
  | against0 (s : Strength α) : rhs = 0 → Stems lhs relation rhs (.against0 lhs relation s)
  | withStrength {c : Constraint α} (s : Strength α) :
      Stems lhs relation rhs c → Stems lhs relation rhs (c.withStrength s)
  | withRightSide {c : Constraint α} (k : α) :
      Stems lhs relation rhs c → Stems lhs relation rhs (c.withRightSide k)

variable {c : Constraint Rat} {lhs rhs : LinearForm Rat} {relation : Relation}
variable {σ : Assignment Rat} {k : Rat}

/-! ## The constant on the right-hand side -/

theorem constantFor_eq (c : Constraint Rat) (k : Rat) :
    c.constantFor k = -(c.relation.sign * k) := by
  unfold constantFor
  cases c.relation with
  | atMost => simp [Relation.sign]
  | equal => simp [Relation.sign]
  | atLeast => simp [Relation.sign]

theorem rightSide_eq (c : Constraint Rat) :
    c.rightSide = -(c.relation.sign * c.form.constant) := by
  unfold rightSide
  cases c.relation with
  | atMost => simp [Relation.sign]
  | equal => simp [Relation.sign]
  | atLeast => simp [Relation.sign]

/-- Writing the constant that was read changes nothing. -/
theorem constantFor_rightSide (c : Constraint Rat) :
    c.constantFor c.rightSide = c.form.constant := by
  rw [constantFor_eq, rightSide_eq, mul_neg, neg_neg, Relation.sign_mul_cancel]

/-- What was written is read. -/
theorem rightSide_withRightSide (c : Constraint Rat) (k : Rat) :
    (c.withRightSide k).rightSide = k := by
  have hconstant : (c.withRightSide k).form.constant = -(c.relation.sign * k) := constantFor_eq c k
  have hrelation : (c.withRightSide k).relation = c.relation := rfl
  rw [rightSide_eq, hconstant, hrelation, mul_neg, neg_neg, Relation.sign_mul_cancel]

/-- An edit moves the constant by the difference that rows are shifted by. -/
theorem form_withRightSide (c : Constraint Rat) (k : Rat) :
    (c.withRightSide k).form = c.form.shift (c.constantFor k - c.form.constant) := by
  ext
  · exact (add_sub_cancel _ _).symm
  · rfl

/-! ## What a constraint says -/

instance (c : Constraint Rat) (σ : Assignment Rat) : Decidable (c.Holds σ) :=
  inferInstanceAs (Decidable (if c.isInequality then Scalar.isNonneg (c.form.eval σ) = true
    else Scalar.eq (c.form.eval σ) 0 = true))

theorem holds_iff :
    c.Holds σ ↔ if c.isInequality then 0 ≤ c.form.eval σ else c.form.eval σ = 0 := by
  unfold Holds
  simp only [Scalar.isNonneg_rat, Scalar.eq_rat]

/-- A form that is a difference with the right sign says how its two sides compare. -/
theorem holds_iff_of_eval {a b : Rat} (h : c.form.eval σ = c.relation.sign * (a - b)) :
    c.Holds σ ↔ c.relation.Holds a b := by
  rw [holds_iff, h]
  unfold isInequality
  cases c.relation with
  | atMost =>
    show 0 ≤ -1 * (a - b) ↔ Scalar.le a b = true
    rw [Scalar.le_rat, neg_one_mul, neg_sub, sub_nonneg]
  | equal =>
    show 1 * (a - b) = 0 ↔ Scalar.eq a b = true
    rw [Scalar.eq_rat, one_mul, sub_eq_zero]
  | atLeast =>
    show 0 ≤ 1 * (a - b) ↔ Scalar.ge a b = true
    rw [Scalar.ge_rat, one_mul, sub_nonneg]

theorem eval_against0 (f : LinearForm Rat) (relation : Relation) (s : Strength Rat)
    (σ : Assignment Rat) : (against0 f relation s).form.eval σ = relation.sign * f.eval σ := by
  cases relation with
  | atMost =>
    show f.negate.eval σ = -1 * f.eval σ
    rw [eval_negate, neg_one_mul]
  | equal => exact (one_mul _).symm
  | atLeast => exact (one_mul _).symm

theorem eval_compare (lhs : LinearForm Rat) (relation : Relation) (rhs : LinearForm Rat)
    (σ : Assignment Rat) : (compare lhs relation rhs).form.eval σ =
      relation.sign * (lhs.eval σ - rhs.eval σ) := by
  unfold compare
  rw [eval_against0, eval_addScaled]
  ring

/-- A comparison holds where its sides compare in that way. -/
theorem holds_compare {f g : LinearForm Rat} {relation : Relation} {σ : Assignment Rat} :
    (compare f relation g).Holds σ ↔ relation.Holds (f.eval σ) (g.eval σ) :=
  holds_iff_of_eval (eval_compare f relation g σ)

theorem holds_against0 {f : LinearForm Rat} {s : Strength Rat} :
    (against0 f relation s).Holds σ ↔ relation.Holds (f.eval σ) 0 := by
  apply holds_iff_of_eval
  rw [eval_against0, sub_zero]
  rfl

/-! ## Edits -/

theorem Stems.relation_eq (h : Stems lhs relation rhs c) : c.relation = relation := by
  induction h with
  | compare => rfl
  | against0 => rfl
  | withStrength _ _ ih => exact ih
  | withRightSide _ _ ih => exact ih

/-- No edit touches the terms. -/
theorem Stems.evalTerms_form (h : Stems lhs relation rhs c) (σ : Assignment Rat) :
    evalTerms σ c.form.terms.entries =
      relation.sign * (evalTerms σ lhs.terms.entries - evalTerms σ rhs.terms.entries) := by
  have hgap : ∀ f : LinearForm Rat, evalTerms σ f.terms.entries = f.eval σ - f.eval fun _ => 0 := by
    intro f
    rw [eval_at_zero, eval_eq]
    ring
  induction h with
  | compare =>
    simp only [hgap, eval_compare]
    ring
  | against0 s hrhs =>
    simp only [hgap, eval_against0, hrhs, eval_zero_form]
    ring
  | withStrength _ _ ih => exact ih
  | withRightSide _ _ ih => exact ih

/-- The terms as written stand in the relation to the constant as it is now. -/
theorem Stems.holds_iff (h : Stems lhs relation rhs c) :
    c.Holds σ ↔ relation.Holds
      (evalTerms σ lhs.terms.entries - evalTerms σ rhs.terms.entries) c.rightSide := by
  obtain rfl := h.relation_eq
  apply holds_iff_of_eval
  rw [eval_eq, h.evalTerms_form, ← constantFor_rightSide, constantFor_eq]
  ring

/-- In exact arithmetic, a constraint holds where its sides compare as written, and one that is
given the constant `k`, whatever was done to it before, has the constant `k` and holds where the
terms on the left less those on the right compare with `k` as written. -/
theorem holds_as_written (lhs rhs : LinearForm Rat) (relation : Relation) (s : Strength Rat)
    (σ : Assignment Rat) :
    ((compare lhs relation rhs).Holds σ ↔ relation.Holds (lhs.eval σ) (rhs.eval σ)) ∧
    ((against0 lhs relation s).Holds σ ↔ relation.Holds (lhs.eval σ) 0) ∧
    ∀ c, Stems lhs relation rhs c → ∀ k,
      let d := c.withRightSide k
      d.rightSide = k ∧ d.constantFor d.rightSide = d.form.constant ∧
      d.form = c.form.shift (c.constantFor k - c.form.constant) ∧
      (d.Holds σ ↔ relation.Holds
        (evalTerms σ lhs.terms.entries - evalTerms σ rhs.terms.entries) k) := by
  refine ⟨holds_compare, holds_against0, fun c hc k => ?_⟩
  have hread : (c.withRightSide k).rightSide = k := c.rightSide_withRightSide k
  have hholds := (hc.withRightSide k).holds_iff (σ := σ)
  rw [hread] at hholds
  exact ⟨hread, constantFor_rightSide _, c.form_withRightSide k, hholds⟩

/-- A comparison in which `x` cancels out, made weak and given two other constants in turn. -/
theorem holds_as_written_after_edits :
    ∃ (lhs rhs : LinearForm Rat) (c : Constraint Rat) (y : Variable),
      Stems lhs .atMost rhs c ∧ lhs.size = 2 ∧ rhs.size = 1 ∧ c.form.vars = [y] ∧
      c.rightSide = 7 ∧ c.isRequired = false ∧ (c.withRightSide 4).rightSide = 4 ∧
      ∀ σ, (c.withRightSide 4).Holds σ ↔ σ y ≤ 4 := by
  let x : Variable := ⟨0, .free⟩
  let y : Variable := ⟨1, .free⟩
  let lhs : LinearForm Rat := (const (-3)).addTerms [(x, 2), (y, 1)]
  let rhs : LinearForm Rat := (const 5).addTerms [(x, 2)]
  let c : Constraint Rat := ((compare lhs .atMost rhs).withStrength .weak).withRightSide 7
  have hlhs : lhs.terms.entries = [(x, 2), (y, 1)] := by decide +kernel
  have hrhs : rhs.terms.entries = [(x, 2)] := by decide +kernel
  have hc : Stems lhs .atMost rhs c := .withRightSide 7 (.withStrength .weak .compare)
  have hall := fun σ => (holds_as_written lhs rhs .atMost .weak σ).2.2 c hc 4
  refine ⟨lhs, rhs, c, y, hc, by decide +kernel, by decide +kernel, by decide +kernel,
    by decide +kernel, by decide +kernel, (hall fun _ => 0).1, fun σ => ?_⟩
  rw [(hall σ).2.2.2, hlhs, hrhs]
  show Scalar.le _ _ = true ↔ σ y ≤ 4
  simp

end Constraint

end SoftSimplex
