import SoftSimplex.LinearForm.Evaluation
import SoftSimplex.Strength

/-!
Constraints between linear forms. An inequality is kept as `form ≥ 0`, an equality as `form = 0`;
the relation as written stays beside it, because it says which sign the constant on the right-hand
side has.
-/

namespace SoftSimplex

inductive Relation where
  | atMost
  | equal
  | atLeast
deriving DecidableEq

namespace Relation

def text : Relation → String
  | .atMost => "<="
  | .equal => "=="
  | .atLeast => ">="

def Holds {α : Type} [Scalar α] (a b : α) : Relation → Prop
  | .atMost => Scalar.le a b = true
  | .equal => Scalar.eq a b = true
  | .atLeast => Scalar.ge a b = true

end Relation

structure ConstraintId where
  index : Nat
deriving DecidableEq

def ConstraintId.text (i : ConstraintId) : String := "c" ++ toString i.index

/-- A constraint in normal form. -/
@[ext]
structure Constraint (α : Type) where
  /-- What has to be zero, or at least zero. -/
  form : LinearForm α
  /-- The relation as written. -/
  relation : Relation
  strength : Strength α
deriving DecidableEq

namespace Constraint

variable {α : Type} [Scalar α]

/-- The constraint `f relation 0`. -/
def against0 (f : LinearForm α) (relation : Relation) (strength : Strength α) : Constraint α :=
  ⟨if relation = .atMost then f.negate else f, relation, strength⟩

/-- The required constraint `lhs relation rhs`. -/
def compare (lhs : LinearForm α) (relation : Relation) (rhs : LinearForm α) : Constraint α :=
  against0 (lhs.addScaled rhs (-1)) relation .required

def withStrength (c : Constraint α) (s : Strength α) : Constraint α := { c with strength := s }

/-- What one unit of violation costs. -/
def weight (c : Constraint α) : α := c.strength.weight

def isRequired (c : Constraint α) : Bool := c.strength.isRequired

/-- Whether it is `form ≥ 0` and not `form = 0`. -/
def isInequality (c : Constraint α) : Bool := c.relation != .equal

/-- The constant of `form` when the constraint compares with `k`. -/
def constantFor (c : Constraint α) (k : α) : α :=
  match c.relation with
  | .atMost => k
  | .equal | .atLeast => -k

/-- The constant that the constraint compares with, all else on the left. -/
def rightSide (c : Constraint α) : α :=
  match c.relation with
  | .atMost => c.form.constant
  | .equal | .atLeast => -c.form.constant

def withRightSide (c : Constraint α) (k : α) : Constraint α :=
  { c with form := { c.form with constant := c.constantFor k } }

def same (c d : Constraint α) : Bool :=
  c.form.same d.form && c.relation == d.relation && c.strength.same d.strength

def text [Numeral α] (c : Constraint α) : String :=
  c.form.text ++ (if c.isInequality then " >= 0 | " else " == 0 | ") ++ Numeral.text c.weight

def Holds (c : Constraint α) (σ : Assignment α) : Prop :=
  if c.isInequality then Scalar.isNonneg (c.form.eval σ) = true
  else Scalar.eq (c.form.eval σ) 0 = true

/-- By how much the constraint is missed under an assignment. -/
def violation (c : Constraint α) (σ : Assignment α) : α :=
  let v := c.form.eval σ
  if Scalar.isNeg v then -v else if c.isInequality then 0 else v

end Constraint

end SoftSimplex
