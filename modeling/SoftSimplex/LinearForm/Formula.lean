import SoftSimplex.LinearForm.Basic

/-!
Formulas: what a client writes with `+`, `-`, `*` and `/` before it is a linear form. Numbers among
themselves stay numbers. A number or a variable that is added to a form changes one place of it;
only a form is added term by term.
-/

namespace SoftSimplex

inductive Operand (α : Type) where
  | number (k : α)
  | var (v : Variable)
  | form (f : LinearForm α)

/-- A formula. Only a number scales or divides, so formulas stay linear. The assignments give the
form on their left once it has been changed in place. -/
inductive Formula (α : Type) where
  | operand (o : Operand α)
  | add (a b : Formula α)
  | sub (a b : Formula α)
  | scale (a : Formula α) (k : α)
  | divide (a : Formula α) (k : α)
  | neg (a : Formula α)
  | addAssign (a b : Formula α)
  | subAssign (a b : Formula α)
  | scaleAssign (a : Formula α) (k : α)

variable {α : Type} [Scalar α]

namespace LinearForm

/-- Add an operand in place. -/
def plus (f : LinearForm α) : Operand α → LinearForm α
  | .number k => f.shift k
  | .var v => f.addTerm v 1
  | .form g => f.addScaled g 1

def minus (f : LinearForm α) : Operand α → LinearForm α
  | .number k => f.shift (-k)
  | .var v => f.addTerm v (-1)
  | .form g => f.addScaled g (-1)

end LinearForm

namespace Operand

def toForm : Operand α → LinearForm α
  | .number k => .const k
  | .var v => .var v
  | .form f => f

def scale (k : α) : Operand α → LinearForm α
  | .number c => (LinearForm.const c).scale k
  | .var v => .term v k
  | .form f => f.scale k

/-- The sum. Unless both are numbers, the left becomes a form and the right is added in place. -/
def add : Operand α → Operand α → Operand α
  | .number j, .number k => .number (j + k)
  | a, b => .form (a.toForm.plus b)

def sub : Operand α → Operand α → Operand α
  | .number j, .number k => .number (j - k)
  | a, b => .form (a.toForm.minus b)

def times (k : α) : Operand α → Operand α
  | .number c => .number (c * k)
  | a => .form (a.scale k)

/-- The quotient by a number. A variable or a form is multiplied by the reciprocal. -/
def divided (k : α) : Operand α → Operand α
  | .number c => .number (c / k)
  | a => .form (a.scale (1 / k))

/-- The opposite. A variable or a form is multiplied by -1. -/
def opposite : Operand α → Operand α
  | .number c => .number (-c)
  | a => .form (a.scale (-1))

end Operand

namespace Formula

def value : Formula α → Operand α
  | .operand o => o
  | .add a b => a.value.add b.value
  | .sub a b => a.value.sub b.value
  | .scale a k => a.value.times k
  | .divide a k => a.value.divided k
  | .neg a => a.value.opposite
  | .addAssign a b => .form (a.value.toForm.plus b.value)
  | .subAssign a b => .form (a.value.toForm.minus b.value)
  | .scaleAssign a k => .form (a.value.toForm.scale k)

def toForm (a : Formula α) : LinearForm α := a.value.toForm

end Formula

end SoftSimplex
