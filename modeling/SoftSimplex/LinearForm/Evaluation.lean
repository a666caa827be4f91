import SoftSimplex.LinearForm.Formula

/-!
What forms and formulas mean: their value once every variable has one.
-/

namespace SoftSimplex

variable {α : Type} [Scalar α]

abbrev Assignment (α : Type) : Type := Variable → α

def LinearForm.evalTerms (σ : Assignment α) (ts : List (Variable × α)) : α :=
  (ts.map fun t => t.2 * σ t.1).sum

def LinearForm.eval (f : LinearForm α) (σ : Assignment α) : α :=
  f.constant + LinearForm.evalTerms σ f.terms.entries

def Operand.eval (σ : Assignment α) : Operand α → α
  | .number k => k
  | .var v => σ v
  | .form f => f.eval σ

/-- The value of a formula read as ordinary arithmetic. -/
def Formula.eval (σ : Assignment α) : Formula α → α
  | .operand o => o.eval σ
  | .add a b => a.eval σ + b.eval σ
  | .sub a b => a.eval σ - b.eval σ
  | .scale a k => a.eval σ * k
  | .divide a k => a.eval σ / k
  | .neg a => -a.eval σ
  | .addAssign a b => a.eval σ + b.eval σ
  | .subAssign a b => a.eval σ - b.eval σ
  | .scaleAssign a k => a.eval σ * k

end SoftSimplex
