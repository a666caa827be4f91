import SoftSimplex.Scalar

/-!
Strengths: how much it costs to miss a constraint. The greatest strength marks the constraints that
may not be missed at all.
-/

namespace SoftSimplex

/-- What one unit of violation costs. -/
@[ext]
structure Strength (α : Type) where
  weight : α
deriving DecidableEq

namespace Strength

variable {α : Type} [Scalar α]

def required : Strength α := ⟨Scalar.ofNat 1000⟩

def strong : Strength α := ⟨Scalar.ofNat 750⟩

def medium : Strength α := ⟨Scalar.ofNat 250⟩

def weak : Strength α := ⟨Scalar.ofNat 10⟩

/-- A constraint is required unless something else is said. -/
instance : Inhabited (Strength α) := ⟨required⟩

/-- The strength of the given weight, brought between zero and `required`; what is no number
weighs nothing. -/
def ofWeight (w : α) : Strength α :=
  if Scalar.eq w w then
    if Scalar.isNeg w then ⟨0⟩
    else if Scalar.lt required.weight w then required
    else ⟨w⟩
  else ⟨0⟩

def isRequired (s : Strength α) : Bool := Scalar.ge s.weight required.weight

def same (s t : Strength α) : Bool := Scalar.eq s.weight t.weight

end Strength

end SoftSimplex
