/-!
The numbers that linear forms are built from. Every definition of the library takes its numbers
from a `Scalar`, so that the same text runs on binary floating point and is reasoned about over the
rationals.

A comparison is one three-way question that may stay unanswered. The tests below read that one
answer, hence no number is negative and nonnegative at once, whatever the arithmetic.
-/

namespace SoftSimplex

/-- A number system: its operations, its comparison, and what it takes for zero. -/
class Scalar (α : Type) extends Zero α, One α, Neg α, Add α, Sub α, Mul α, Div α where
  /-- How the first number compares with the second, if the two are comparable. -/
  order : α → α → Option Ordering
  /-- The number that a count denotes. -/
  ofNat : Nat → α
  /-- How far below zero a value may lie and still pass for nonnegative. -/
  tolerance : α
  /-- Whether a coefficient is too small to be kept. -/
  negligible : α → Bool

namespace Scalar

variable {α : Type} [Scalar α]

def lt (a b : α) : Bool := order a b == some .lt

/-- `a = b`; a number that compares with nothing differs from itself. -/
def eq (a b : α) : Bool := order a b == some .eq

def le (a b : α) : Bool := lt a b || eq a b

def ge (a b : α) : Bool := order a b == some .gt || eq a b

def isNeg (a : α) : Bool := lt a 0

def isNonneg (a : α) : Bool := ge a 0

def isNonpos (a : α) : Bool := le a 0

/-- A negative number is not nonnegative. -/
theorem isNonneg_of_isNeg {a : α} (h : isNeg a = true) : isNonneg a = false := by
  simp only [isNeg, lt, beq_iff_eq] at h
  simp [isNonneg, ge, eq, h]

end Scalar

end SoftSimplex
