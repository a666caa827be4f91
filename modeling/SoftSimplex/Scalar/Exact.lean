import SoftSimplex.Scalar

/-!
Rational number systems. `Rat` itself is the exact one: only zero is negligible, and nothing below
zero passes for nonnegative. `Coarse` has the same values and operations but the tolerance of the
doubles, so that what a tolerance does can be told apart from what rounding does.
-/

namespace SoftSimplex

namespace Scalar

/-- The order of the rationals as a comparison; it always has an answer. -/
def ratOrder (a b : Rat) : Option Ordering :=
  some (if a < b then .lt else if a = b then .eq else .gt)

end Scalar

instance : Scalar Rat where
  zero := 0
  one := 1
  order := Scalar.ratOrder
  ofNat n := n
  tolerance := 0
  negligible v := v == 0

/-- The rationals, computed with a tolerance of `1e-8`. -/
def Coarse : Type := Rat

namespace Coarse

def ofRat (v : Rat) : Coarse := v

def toRat (v : Coarse) : Rat := v

def bound : Rat := 1 / 100000000

instance : Scalar Coarse where
  zero := ofRat 0
  one := ofRat 1
  neg a := ofRat (-a.toRat)
  add a b := ofRat (a.toRat + b.toRat)
  sub a b := ofRat (a.toRat - b.toRat)
  mul a b := ofRat (a.toRat * b.toRat)
  div a b := ofRat (a.toRat / b.toRat)
  order a b := Scalar.ratOrder a.toRat b.toRat
  ofNat n := ofRat n
  tolerance := ofRat bound
  negligible v := -bound < v.toRat && v.toRat < bound

end Coarse

namespace Scalar

@[simp] theorem lt_rat (a b : Rat) : lt a b = true ↔ a < b := by
  show (ratOrder a b == some Ordering.lt) = true ↔ a < b
  unfold ratOrder
  split
  · simp [*]
  · split <;> simp [*]

@[simp] theorem eq_rat (a b : Rat) : eq a b = true ↔ a = b := by
  show (ratOrder a b == some Ordering.eq) = true ↔ a = b
  unfold ratOrder
  split
  · next h => simp only [beq_iff_eq, Option.some.injEq, reduceCtorEq, false_iff]; grind
  · split <;> simp [*]

@[simp] theorem le_rat (a b : Rat) : le a b = true ↔ a ≤ b := by
  simp only [le, Bool.or_eq_true, lt_rat, eq_rat]
  grind

@[simp] theorem ge_rat (a b : Rat) : ge a b = true ↔ b ≤ a := by
  have hgt : (ratOrder a b == some Ordering.gt) = true ↔ b < a := by
    unfold ratOrder
    split
    · simp; grind
    · split
      · simp; grind
      · simp; grind
  have hge : ge a b = true ↔ b < a ∨ a = b := by
    rw [← hgt, ← eq_rat a b]
    exact Bool.or_eq_true _ _ ▸ Iff.rfl
  rw [hge]
  grind

@[simp] theorem isNeg_rat (a : Rat) : isNeg a = true ↔ a < 0 := lt_rat a 0

@[simp] theorem isNonneg_rat (a : Rat) : isNonneg a = true ↔ 0 ≤ a := ge_rat a 0

@[simp] theorem isNonpos_rat (a : Rat) : isNonpos a = true ↔ a ≤ 0 := le_rat a 0

@[simp] theorem negligible_rat (a : Rat) : negligible a = true ↔ a = 0 := by
  show (a == 0) = true ↔ a = 0
  simp

@[simp] theorem tolerance_rat : (tolerance : Rat) = 0 := rfl

end Scalar

end SoftSimplex
