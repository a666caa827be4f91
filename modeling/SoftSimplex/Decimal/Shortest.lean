/-!
The shortest decimal of a binary number. A binary number stands for every real that rounds to it;
the decimal chosen lies among those reals on the coarsest grid of powers of ten that reaches them,
and next to the number itself if that grid offers two points. All arithmetic is on naturals.
-/

namespace SoftSimplex

/-- The positive number `mantissa · 2 ^ exponent`, and whether the numbers below it lie twice as
dense as those above. -/
structure Binary where
  mantissa : Nat
  exponent : Int
  denseBelow : Bool

/-- The number `digits · 10 ^ exponent`. -/
structure Decimal where
  digits : Nat
  exponent : Int
deriving DecidableEq

namespace Binary

/-- The number of quarter steps of `b`'s own grid that make up `b`. -/
def quarters (b : Binary) : Nat := 4 * b.mantissa

/-- The least real that rounds to `b`, in quarter steps. -/
def lower (b : Binary) : Nat := if b.denseBelow then b.quarters - 1 else b.quarters - 2

/-- The greatest real that rounds to `b`, in quarter steps. -/
def upper (b : Binary) : Nat := b.quarters + 2

/-- A quarter step is `stepUp / stepDown`; one of the two is 1. -/
def stepUp (b : Binary) : Nat := Nat.pow 2 (b.exponent - 2).toNat

def stepDown (b : Binary) : Nat := Nat.pow 2 (2 - b.exponent).toNat

/-- The point `d · 10 ^ e` of the decimal grid `e`, over the denominator that `scaled` uses. -/
def gridPoint (b : Binary) (e : Int) (d : Nat) : Nat := d * (b.stepDown * Nat.pow 10 e.toNat)

/-- A count of quarter steps, over the same denominator as `gridPoint`. -/
def scaled (b : Binary) (e : Int) (n : Nat) : Nat := n * b.stepUp * Nat.pow 10 (-e).toNat

/-- Whether `d · 10 ^ e` rounds to `b`. Of two neighbours equally near, rounding takes the one with
the even mantissa, so the ends of the interval belong to even numbers only. -/
def Rounds (b : Binary) (e : Int) (d : Nat) : Bool :=
  let p := b.gridPoint e d
  let lo := b.scaled e b.lower
  let hi := b.scaled e b.upper
  if b.mantissa % 2 = 0 then lo ≤ p && p ≤ hi else lo < p && p < hi

/-- The point of grid `e` that rounds to `b` and is next to it; of two equally near the upper one.
Only the two points around `b` need a look: a point farther off rounds to `b` only if the one
before it does. -/
def onGrid? (b : Binary) (e : Int) : Option Nat :=
  let v := b.scaled e b.quarters
  let below := v / b.gridPoint e 1
  let above := below + 1
  match b.Rounds e below, b.Rounds e above with
  | true, true =>
    if v - b.gridPoint e below < b.gridPoint e above - v then some below else some above
  | true, false => some below
  | false, true => some above
  | false, false => none

/-- A power of ten above `b`: `log₁₀ 2` is 0.30103 to five places, and one more digit makes up for
the rest. No grid coarser than ten times `b` has a point that rounds to `b`. -/
def topExponent (b : Binary) : Int :=
  (Nat.log2 b.mantissa + 1 + b.exponent) * 30103 / 100000 + 2

/-- The first of the grids `e, e - 1, …` that reaches `b`, looking at `n` of them. -/
def firstGrid? (b : Binary) : Nat → Int → Option Decimal
  | 0, _ => none
  | n + 1, e =>
    match b.onGrid? e with
    | some d => some ⟨d, e⟩
    | none => firstGrid? b n (e - 1)

/-- Seventeen digits tell all doubles apart, and the search starts at most three grids above the
first digit. -/
def gridLimit : Nat := 24

def shortest? (b : Binary) : Option Decimal := b.firstGrid? gridLimit b.topExponent

theorem rounds_of_onGrid? {b : Binary} {e : Int} {d : Nat} (h : b.onGrid? e = some d) :
    b.Rounds e d = true := by
  simp only [onGrid?] at h
  split at h
  · split at h <;> simp_all
  all_goals simp_all

/-- What is found reads back as `b`. -/
theorem rounds_of_firstGrid? {b : Binary} {n : Nat} {e : Int} {x : Decimal}
    (h : b.firstGrid? n e = some x) : b.Rounds x.exponent x.digits = true := by
  induction n generalizing e with
  | zero => simp [firstGrid?] at h
  | succ n ih =>
    simp only [firstGrid?] at h
    split at h
    · next d hd =>
      cases h
      exact rounds_of_onGrid? hd
    · exact ih h

end Binary

end SoftSimplex
