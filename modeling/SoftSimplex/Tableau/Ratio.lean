import SoftSimplex.Tableau.Basic

/-!
Choosing by ratio. Each choice a pass makes is the least among variables with ratios: the smaller
ratio wins, and the lower number among equal ones, so the order in which the candidates are looked
at does not matter.
-/

namespace SoftSimplex

variable {α : Type} [Scalar α]

def Ratio.better (a b : Variable × α) : Bool :=
  Scalar.lt a.2 b.2 || (Scalar.eq a.2 b.2 && a.1.id < b.1.id)

def Ratio.bestFrom (best : Variable × α) : List (Variable × α) → Variable × α
  | [] => best
  | c :: cs => bestFrom (if better c best then c else best) cs

def Ratio.best? : List (Variable × α) → Option Variable
  | [] => none
  | c :: cs => some (bestFrom c cs).1

namespace Tableau

/-- The rows that limit how far `entry` may rise, each with the value at which it reaches zero. -/
def limits (t : Tableau α) (entry : Variable) : List (Variable × α) :=
  (t.column entry).filterMap fun b =>
    if b.isRestricted then
      (t.row? b).bind fun row =>
        if Scalar.isNonneg (row.coeff entry) then none
        else some (b, -row.constant / row.coeff entry)
    else none

/-- The two tests that a row has to pass, as one. -/
theorem limits_eq (t : Tableau α) (entry : Variable) :
    t.limits entry = (t.column entry).filterMap fun b => (t.row? b).bind fun row =>
      if b.isRestricted && !Scalar.isNonneg (row.coeff entry) then
        some (b, -row.constant / row.coeff entry)
      else none := by
  unfold limits
  congr 1
  funext b
  cases t.row? b with
  | none => simp
  | some row =>
    simp only [Option.bind_some]
    cases b.isRestricted <;> cases Scalar.isNonneg (row.coeff entry) <;> rfl

def tightest? (t : Tableau α) (entry : Variable) : Option Variable := Ratio.best? (t.limits entry)

/-- The variables that raise `row` when they rise, each with what that costs in the objective. -/
def raisers (t : Tableau α) (row : LinearForm α) : List (Variable × α) :=
  row.terms.entries.filterMap fun e =>
    if Scalar.isNonpos e.2 || !e.1.mayEnter then none
    else some (e.1, t.objective.coeff e.1 / e.2)

def cheapest? (t : Tableau α) (row : LinearForm α) : Option Variable :=
  Ratio.best? (t.raisers row)

/-- The restricted rows that sink as `marker` rises, with the value at which they reach zero. -/
def sinking (t : Tableau α) (marker : Variable) : List (Variable × α) :=
  (t.column marker).filterMap fun b =>
    (t.row? b).bind fun row =>
      if b.isRestricted && Scalar.isNeg (row.coeff marker) then
        some (b, -row.constant / row.coeff marker)
      else none

/-- The other restricted rows that mention `marker`, with the value at which they reach zero as it
falls. -/
def rising (t : Tableau α) (marker : Variable) : List (Variable × α) :=
  (t.column marker).filterMap fun b =>
    (t.row? b).bind fun row =>
      if b.isRestricted && !Scalar.isNeg (row.coeff marker) then
        some (b, row.constant / row.coeff marker)
      else none

/-- The row to give up so that `marker` becomes basic: best a sinking one, else a rising one, else
a free one. -/
def eviction? (t : Tableau α) (marker : Variable) : Option Variable :=
  (Ratio.best? (t.sinking marker)).or <|
    (Ratio.best? (t.rising marker)).or <|
      Variable.lowest? ((t.column marker).filter fun b => !b.isRestricted && t.isBasic b)

end Tableau

end SoftSimplex
