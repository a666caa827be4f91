import SoftSimplex.Solver.Equation

/-!
Bringing an equation in directly: some variable of it is chosen, the equation solved for it, and
the result made its row.
-/

namespace SoftSimplex

namespace Solver

variable {α : Type} [Scalar α]

/-- Whether the restricted rows that mention `v` stay nonnegative if the equation is solved
for `v`. -/
def admits (s : Solver α) (equation : LinearForm α) (v : Variable) : Bool :=
  let value := -equation.constant / equation.coeff v
  (s.tableau.column v).all fun b =>
    !b.isRestricted ||
      (s.tableau.row? b).all fun row =>
        Scalar.ge (row.constant + row.coeff v * value) (-Scalar.tolerance)

/-- Whether a bounded client variable may get the equation as its row: its value must not come out
negative, which its coefficient or a zero constant ensures. -/
def suitsClient (s : Solver α) (equation : LinearForm α) (e : Variable × α) : Bool :=
  e.1.role == .bounded && (Scalar.isNeg e.2 || Scalar.negligible equation.constant) &&
    s.admits equation e.1

def suitsOwn (s : Solver α) (equation : LinearForm α) (e : Variable × α) : Bool :=
  e.1.isPivotable && Scalar.isNeg e.2 && s.admits equation e.1

/-- The variable to solve an equation for: a free one, else a bounded one, else a slack or error
variable, each time the first. -/
def subject? (s : Solver α) (equation : LinearForm α) : Option Variable :=
  let ts := equation.terms.entries
  ((ts.find? fun e => e.1.role == .free).or <|
    (ts.find? (s.suitsClient equation)).or <|
      ts.find? (s.suitsOwn equation)).map Prod.fst

def insertSolved (s : Solver α) (v : Variable) (equation : LinearForm α) : Solver α :=
  let row := equation.isolate v
  { s with tableau := (s.tableau.substitute v row).insertRow v row }

end Solver

end SoftSimplex
