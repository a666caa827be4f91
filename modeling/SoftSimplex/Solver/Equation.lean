import SoftSimplex.Solver.Basic

/-!
From a constraint to a row that is to be zero. The variables that have rows are replaced by them,
and the constraint's own variables come in: an inequality takes a slack from its form, a required
equality a dummy, and what may be missed gets error variables, which cost the constraint's weight.
-/

namespace SoftSimplex

variable {α : Type} [Scalar α]

namespace Auxiliaries

def draw (s : Supply) (c : Constraint α) : Auxiliaries × Supply :=
  if c.isInequality then
    if c.isRequired then (⟨s.next .slack, []⟩, s.advance)
    else (⟨s.next .slack, [s.advance.next .error]⟩, s.advance.advance)
  else
    if c.isRequired then (⟨s.next .dummy, []⟩, s.advance)
    else (⟨s.next .error, [s.next .error, s.advance.next .error]⟩, s.advance.advance)

/-- What the variables add to the form: the marker takes away what the form exceeds zero by, and an
error that is not the marker makes up for what it lacks. -/
def terms (a : Auxiliaries) : List (Variable × α) :=
  (a.marker, -1) :: (a.errors.filter (· != a.marker)).map fun v => (v, 1)

end Auxiliaries

namespace Solver

def reduce (s : Solver α) (f : LinearForm α) : LinearForm α :=
  f.terms.entries.foldl (fun g e => s.tableau.accumulate g e.1 e.2) (.const f.constant)

/-- The row that has to be zero for the constraint, with a constant that is not negative. -/
def equation (s : Solver α) (c : Constraint α) (a : Auxiliaries) : LinearForm α :=
  let f := (s.reduce c.form).addTerms a.terms
  if Scalar.isNeg f.constant then f.negate else f

/-- Take a constraint and its variables into the books, and its errors into the objective. -/
def register (s : Solver α) (id : ConstraintId) (c : Constraint α) (a : Auxiliaries)
    (supply : Supply) : Solver α :=
  { s with
    supply
    tableau := a.errors.foldl (fun t v => t.addCost v c.weight) s.tableau
    records := s.records.insert id ⟨a, c⟩
    markers := s.markers.insert a.marker id }

end Solver

end SoftSimplex
