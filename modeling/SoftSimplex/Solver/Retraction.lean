import SoftSimplex.Solver.Insertion

/-!
Taking a constraint out. Its errors stop costing anything and lose their rows; then its marker is
made basic, if any row mentions it, and its row dropped.
-/

namespace SoftSimplex

namespace Solver

variable {α : Type} [Scalar α]

/-- The solver without the books of a constraint and without its errors' costs and rows. -/
def strike (s : Solver α) (id : ConstraintId) (r : Record α) : Solver α :=
  { s with
    tableau := r.errors.foldl (Tableau.waive r.constraint.weight) s.tableau
    records := s.records.erase id
    markers := s.markers.erase r.marker }

/-- The row that the marker has to take over before it can be dropped. -/
def exitFor? (s : Solver α) (marker : Variable) : Option Variable :=
  if s.tableau.isBasic marker then none else s.tableau.eviction? marker

def retract (s : Solver α) (id : ConstraintId) : Outcome α Unit :=
  match s.record? id with
  | none => ⟨s, [], .error (.unknownConstraint id)⟩
  | some r =>
    let s := s.strike id r
    match s.exitFor? r.marker with
    | none => ⟨{ s with tableau := s.tableau.removeRow r.marker }, [], .ok ()⟩
    | some exit =>
      match s.tableau.exchange r.marker exit with
      | .ok t => ⟨{ s with tableau := t.removeRow r.marker }, [.swapped ⟨r.marker, exit⟩], .ok ()⟩
      | .error f => ⟨{ s with tableau := s.tableau.removeRow exit }, [], .error (.fault f)⟩

end Solver

end SoftSimplex
