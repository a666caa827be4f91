import SoftSimplex.Solver.Operations

/-!
Operations as data, so that whole sessions with a solver can be spoken of.
-/

namespace SoftSimplex

inductive Request (α : Type) where
  | newVariable (bounded : Bool)
  | add (c : Constraint α)
  | remove (id : ConstraintId)
  | updateConstant (id : ConstraintId) (k : α)
  | updateStrength (id : ConstraintId) (new : Strength α)
  | solve
  | reset
  | setAutoSolve (b : Bool)
  | setExplainFailure (b : Bool)

inductive Reply where
  | done
  | client (v : Variable)
  | constraint (id : ConstraintId)
deriving DecidableEq

namespace Solver

variable {α : Type} [Scalar α]

def perform (budget : Nat) (s : Solver α) : Request α → Option (Outcome α Reply)
  | .newVariable bounded =>
    let (v, s) := s.newVariable bounded
    some ⟨s, [], .ok (.client v)⟩
  | .add c => (s.add budget c).map (replying .constraint)
  | .remove id => (s.remove budget id).map (replying fun _ => .done)
  | .updateConstant id k => (s.updateConstant budget id k).map (replying fun _ => .done)
  | .updateStrength id new => (s.updateStrength budget id new).map (replying fun _ => .done)
  | .solve => (s.solve budget).map (replying fun _ => .done)
  | .reset => some (replying (fun _ => .done) s.reset)
  | .setAutoSolve b => some ⟨s.setAutoSolve b, [], .ok .done⟩
  | .setExplainFailure b => some ⟨s.setExplainFailure b, [], .ok .done⟩
where
  replying {ρ : Type} (f : ρ → Reply) (o : Outcome α ρ) : Outcome α Reply :=
    ⟨o.solver, o.log, o.answer.map f⟩

end Solver

end SoftSimplex
