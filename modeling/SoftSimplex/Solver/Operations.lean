import SoftSimplex.Solver.FirstPhase

/-!
What a client can do with a solver. Each operation that may have to exchange variables takes a
budget of exchanges for each of its passes and has no outcome if a pass would exceed it.
-/

namespace SoftSimplex

namespace Solver

variable {α : Type} [Scalar α]

/-! ## Variables and settings -/

def newVariable (s : Solver α) (bounded : Bool) : Variable × Solver α :=
  (s.supply.next (if bounded then .bounded else .free), { s with supply := s.supply.advance })

def setAutoSolve (s : Solver α) (b : Bool) : Solver α :=
  { s with settings := { s.settings with autoSolve := b } }

def setExplainFailure (s : Solver α) (b : Bool) : Solver α :=
  { s with settings := { s.settings with explainFailure := b } }

/-! ## Constraints -/

/-- The solver with a new constraint in its books, and the equation that is still to be brought
in. -/
def prepare (s : Solver α) (c : Constraint α) : Solver α × LinearForm α :=
  let (a, supply) := Auxiliaries.draw s.supply c
  ({ s with nextId := s.nextId + 1 }.register ⟨s.nextId⟩ c a supply, s.equation c a)

def bringIn (budget : Nat) (s : Solver α) (id : ConstraintId) (equation : LinearForm α) :
    Option (Outcome α Unit) :=
  match s.subject? equation with
  | some v => some ⟨s.insertSolved v equation, [], .ok ()⟩
  | none => s.addByFirstPhase budget id equation

/-- Add a constraint. A required one that contradicts the others is taken back and reported. -/
def add (budget : Nat) (s : Solver α) (c : Constraint α) :
    Option (Outcome α ConstraintId) := do
  let id : ConstraintId := ⟨s.nextId⟩
  let (s, equation) := s.prepare c
  let o ← s.bringIn budget id equation
  Outcome.settle budget
    ⟨o.solver, .adding id c.relation :: o.log, o.answer.map fun () => id⟩

def remove (budget : Nat) (s : Solver α) (id : ConstraintId) : Option (Outcome α Unit) :=
  let o := s.retract id
  match o.answer with
  | .error _ => some o
  | .ok () => Outcome.settle budget { o with log := o.log ++ [.removed id] }

/-- Repair the rows after a constant moved. A repair that fails is told, not reported, and rows
still waiting are forgotten. -/
def restore (budget : Nat) (s : Solver α) : Option (Outcome α Unit) :=
  (s.repair budget).map fun o =>
    let news := match o.answer with
      | .ok () => []
      | .error f => [.repairFailed f]
    ⟨{ o.solver with tableau := o.solver.tableau.clearQueue }, o.log ++ news, .ok ()⟩

/-- Let a constraint compare with `k`. A constraint that is unknown, or does so already, is left
alone. -/
def updateConstant (budget : Nat) (s : Solver α) (id : ConstraintId) (k : α) :
    Option (Outcome α Unit) :=
  match s.record? id with
  | none => some ⟨s, [], .ok ()⟩
  | some r =>
    let change := r.constraint.constantFor k - r.constraint.form.constant
    if Scalar.negligible change then some ⟨s, [], .ok ()⟩
    else
      let s := { s with
        tableau := s.tableau.shiftConstant r.marker change
        records := s.records.insert id { r with constraint := r.constraint.withRightSide k } }
      (s.restore budget).map fun o => { o with log := .constantUpdated id k change :: o.log }

/-- Give a constraint another strength. A constraint stays required, or not, for ever. -/
def updateStrength (budget : Nat) (s : Solver α) (id : ConstraintId) (new : Strength α) :
    Option (Outcome α Unit) :=
  match s.record? id with
  | none => some ⟨s, [], .error (.unknownConstraint id)⟩
  | some r =>
    let old := r.constraint.strength
    if old.same new then some ⟨s, [], .ok ()⟩
    else if old.isRequired || new.isRequired then
      some ⟨s, [.strengthKept id old.weight new.weight], .ok ()⟩
    else
      let s := { s with
        tableau := r.errors.foldl (fun t v => t.addCost v (new.weight - old.weight)) s.tableau
        records := s.records.insert id { r with constraint := r.constraint.withStrength new } }
      Outcome.settle budget ⟨s, [.strengthUpdated id new.weight], .ok ()⟩

/-- Drop all constraints. Variables stay valid, and numbers are not used again. -/
def reset (s : Solver α) : Outcome α Unit :=
  ⟨{ s with tableau := ∅, records := ∅, markers := ∅ }, [.reset], .ok ()⟩

end Solver

end SoftSimplex
