import SoftSimplex.Tableau.Primal
import SoftSimplex.Tableau.Dual
import SoftSimplex.Tableau.Consistency
import SoftSimplex.Solver.Event

/-!
The solver: a tableau, and for each constraint which variables stand for it. Every constraint has
a marker, a variable that entered the tableau with it and leads back to it, and up to two error
variables whose weighted sum is what the solver minimises.
-/

namespace SoftSimplex

structure Settings where
  autoSolve : Bool := false
  /-- Name the constraints that a refused one conflicts with. -/
  explainFailure : Bool := true
deriving DecidableEq

/-- The variables that a constraint brings into the tableau. -/
@[ext]
structure Auxiliaries where
  /-- The variable that leads back to the constraint. -/
  marker : Variable
  /-- The variables that it costs something to raise. -/
  errors : List Variable
deriving DecidableEq

/-- What a solver keeps about a constraint. -/
@[ext]
structure Record (α : Type) extends Auxiliaries where
  constraint : Constraint α
deriving DecidableEq

/-- A set of constraints with a tableau that represents it. -/
@[ext]
structure Solver (α : Type) where
  settings : Settings
  supply : Supply
  tableau : Tableau α
  /-- The constraints in the order in which they were added. -/
  records : Table ConstraintId (Record α)
  /-- Which constraint a marker belongs to. -/
  markers : Table Variable ConstraintId
  nextId : Nat
deriving DecidableEq

/-- What an operation leaves: the solver, what it told, and its result. -/
structure Outcome (α ρ : Type) where
  solver : Solver α
  log : List (Event α)
  answer : Except Failure ρ

namespace Solver

variable {α : Type} [Scalar α]

def ofSettings (settings : Settings) : Solver α := ⟨settings, {}, ∅, ∅, ∅, 0⟩

def new : Solver α := ofSettings {}

def record? (s : Solver α) (id : ConstraintId) : Option (Record α) := s.records.get? id

def constraint? (s : Solver α) (id : ConstraintId) : Option (Constraint α) :=
  (s.record? id).map Record.constraint

def has (s : Solver α) (id : ConstraintId) : Bool := s.records.contains id

/-- The constraints with their names, in the order in which they were added. -/
def constraints (s : Solver α) : List (ConstraintId × Constraint α) :=
  s.records.entries.map fun e => (e.1, e.2.constraint)

def size (s : Solver α) : Nat := s.records.size

/-- The value of `v`, if it has one: basic variables have the constant of their row, other client
variables are zero. -/
def value? (s : Solver α) (v : Variable) : Option α :=
  match s.tableau.row? v with
  | some row => some row.constant
  | none => if v.isClient && s.supply.owns v then some 0 else none

def value (s : Solver α) (v : Variable) : α := (s.value? v).getD 0

/-- What is wrong: first with the tableau, then with the markers. -/
def violations (s : Solver α) : List (Violation α) :=
  s.tableau.violations ++
  (s.records.entries.filter fun e => s.markers.get? e.2.marker != some e.1).map
    (fun e => Violation.markerAstray e.2.marker e.1) ++
  (if s.markers.size = s.records.size then [] else [.markerCount])

def text [Numeral α] (s : Solver α) : String :=
  toString s.size ++ " constraints, " ++ toString s.tableau.size ++ " rows\n" ++ s.tableau.text

def afterPass (s : Solver α) (p : Pass α) : Outcome α Unit :=
  ⟨{ s with tableau := p.tableau }, p.swaps.map .swapped, p.ending⟩

def solve (budget : Nat) (s : Solver α) : Option (Outcome α Unit) :=
  (s.tableau.minimize budget).map s.afterPass

def repair (budget : Nat) (s : Solver α) : Option (Outcome α Unit) :=
  (s.tableau.repair budget).map s.afterPass

end Solver

namespace Outcome

variable {α ρ : Type} [Scalar α]

/-- Minimise after an operation if the settings ask for it. A failure to do so is reported in the
place of the operation's own result. -/
def settle (budget : Nat) (o : Outcome α ρ) : Option (Outcome α ρ) :=
  if o.solver.settings.autoSolve then
    (o.solver.solve budget).map fun r =>
      ⟨r.solver, o.log ++ r.log,
        match r.answer with
        | .ok () => o.answer
        | .error f => .error f⟩
  else some o

end Outcome

end SoftSimplex
