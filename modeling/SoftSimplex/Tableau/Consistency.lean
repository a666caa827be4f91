import SoftSimplex.Constraint
import SoftSimplex.Tableau.Basic

/-!
What can be wrong with a tableau, and with the records that tie it to constraints. A check lists
every violation; the first one is what a caller gets to see.
-/

namespace SoftSimplex

inductive Violation (α : Type) where
  /-- A basic variable occurs in its own row. -/
  | selfReference (b : Variable)
  /-- The column of `v` does not list the row of `b`, which mentions it. -/
  | missingFromColumn (v b : Variable)
  /-- A restricted row is negative and not queued. -/
  | negativeRow (b : Variable) (row : LinearForm α)
  /-- A column without members was kept. -/
  | emptyColumn (v : Variable)
  /-- The column of `v` lists `b`, whose row does not mention it. -/
  | strayInColumn (v b : Variable)
  /-- A basic variable occurs in the objective. -/
  | basicInObjective (v : Variable)
  /-- The candidates are not the variables that may enter with profit. -/
  | candidatesDiffer (kept expected : List Variable)
  /-- The marker of a constraint does not lead back to it. -/
  | markerAstray (m : Variable) (id : ConstraintId)
  /-- There are more or fewer markers than constraints. -/
  | markerCount

namespace Violation

def describeAll (vs : List Variable) : String :=
  "\x7b" ++ ", ".intercalate (vs.map Variable.describe) ++ "\x7d"

def message {α : Type} [Scalar α] [Numeral α] : Violation α → String
  | .selfReference b => b.text ++ " appears in its own row"
  | .missingFromColumn v b => "column " ++ v.text ++ " is missing row " ++ b.text
  | .negativeRow b row => "restricted row " ++ b.text ++ " is negative: " ++ row.text
  | .emptyColumn v => "column " ++ v.text ++ " is empty but still indexed"
  | .strayInColumn v b => "column " ++ v.text ++ " lists " ++ b.text ++ " which lacks it"
  | .basicInObjective v => "basic variable " ++ v.text ++ " appears in the objective"
  | .candidatesDiffer kept expected =>
    "entry cache " ++ describeAll kept ++ " does not match objective " ++ describeAll expected
  | .markerAstray m id => "marker " ++ m.text ++ " of " ++ id.text ++ " is not mapped back"
  | .markerCount => "marker table and constraint table differ in size"

end Violation

namespace Tableau

variable {α : Type} [Scalar α]

def rowViolations (t : Tableau α) (b : Variable) (f : LinearForm α) : List (Violation α) :=
  (if f.contains b then [.selfReference b] else []) ++
  (f.vars.filter fun v => !(t.column v).contains b).map (Violation.missingFromColumn · b) ++
  (if b.isRestricted && Scalar.lt f.constant (-Scalar.tolerance) && !t.queue.contains b then
    [.negativeRow b f]
  else [])

def columnViolations (t : Tableau α) (v : Variable) (col : Roster Variable) :
    List (Violation α) :=
  (if col.isEmpty then [.emptyColumn v] else []) ++
  (col.keys.filter fun b => !(t.row? b).any (·.contains v)).map (Violation.strayInColumn v)

/-- The variables of the objective that may enter with profit, in the order of their numbers. -/
def profitableVars (t : Tableau α) : List Variable :=
  ((t.objective.terms.entries.filter fun e => e.1.mayEnter && Scalar.isNeg e.2).map
    Prod.fst).mergeSort fun v w => v.id ≤ w.id

def objectiveViolations (t : Tableau α) : List (Violation α) :=
  (t.objective.vars.filter t.isBasic).map .basicInObjective ++
  (if t.profitableVars = t.candidates.members then []
  else [.candidatesDiffer t.candidates.members t.profitableVars])

/-- What is wrong: rows first, then columns, then the objective. -/
def violations (t : Tableau α) : List (Violation α) :=
  t.rows.entries.flatMap (fun r => t.rowViolations r.1 r.2) ++
  t.columns.entries.flatMap (fun c => t.columnViolations c.1 c.2) ++
  t.objectiveViolations

end Tableau

end SoftSimplex
