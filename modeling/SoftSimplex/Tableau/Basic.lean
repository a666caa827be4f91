import SoftSimplex.LinearForm.Evaluation
import SoftSimplex.Tableau.Columns
import SoftSimplex.Tableau.Candidates

/-!
The tableau. Each basic variable has a row, the form it equals; the objective is a form in the
variables without a row. The column index, the candidates and the queue can be recomputed from
these and are kept in step with them.

An assignment solves the tableau if it gives every basic variable the value of its row. Putting
the variables without a row to zero yields one solution, in which a basic variable has the
constant of its row.
-/

namespace SoftSimplex

@[ext]
structure Tableau (α : Type) where
  /-- What each basic variable equals. -/
  rows : Table Variable (LinearForm α)
  columns : Columns
  /-- What the primal pass minimises. -/
  objective : LinearForm α
  /-- What the first phase minimises, while it lasts. -/
  artificial : Option (LinearForm α)
  /-- Variables that may enter and have a negative coefficient in the objective. -/
  candidates : Candidates
  /-- Restricted rows that went negative and wait for repair. -/
  queue : Roster Variable
deriving DecidableEq

namespace Tableau

section Parts

variable {α : Type}

def row? (t : Tableau α) (v : Variable) : Option (LinearForm α) := t.rows.get? v

def isBasic (t : Tableau α) (v : Variable) : Bool := t.rows.contains v

/-- The basic variables whose rows mention `v`. -/
def column (t : Tableau α) (v : Variable) : List Variable := t.columns.rowsOf v

def size (t : Tableau α) : Nat := t.rows.size

def insertRow (t : Tableau α) (b : Variable) (f : LinearForm α) : Tableau α :=
  { t with rows := t.rows.insert b f, columns := t.columns.linkAll b f.vars }

def removeRow (t : Tableau α) (b : Variable) : Tableau α :=
  match t.row? b with
  | some f =>
    { t with
      rows := t.rows.swapErase b
      columns := t.columns.unlinkAll b f.vars
      queue := t.queue.swapErase b }
  | none => t

/-- Erase `v` from the rows that its column lists, from both objectives and from the
candidates. -/
def removeColumn (t : Tableau α) (v : Variable) : Tableau α :=
  { t with
    rows := (t.column v).foldl (fun rs b => rs.modify b (·.erase v)) t.rows
    columns := t.columns.swapErase v
    objective := t.objective.erase v
    artificial := t.artificial.map (·.erase v)
    candidates := t.candidates.erase v }

/-- Forget `v`: its row, and every mention of it. -/
def discard (t : Tableau α) (v : Variable) : Tableau α := (t.removeRow v).removeColumn v

def endFirstPhase (t : Tableau α) : Tableau α := { t with artificial := none }

/-- The lowest candidate, and the tableau without it. -/
def takeCandidate (t : Tableau α) : Option Variable × Tableau α :=
  (t.candidates.head?, { t with candidates := t.candidates.tail })

/-- The row queued last, and the tableau without it in the queue. -/
def takeQueued (t : Tableau α) : Option Variable × Tableau α :=
  (t.queue.lastKey?, { t with queue := t.queue.dropLast })

def clearQueue (t : Tableau α) : Tableau α := { t with queue := ∅ }

end Parts

variable {α : Type} [Scalar α]

def empty : Tableau α := ⟨∅, ∅, 0, none, ∅, ∅⟩

instance : EmptyCollection (Tableau α) := ⟨empty⟩

/-- Add `c · v` to `f`, with the row of `v` in its place if it has one. -/
def accumulate (t : Tableau α) (f : LinearForm α) (v : Variable) (c : α) : LinearForm α :=
  match t.row? v with
  | some row => f.addScaled row c
  | none => f.addTerm v c

/-- Whether entering `v` would lower the objective. -/
def profitable (t : Tableau α) (v : Variable) : Bool :=
  v.mayEnter && (t.objective.terms.get? v).any Scalar.isNeg

def refresh (t : Tableau α) (v : Variable) : Tableau α :=
  { t with
    candidates := if t.profitable v then t.candidates.insert v else t.candidates.erase v }

def refreshAll (t : Tableau α) (vs : List Variable) : Tableau α := vs.foldl refresh t

def addCost (t : Tableau α) (v : Variable) (c : α) : Tableau α :=
  { t with objective := t.accumulate t.objective v c }.refreshAll
    (match t.row? v with
    | some row => row.vars
    | none => [v])

/-- Take the cost `c · v` out of the objective, and the row of `v` out of the tableau. -/
def waive (c : α) (t : Tableau α) (v : Variable) : Tableau α := (t.addCost v (-c)).removeRow v

/-- Let `b` wait for repair if its row must not be negative but is. -/
def enqueue (t : Tableau α) (b : Variable) : Tableau α :=
  if b.isRestricted && (t.row? b).any (fun f => Scalar.isNeg f.constant) then
    { t with queue := t.queue.add b }
  else t

def substituteRow (v : Variable) (f : LinearForm α) (t : Tableau α) (b : Variable) : Tableau α :=
  match t.row? b with
  | some row =>
    { t with
      rows := t.rows.insert b (row.substitute v f)
      columns := t.columns.followAll b (row.substituteChanges v f) }.enqueue b
  | none => t

def substitute (t : Tableau α) (v : Variable) (f : LinearForm α) : Tableau α :=
  let t := (t.column v).foldl (substituteRow v f) { t with columns := t.columns.swapErase v }
  let t : Tableau α :=
    { t with
      objective := t.objective.substitute v f
      artificial := t.artificial.map fun g => g.substitute v f }
  t.refreshAll (v :: f.vars)

def shiftRow (t : Tableau α) (b : Variable) (k : α) : Tableau α :=
  { t with rows := t.rows.modify b (·.shift k) }

/-- Follow a change by `δ` of the constant of a constraint whose marker is `m`. The marker entered
that constraint with coefficient -1, so it moves by `δ` itself, and a row that mentions it moves by
`-δ` for each unit of it. -/
def shiftConstant (t : Tableau α) (m : Variable) (δ : α) : Tableau α :=
  match t.row? m with
  | some row =>
    let t := t.shiftRow m δ
    if Scalar.isNeg (row.constant + δ) then { t with queue := t.queue.add m } else t
  | none =>
    (t.column m).foldl (fun t b =>
      match t.row? b with
      | some row => (t.shiftRow b (-row.coeff m * δ)).enqueue b
      | none => t) t

def Solves (t : Tableau α) (σ : Assignment α) : Prop :=
  ∀ r ∈ t.rows.entries, Scalar.eq (σ r.1) (r.2.eval σ) = true

/-- The solution that the tableau stands at: the other variables are zero. -/
def point (t : Tableau α) : Assignment α := fun v =>
  match t.row? v with
  | some row => row.constant
  | none => 0

def text [Numeral α] (t : Tableau α) : String :=
  "objective = " ++ t.objective.text ++ "\n" ++
    String.join (t.rows.entries.map fun r => r.1.text ++ " = " ++ r.2.text ++ "\n")

end Tableau

end SoftSimplex
