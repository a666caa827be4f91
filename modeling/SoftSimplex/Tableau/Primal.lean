import SoftSimplex.Tableau.Exchange
import SoftSimplex.Tableau.Ratio

/-!
The primal passes. They lower an objective, the real one or that of the first phase, by letting the
lowest variable enter that lowers it and taking out the row that limits it most.
-/

namespace SoftSimplex

namespace Tableau

variable {α : Type} [Scalar α]

/-! ## The objective -/

def isStale (t : Tableau α) (v : Variable) : Bool :=
  t.isBasic v || Scalar.isNonneg (t.objective.coeff v)

/-- One step down the objective. Candidates out of date are dropped on the way. -/
def objectiveStep (t : Tableau α) : Step α :=
  match { t with candidates := t.candidates.dropWhile t.isStale }.takeCandidate with
  | (none, t) => .done t
  | (some entry, t) =>
    match t.tightest? entry with
    | none => .failed (t.refresh entry) .unbounded
    | some exit => .ofExchange t entry exit

def minimize (budget : Nat) (t : Tableau α) : Option (Pass α) := iterate objectiveStep budget t

/-! ## The first phase -/

/-- The variables whose entering lowers the artificial objective. -/
def artificialEntries (t : Tableau α) : List Variable :=
  match t.artificial with
  | some f => (f.terms.entries.filter fun e => e.1.mayEnter && Scalar.isNeg e.2).map Prod.fst
  | none => []

def artificialStep (t : Tableau α) : Step α :=
  match Variable.lowest? t.artificialEntries with
  | none => .done t
  | some entry =>
    match t.tightest? entry with
    | none => .failed (t.refresh entry) .unbounded
    | some exit => .ofExchange t entry exit

def minimizeArtificial (budget : Nat) (t : Tableau α) : Option (Pass α) :=
  iterate artificialStep budget t

end Tableau

end SoftSimplex
