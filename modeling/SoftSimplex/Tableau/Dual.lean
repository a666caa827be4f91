import SoftSimplex.Tableau.Exchange
import SoftSimplex.Tableau.Ratio

/-!
The dual pass. It raises the queued rows, the one queued last first, each by the variable that does
so at the least cost.
-/

namespace SoftSimplex

namespace Tableau

variable {α : Type} [Scalar α]

def isSettled (t : Tableau α) (b : Variable) : Bool :=
  (t.row? b).all fun row => Scalar.isNonneg row.constant

/-- Repair the row queued last that needs it. -/
def repairStep (t : Tableau α) : Step α :=
  match { t with queue := t.queue.dropBackWhile t.isSettled }.takeQueued with
  | (none, t) => .done t
  | (some exit, t) =>
    match (t.row? exit).bind t.cheapest? with
    | none => .failed t (.fault .noRepair)
    | some entry => .ofExchange t entry exit

def repair (budget : Nat) (t : Tableau α) : Option (Pass α) := iterate repairStep budget t

end Tableau

end SoftSimplex
