import SoftSimplex.Tableau.Pass

/-!
Exchanging a basic variable for another.
-/

namespace SoftSimplex

variable {α : Type} [Scalar α]

/-- Make `entry` basic in the place of `exit`, by solving the row of `exit` for it. -/
def Tableau.exchange (t : Tableau α) (entry exit : Variable) : Except Fault (Tableau α) :=
  match t.row? exit with
  | some row =>
    if row.contains entry then
      let solved := row.exchange exit entry
      .ok (((t.removeRow exit).substitute entry solved).insertRow entry solved)
    else .error .entryNotInRow
  | none => .error .exitNotBasic

/-- The step that exchanges `exit` for `entry`. A refused exchange costs the row of `exit`. -/
def Step.ofExchange (t : Tableau α) (entry exit : Variable) : Step α :=
  match t.exchange entry exit with
  | .ok t' => .swapped t' ⟨entry, exit⟩
  | .error f => .failed (t.removeRow exit) (.fault f)

end SoftSimplex
