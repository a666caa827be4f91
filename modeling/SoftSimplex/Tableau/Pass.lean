import SoftSimplex.Failure
import SoftSimplex.Tableau.Basic

/-!
Passes. A pass is a step function repeated until it stops by itself; a budget of exchanges makes
that total, and a pass that would exceed its budget has no result.
-/

namespace SoftSimplex

variable {α : Type}

/-- A pair of variables that changed places. -/
structure Swap where
  entry : Variable
  exit : Variable
deriving DecidableEq

inductive Step (α : Type) where
  | done (t : Tableau α)
  | swapped (t : Tableau α) (s : Swap)
  | failed (t : Tableau α) (f : Failure)

structure Pass (α : Type) where
  tableau : Tableau α
  swaps : List Swap
  ending : Except Failure Unit

/-- Repeat a step until it ends the pass, if that takes no more than `budget` exchanges. -/
def Tableau.iterate (step : Tableau α → Step α) : Nat → Tableau α → Option (Pass α)
  | budget, t =>
    match step t with
    | .done t' => some ⟨t', [], .ok ()⟩
    | .failed t' f => some ⟨t', [], .error f⟩
    | .swapped t' s =>
      match budget with
      | 0 => none
      | n + 1 => (iterate step n t').map fun p => { p with swaps := s :: p.swaps }

end SoftSimplex
