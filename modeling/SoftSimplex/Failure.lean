import SoftSimplex.Constraint

/-!
Why an operation fails.
-/

namespace SoftSimplex

/-- A tableau that does not fit together. -/
inductive Fault where
  /-- The variable to leave the basis is not in it. -/
  | exitNotBasic
  /-- The variable to enter does not occur in the row it is to take over. -/
  | entryNotInRow
  /-- No variable can raise a negative row. -/
  | noRepair
deriving DecidableEq

def Fault.message : Fault → String
  | .exitNotBasic => "pivot: exit variable is not basic"
  | .entryNotInRow => "pivot: entry variable is not in the exit row"
  | .noRepair => "dual optimize: no pivot found"

inductive Failure where
  /-- A required constraint cannot hold. -/
  | unsatisfiable
  /-- A required constraint cannot hold beside these. -/
  | conflict (ids : List ConstraintId)
  /-- The cost has no least value. -/
  | unbounded
  | unknownConstraint (id : ConstraintId)
  | fault (f : Fault)
deriving DecidableEq

def Failure.message : Failure → String
  | .unsatisfiable => "required constraint cannot be satisfied"
  | .conflict [] => "required constraint conflicts with the existing constraints"
  | .conflict (i :: is) =>
    "required constraint conflicts with " ++ ", ".intercalate ((i :: is).map ConstraintId.text)
  | .unbounded => "objective function is unbounded"
  | .unknownConstraint i => "constraint " ++ i.text ++ " is not in the solver"
  | .fault f => "internal solver error: " ++ f.message

end SoftSimplex
