import SoftSimplex.Tableau.Pass

/-!
What a solver tells about its work.
-/

namespace SoftSimplex

inductive Event (α : Type) where
  | adding (id : ConstraintId) (relation : Relation)
  | removed (id : ConstraintId)
  /-- The constant of a constraint moved by `change`. -/
  | constantUpdated (id : ConstraintId) (value change : α)
  | strengthUpdated (id : ConstraintId) (weight : α)
  /-- A strength stayed, because a required one would come or go. -/
  | strengthKept (id : ConstraintId) (weight proposed : α)
  /-- The first phase ended above zero. -/
  | unsatisfiable (id : ConstraintId) (residual : α)
  /-- The first phase brought a constraint in. -/
  | addedByFirstPhase (id : ConstraintId)
  | swapped (s : Swap)
  | repairFailed (f : Failure)
  | reset

/-- One line: how serious the event is, what it is, and its data. -/
def Event.text {α : Type} [Numeral α] : Event α → String
  | .adding id r => "DEBUG adding constraint constraint=" ++ id.text ++ " relation=" ++ r.text
  | .removed id => "DEBUG removed constraint constraint=" ++ id.text
  | .constantUpdated id value change =>
    "DEBUG updated constant constraint=" ++ id.text ++ " value=" ++ Numeral.text value ++
      " delta=" ++ Numeral.text change
  | .strengthUpdated id w =>
    "DEBUG updated strength constraint=" ++ id.text ++ " weight=" ++ Numeral.text w
  | .strengthKept id w w' =>
    "WARN ignoring strength change involving a required constraint constraint=" ++ id.text ++
      " from=" ++ Numeral.text w ++ " to=" ++ Numeral.text w'
  | .unsatisfiable id residual =>
    "DEBUG required constraint is unsatisfiable constraint=" ++ id.text ++
      " residual=" ++ Numeral.text residual
  | .addedByFirstPhase id =>
    "DEBUG added constraint through artificial variable constraint=" ++ id.text
  | .swapped s => "TRACE pivot entry=" ++ s.entry.text ++ " exit=" ++ s.exit.text
  | .repairFailed f => "ERROR dual optimization failed error=" ++ f.message
  | .reset => "DEBUG solver reset"

end SoftSimplex
