import SoftSimplex.Solver.Retraction

/-!
Bringing an equation in when no variable of it can be solved for. An artificial variable gets the
equation as its row and is then minimised. If it reaches zero it has done its work and goes; if it
cannot, the constraint contradicts the others and goes.
-/

namespace SoftSimplex

/-- The variable that takes over a row of constant zero: a slack or error variable if there is one,
none if the row mentions no variable. -/
def LinearForm.successor? {α : Type} (row : LinearForm α) : Option Variable :=
  row.pivotable?.or (Variable.lowest? row.vars)

namespace Solver

variable {α : Type} [Scalar α]

/-- The solver with the equation as the row, and the objective, of an artificial variable. -/
def beginFirstPhase (s : Solver α) (equation : LinearForm α) : Solver α :=
  let t := s.tableau.insertRow (s.supply.next .slack) equation
  { s with supply := s.supply.advance, tableau := { t with artificial := some equation } }

/-- The constraints, except `adding`, whose markers keep the artificial variable up. -/
def conflicts (s : Solver α) (adding : ConstraintId) (a : Variable) : List ConstraintId :=
  let vs := a :: ((s.tableau.row? a).map LinearForm.vars).getD []
  let ids := (vs.filterMap s.markers.get?).filter (· != adding)
  ids.eraseDups.mergeSort fun i j => i.index ≤ j.index

def refusal (s : Solver α) (adding : ConstraintId) (a : Variable) : Failure :=
  if s.settings.explainFailure then .conflict (s.conflicts adding a) else .unsatisfiable

/-- Drop the artificial variable and take the constraint back, then tell `news` and report `f`;
if that fails, its own failure is reported. -/
def rollBack (s : Solver α) (id : ConstraintId) (a : Variable) (news : List (Event α))
    (f : Failure) : Outcome α Unit :=
  let o := { s with tableau := s.tableau.discard a }.retract id
  match o.answer with
  | .ok () => ⟨o.solver, o.log ++ news, .error f⟩
  | .error _ => o

/-- Take the artificial variable, which stands at zero, out of the tableau. -/
def dismiss (s : Solver α) (id : ConstraintId) (a : Variable) : Outcome α Unit :=
  let finish (t : Tableau α) (swaps : List (Event α)) : Outcome α Unit :=
    ⟨{ s with tableau := t.removeColumn a }, swaps ++ [.addedByFirstPhase id], .ok ()⟩
  match (s.tableau.row? a).map LinearForm.successor? with
  | none => finish s.tableau []
  | some none => finish (s.tableau.removeRow a) []
  | some (some entry) =>
    match s.tableau.exchange entry a with
    | .ok t => finish t [.swapped ⟨entry, a⟩]
    | .error f => ⟨{ s with tableau := s.tableau.removeRow a }, [], .error (.fault f)⟩

def concludeFirstPhase (s : Solver α) (id : ConstraintId) (a : Variable) (p : Pass α) :
    Outcome α Unit :=
  let residual := (p.tableau.artificial.map LinearForm.constant).getD 0
  let s := { s with tableau := p.tableau.endFirstPhase }
  match p.ending with
  | .error f => s.rollBack id a [] f
  | .ok () =>
    if Scalar.negligible residual then s.dismiss id a
    else s.rollBack id a [.unsatisfiable id residual] (s.refusal id a)

def addByFirstPhase (budget : Nat) (s : Solver α) (id : ConstraintId) (equation : LinearForm α) :
    Option (Outcome α Unit) :=
  let a := s.supply.next .slack
  let s := s.beginFirstPhase equation
  (s.tableau.minimizeArtificial budget).map fun p =>
    let o := s.concludeFirstPhase id a p
    { o with log := p.swaps.map .swapped ++ o.log }

end Solver

end SoftSimplex
