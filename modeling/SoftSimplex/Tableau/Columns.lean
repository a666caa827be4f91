import SoftSimplex.LinearForm.Basic

/-!
The column index of a tableau: for every variable, the basic variables whose rows mention it. A
column without members is not kept.
-/

namespace SoftSimplex

/-- Every mentioned variable with the rows that mention it. -/
abbrev Columns : Type := Table Variable (Roster Variable)

namespace Columns

def rowsOf (cs : Columns) (v : Variable) : List Variable :=
  match cs.get? v with
  | some col => col.keys
  | none => []

/-- Note that the row of `b` mentions `v`. -/
def link (cs : Columns) (b v : Variable) : Columns :=
  cs.insert v (Roster.add ((cs.get? v).getD ∅) b)

def unlink (cs : Columns) (b v : Variable) : Columns :=
  match cs.get? v with
  | some col =>
    if (col.swapErase b).isEmpty then cs.swapErase v else cs.insert v (col.swapErase b)
  | none => cs

/-- Follow what happened to one term of the row of `b`. -/
def follow (cs : Columns) (b v : Variable) : Change → Columns
  | .added => cs.link b v
  | .removed => cs.unlink b v
  | .updated | .unchanged => cs

def linkAll (cs : Columns) (b : Variable) (vs : List Variable) : Columns :=
  vs.foldl (fun cs v => cs.link b v) cs

def unlinkAll (cs : Columns) (b : Variable) (vs : List Variable) : Columns :=
  vs.foldl (fun cs v => cs.unlink b v) cs

def followAll (cs : Columns) (b : Variable) (log : List (Variable × Change)) : Columns :=
  log.foldl (fun cs e => cs.follow b e.1 e.2) cs

end Columns

end SoftSimplex
