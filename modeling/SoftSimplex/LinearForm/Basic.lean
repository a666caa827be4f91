import SoftSimplex.Scalar
import SoftSimplex.Table
import SoftSimplex.Variable
import SoftSimplex.Decimal.Plain

/-!
Linear forms `constant + Σ coefficient · variable`, each variable at most once, the terms in the
order in which they arrived. A sum that becomes negligible takes its term away; a changed form can
therefore gain and lose variables, and `Change` says which.
-/

namespace SoftSimplex

/-- What adding to a coefficient did to the term. -/
inductive Change where
  /-- The variable was absent and is now present. -/
  | added
  /-- The variable was present and still is. -/
  | updated
  /-- The variable was present and its term went away. -/
  | removed
  /-- The variable was absent and what was to be added is negligible. -/
  | unchanged
deriving DecidableEq

@[ext]
structure LinearForm (α : Type) where
  constant : α
  terms : Table Variable α
deriving DecidableEq

namespace LinearForm

section Parts

variable {α : Type}

def const (k : α) : LinearForm α := ⟨k, ∅⟩

def vars (f : LinearForm α) : List Variable := f.terms.keys

def size (f : LinearForm α) : Nat := f.terms.size

def isConstant (f : LinearForm α) : Bool := f.terms.isEmpty

def contains (f : LinearForm α) (v : Variable) : Bool := f.terms.contains v

/-- The same form without `v`'s term; the last term takes its place. -/
def erase (f : LinearForm α) (v : Variable) : LinearForm α :=
  { f with terms := f.terms.swapErase v }

def pivotable? (f : LinearForm α) : Option Variable := f.vars.find? Variable.isPivotable

end Parts

variable {α : Type} [Scalar α]

instance : Zero (LinearForm α) := ⟨const 0⟩

instance : Inhabited (LinearForm α) := ⟨0⟩

/-- The coefficient of `v`, zero if it has no term. -/
def coeff (f : LinearForm α) (v : Variable) : α := (f.terms.get? v).getD 0

def shift (f : LinearForm α) (k : α) : LinearForm α := { f with constant := f.constant + k }

/-- Add `c · v`. The term goes away if the sum is negligible, and does not come to be if `c` is. -/
def addTerm (f : LinearForm α) (v : Variable) (c : α) : LinearForm α :=
  match f.terms.get? v with
  | some old =>
    if Scalar.negligible (old + c) then f.erase v
    else { f with terms := f.terms.insert v (old + c) }
  | none =>
    if Scalar.negligible c then f else { f with terms := f.terms.insert v c }

/-- What `addTerm` does to the term of `v`. -/
def changeAt (f : LinearForm α) (v : Variable) (c : α) : Change :=
  match f.terms.get? v with
  | some old => if Scalar.negligible (old + c) then .removed else .updated
  | none => if Scalar.negligible c then .unchanged else .added

def term (v : Variable) (c : α) : LinearForm α := (0 : LinearForm α).addTerm v c

def var (v : Variable) : LinearForm α := term v 1

def addTerms (f : LinearForm α) : List (Variable × α) → LinearForm α
  | [] => f
  | t :: ts => (f.addTerm t.1 t.2).addTerms ts

/-- What `addTerms` does, term by term. -/
def changes (f : LinearForm α) : List (Variable × α) → List (Variable × Change)
  | [] => []
  | t :: ts => (t.1, f.changeAt t.1 t.2) :: (f.addTerm t.1 t.2).changes ts

def scaledTerms (f : LinearForm α) (m : α) : List (Variable × α) :=
  f.terms.entries.map fun t => (t.1, t.2 * m)

/-- Add `m · g`. -/
def addScaled (f g : LinearForm α) (m : α) : LinearForm α :=
  (f.shift (g.constant * m)).addTerms (g.scaledTerms m)

def addScaledChanges (f g : LinearForm α) (m : α) : List (Variable × Change) :=
  (f.shift (g.constant * m)).changes (g.scaledTerms m)

/-- Multiply the constant and every coefficient by `k`; no term goes away. -/
def scale (f : LinearForm α) (k : α) : LinearForm α :=
  ⟨f.constant * k, f.terms.mapValues (· * k)⟩

def negate (f : LinearForm α) : LinearForm α := f.scale (-1)

/-- The form that `v` equals where `f` is zero; `f` itself if it does not mention `v`. -/
def isolate (f : LinearForm α) (v : Variable) : LinearForm α :=
  match f.terms.get? v with
  | some c => (f.erase v).scale (-1 / c)
  | none => f

/-- The form that `new` equals where `f` equals `old`. -/
def exchange (f : LinearForm α) (old new : Variable) : LinearForm α :=
  (f.addTerm old (-1)).isolate new

def substitute (f : LinearForm α) (v : Variable) (g : LinearForm α) : LinearForm α :=
  match f.terms.get? v with
  | some c => (f.erase v).addScaled g c
  | none => f

/-- What `substitute` does to the terms: first `v` goes, then `g` comes. -/
def substituteChanges (f : LinearForm α) (v : Variable) (g : LinearForm α) :
    List (Variable × Change) :=
  match f.terms.get? v with
  | some c => (v, .removed) :: (f.erase v).addScaledChanges g c
  | none => []

/-- Whether two forms have equal constants and equal coefficients, in whatever order. -/
def same (f g : LinearForm α) : Bool :=
  Scalar.eq f.constant g.constant && f.size == g.size &&
    f.terms.entries.all fun t => (g.terms.get? t.1).any (Scalar.eq t.2)

/-- One term as text, with the sign that joins it to what comes before. -/
def termText [Numeral α] (v : Variable) (c : α) : String :=
  if Scalar.isNeg c then " - " ++ Numeral.text (-c) ++ "*" ++ v.text
  else " + " ++ Numeral.text c ++ "*" ++ v.text

def text [Numeral α] (f : LinearForm α) : String :=
  Numeral.text f.constant ++ String.join (f.terms.entries.map fun t => termText t.1 t.2)

end LinearForm

end SoftSimplex
