/-!
Variables. A variable is a number with a role; two are the same if both agree. They are ordered by
number alone.
-/

namespace SoftSimplex

/-- What a variable is for. The first two belong to the client, the others to the solver. -/
inductive Role where
  /-- A client variable that may take any value. -/
  | free
  /-- A client variable that stays nonnegative. -/
  | bounded
  /-- The gap by which an inequality holds. -/
  | slack
  /-- The amount by which a preference is missed on one side. -/
  | error
  /-- The mark of a required equality, zero in every solution. -/
  | dummy
deriving DecidableEq

namespace Role

def letter : Role → Char
  | .free => 'x'
  | .bounded => 'r'
  | .slack => 's'
  | .error => 'e'
  | .dummy => 'd'

def describe : Role → String
  | .free => "External \x7b restricted: false \x7d"
  | .bounded => "External \x7b restricted: true \x7d"
  | .slack => "Slack"
  | .error => "Error"
  | .dummy => "Dummy"

end Role

structure Variable where
  id : Nat
  role : Role
deriving DecidableEq

/-- Variables are ordered by number; different roles do not tell two apart here. -/
instance : Ord Variable := ⟨fun v w => compare v.id w.id⟩

namespace Variable

def isClient (v : Variable) : Bool := v.role == .free || v.role == .bounded

/-- Whether it has to stay nonnegative. -/
def isRestricted (v : Variable) : Bool := v.role != .free

/-- Whether a row that the client's variables leave open may be solved for it. -/
def isPivotable (v : Variable) : Bool := v.role == .slack || v.role == .error

/-- Whether a pass may make it basic. A free variable never leaves the basis, and a dummy is
never to leave zero. -/
def mayEnter (v : Variable) : Bool :=
  v.role == .bounded || v.role == .slack || v.role == .error

def text (v : Variable) : String := v.role.letter.toString ++ toString v.id

def describe (v : Variable) : String :=
  "Variable \x7b id: " ++ toString v.id ++ ", kind: " ++ v.role.describe ++ " \x7d"

/-- The first variable of lowest number. -/
def lowest? : List Variable → Option Variable
  | [] => none
  | v :: vs =>
    match lowest? vs with
    | some w => if w.id < v.id then some w else some v
    | none => some v

end Variable

/-- Where variables come from: each gets the next number. -/
structure Supply where
  drawn : Nat := 0
deriving DecidableEq

namespace Supply

def next (s : Supply) (role : Role) : Variable := ⟨s.drawn, role⟩

def advance (s : Supply) : Supply := ⟨s.drawn + 1⟩

/-- Whether `v` has a number that was drawn. -/
def owns (s : Supply) (v : Variable) : Bool := v.id < s.drawn

end Supply

end SoftSimplex
