import SoftSimplex.Variable

/-!
The variables that may enter the basis with profit, in the order of their numbers, one for each
number.
-/

namespace SoftSimplex

/-- Variables with increasing numbers. -/
@[ext]
structure Candidates where
  members : List Variable
  sorted : members.Pairwise fun v w => v.id < w.id
deriving DecidableEq

namespace Candidates

/-- Put `v` at its place, unless its number is taken. -/
def place (v : Variable) : List Variable → List Variable
  | [] => [v]
  | w :: ws =>
    if v.id < w.id then v :: w :: ws
    else if w.id < v.id then w :: place v ws
    else w :: ws

theorem mem_place {v w : Variable} {ws : List Variable} (h : w ∈ place v ws) :
    w = v ∨ w ∈ ws := by
  induction ws with
  | nil => simpa [place] using h
  | cons u us ih =>
    simp only [place] at h
    split at h
    · simpa using h
    · split at h
      · rcases List.mem_cons.1 h with rfl | h
        · simp
        · rcases ih h with rfl | h <;> simp [*]
      · exact Or.inr h

theorem place_sorted (v : Variable) {ws : List Variable}
    (h : ws.Pairwise fun v w => v.id < w.id) : (place v ws).Pairwise fun v w => v.id < w.id := by
  induction ws with
  | nil => simp [place]
  | cons u us ih =>
    have hu := List.pairwise_cons.1 h
    simp only [place]
    split
    · next hvu =>
      refine List.pairwise_cons.2 ⟨fun w hw => ?_, h⟩
      rcases List.mem_cons.1 hw with rfl | hw
      · exact hvu
      · exact Nat.lt_trans hvu (hu.1 w hw)
    · split
      · next huv =>
        refine List.pairwise_cons.2 ⟨fun w hw => ?_, ih hu.2⟩
        rcases mem_place hw with rfl | hw
        · exact huv
        · exact hu.1 w hw
      · exact h

def empty : Candidates := ⟨[], List.Pairwise.nil⟩

instance : EmptyCollection Candidates := ⟨empty⟩

def insert (c : Candidates) (v : Variable) : Candidates :=
  ⟨place v c.members, place_sorted v c.sorted⟩

/-- Take the number of `v` out. -/
def erase (c : Candidates) (v : Variable) : Candidates :=
  ⟨c.members.filter fun w => w.id != v.id, c.sorted.filter _⟩

def dropWhile (c : Candidates) (p : Variable → Bool) : Candidates :=
  ⟨c.members.dropWhile p, c.sorted.sublist (List.dropWhile_sublist p)⟩

def tail (c : Candidates) : Candidates := ⟨c.members.tail, c.sorted.tail⟩

def head? (c : Candidates) : Option Variable := c.members.head?

end Candidates

end SoftSimplex
