import SoftSimplex.Solver.Request

/-!
Histories: the solvers that a client can get to, together with the variables it was given on the
way. A client keeps to its own variables, and a history may be confined to requests and outcomes of
a kind. A session is a history that remembers its outcomes.
-/

namespace SoftSimplex

variable {α : Type}

def Request.Within (vs : List Variable) : Request α → Prop
  | .add c => ∀ v ∈ c.form.vars, v ∈ vs
  | _ => True

def Reply.clients : Except Failure Reply → List Variable
  | .ok (.client v) => [v]
  | _ => []

def Reply.named? : Except Failure Reply → Option ConstraintId
  | .ok (.constraint id) => some id
  | _ => none

namespace Outcome

variable {ρ : Type}

def Repaired (o : Outcome α ρ) : Prop := ∀ f, Event.repairFailed f ∉ o.log

end Outcome

namespace Solver

variable [Scalar α]

/-- The solvers that histories of allowed requests lead to, with the client's variables. -/
inductive Reached (allowed : Solver α → Request α → Outcome α Reply → Prop) :
    List Variable → Solver α → Prop where
  | start (settings : Settings) : Reached allowed [] (ofSettings settings)
  | step {vs : List Variable} {s : Solver α} {r : Request α} {n : Nat} {o : Outcome α Reply} :
    Reached allowed vs s → r.Within vs → s.perform n r = some o → allowed s r o →
      Reached allowed (vs ++ Reply.clients o.answer) o.solver

/-- A history of a narrower kind. -/
theorem Reached.mono {allowed allowed' : Solver α → Request α → Outcome α Reply → Prop}
    (hallowed : ∀ s q o, allowed s q o → allowed' s q o) {vs : List Variable} {s : Solver α}
    (h : Reached allowed vs s) : Reached allowed' vs s := by
  induction h with
  | start settings => exact .start settings
  | step _ hq ho hok ih => exact ih.step hq ho (hallowed _ _ _ hok)

/-- Any history, with the outcomes of its requests from first to last. -/
inductive Session : List (Outcome α Reply) → List Variable → Solver α → Prop where
  | start (settings : Settings) : Session [] [] (ofSettings settings)
  | step {os : List (Outcome α Reply)} {vs : List Variable} {s : Solver α} {r : Request α} {n : Nat}
    {o : Outcome α Reply} : Session os vs s → r.Within vs → s.perform n r = some o →
      Session (os ++ [o]) (vs ++ Reply.clients o.answer) o.solver

def named (os : List (Outcome α Reply)) : List ConstraintId :=
  os.filterMap fun o => Reply.named? o.answer

theorem Session.reached {os : List (Outcome α Reply)} {vs : List Variable} {s : Solver α}
    (h : Session os vs s) : Reached (fun _ _ _ => True) vs s := by
  induction h with
  | start settings => exact .start settings
  | step _ hq ho ih => exact ih.step hq ho trivial

/-- Every history is that of a session. -/
theorem Reached.session {allowed : Solver α → Request α → Outcome α Reply → Prop}
    {vs : List Variable} {s : Solver α} (h : Reached allowed vs s) : ∃ os, Session os vs s := by
  induction h with
  | start settings => exact ⟨[], .start settings⟩
  | step _ hq ho _ ih =>
    obtain ⟨os, hs⟩ := ih
    exact ⟨_, hs.step hq ho⟩

/-- Whether the request moves no constant of a required constraint. -/
def KeepsRequired (s : Solver α) : Request α → Prop
  | .updateConstant id _ => ∀ c, s.constraint? id = some c → c.isRequired = false
  | _ => True

def RequiredHold (s : Solver α) (σ : Assignment α) : Prop :=
  ∀ e ∈ s.constraints, e.2.isRequired = true → e.2.Holds σ

/-- What missing the other constraints costs under an assignment. -/
def cost (s : Solver α) (σ : Assignment α) : α :=
  ((s.constraints.filter fun e => !e.2.isRequired).map fun e => e.2.weight * e.2.violation σ).sum

end Solver

end SoftSimplex
