import SoftSimplex.Proofs.RenamedHistories
import SoftSimplex.Scalar.Exact

/-!
# A solver that was reset is like a new one

Besides its settings, a reset leaves a solver nothing but the numbers that it has used up. It goes on
from them where a new solver with as many client variables goes on from its own. So the one is the
other under a renaming, and whatever is asked of the two from then on comes to the same, but for
names: the results, the values of the variables, the constraints, and the text that a solver prints.
-/

namespace SoftSimplex

variable {α : Type}

/-! ## Texts with other names -/

section Texts

variable [Scalar α] [Numeral α]

def LinearForm.termTextBy (name : Variable → String) (v : Variable) (c : α) : String :=
  if Scalar.isNeg c then " - " ++ Numeral.text (-c) ++ "*" ++ name v
  else " + " ++ Numeral.text c ++ "*" ++ name v

/-- A form as text, its variables under the given names. -/
def LinearForm.textBy (name : Variable → String) (f : LinearForm α) : String :=
  Numeral.text f.constant ++ String.join (f.terms.entries.map fun t => termTextBy name t.1 t.2)

def Tableau.textBy (name : Variable → String) (t : Tableau α) : String :=
  "objective = " ++ t.objective.textBy name ++ "\n" ++
    String.join (t.rows.entries.map fun r => name r.1 ++ " = " ++ r.2.textBy name ++ "\n")

def Solver.textBy (name : Variable → String) (s : Solver α) : String :=
  toString s.size ++ " constraints, " ++ toString s.tableau.size ++ " rows\n" ++
    s.tableau.textBy name

/-- The text of a solver has its variables under their own names. -/
theorem Solver.text_eq (s : Solver α) : s.text = s.textBy Variable.text := rfl

variable (φ : Renumbering)

theorem LinearForm.text_rename (f : LinearForm α) :
    (f.rename φ).text = f.textBy fun v => (φ v).text := by
  unfold text textBy
  rw [terms_rename, Table.entries_rename, List.map_map]
  rfl

theorem Tableau.text_rename (t : Tableau α) :
    (t.rename φ).text = t.textBy fun v => (φ v).text := by
  have hrows : (t.rename φ).rows.entries =
      t.rows.entries.map (Prod.map φ (LinearForm.rename φ)) := rfl
  have hlines : (fun r : Variable × LinearForm α => r.1.text ++ " = " ++ r.2.text ++ "\n") ∘
      Prod.map φ (LinearForm.rename φ) = fun r =>
        (φ r.1).text ++ " = " ++ r.2.textBy (fun v => (φ v).text) ++ "\n" := by
    funext r
    simp only [Function.comp_apply, Prod.map_fst, Prod.map_snd, LinearForm.text_rename]
  unfold text textBy
  rw [hrows, List.map_map, objective_rename, LinearForm.text_rename, hlines]

theorem Solver.text_rename (ρ : Renaming) (s : Solver α) :
    (s.rename ρ).text = s.textBy fun v => (ρ.vars v).text := by
  have hsize : (s.rename ρ).size = s.size := Table.size_rename ρ.ids _ s.records
  unfold text textBy
  rw [hsize, tableau_rename, Tableau.size_rename, Tableau.text_rename]

end Texts

/-! ## Alike but for names -/

/-- Whether a client sees the same of two solvers, but for names. -/
structure Solver.Alike [Scalar α] (ρ : Renaming) (s s' : Solver α) : Prop where
  value : ∀ v, s'.value? (ρ.vars v) = s.value? v
  constraints : s'.constraints = s.constraints.map (Prod.map ρ.ids (Constraint.rename ρ.vars))
  constraint : ∀ id, s'.constraint? (ρ.ids id) = (s.constraint? id).map (Constraint.rename ρ.vars)
  text : ∀ [Numeral α], s'.text = s.textBy fun v => (ρ.vars v).text

structure Outcome.Alike [Scalar α] (ρ : Renaming) (o o' : Outcome α Reply) : Prop where
  answer : o'.answer = (o.answer.map (Reply.rename ρ)).mapError (Failure.rename ρ)
  log : o'.log = o.log.map (Event.rename ρ)
  solver : o.solver.Alike ρ o'.solver

/-- Whether two sequences of requests come to the same, request by request and in the end. -/
def Solver.RunsAlike [Scalar α] (ρ : Renaming) (x x' : List (Outcome α Reply) × Solver α) : Prop :=
  List.Forall₂ (Outcome.Alike ρ) x.1 x'.1 ∧ x.2.Alike ρ x'.2

section Alike

variable [Scalar α] (ρ : Renaming)

theorem Solver.value?_rename (s : Solver α) (v : Variable) :
    (s.rename ρ).value? (ρ.vars v) = s.value? v := by
  have howns : (s.supply.rename ρ.vars).owns (ρ.vars v) = s.supply.owns v := by
    unfold Supply.owns Supply.rename
    simp
  unfold value?
  rw [tableau_rename, Tableau.row?_rename, supply_rename, howns]
  cases s.tableau.row? v <;> rfl

theorem Solver.alike_rename (s : Solver α) : s.Alike ρ (s.rename ρ) where
  value := value?_rename ρ s
  constraints := by
    unfold constraints rename
    rw [Table.entries_rename, List.map_map, List.map_map]
    rfl
  constraint id := by
    unfold constraint?
    rw [record?_rename, Option.map_map, Option.map_map]
    rfl
  text := text_rename ρ s

theorem Outcome.alike_rename (o : Outcome α Reply) : o.Alike ρ (o.rename ρ (Reply.rename ρ)) :=
  ⟨rfl, rfl, o.solver.alike_rename ρ⟩

theorem Solver.runsAlike_rename (x : List (Outcome α Reply) × Solver α) :
    RunsAlike ρ x (Prod.map (List.map (Outcome.rename ρ (Reply.rename ρ))) (rename ρ) x) := by
  refine ⟨?_, x.2.alike_rename ρ⟩
  rw [Prod.map_fst, List.forall₂_map_right_iff]
  exact List.forall₂_same.2 fun o _ => o.alike_rename ρ

theorem Solver.rel_map_rename (x : Option (List (Outcome α Reply) × Solver α)) :
    Option.Rel (RunsAlike ρ) x
      (x.map (Prod.map (List.map (Outcome.rename ρ (Reply.rename ρ))) (rename ρ))) := by
  cases x with
  | none => exact .none
  | some x => exact .some (runsAlike_rename ρ x)

end Alike

/-! ## Variables handed out -/

def handedOut (os : List (Outcome α Reply)) : List Variable :=
  os.flatMap fun o => Reply.clients o.answer

namespace Solver

variable [Scalar α] {s s' : Solver α} {qs : List (Nat × Request α)} {os : List (Outcome α Reply)}

/-- Variables are handed out with increasing numbers, from the solver's supply. -/
theorem handedOut_sorted (h : s.run qs = some (os, s')) :
    s.supply.drawn ≤ s'.supply.drawn ∧ (handedOut os).Pairwise (fun v w => v.id < w.id) ∧
      ∀ v ∈ handedOut os,
        v.isClient = true ∧ s.supply.drawn ≤ v.id ∧ v.id < s'.supply.drawn := by
  induction qs generalizing s os with
  | nil =>
    cases h
    exact ⟨le_rfl, List.Pairwise.nil, fun v hv => by cases hv⟩
  | cons q qs ih =>
    obtain ⟨o, ho, h⟩ := Option.bind_eq_some_iff.1 h
    obtain ⟨x, hx, hend⟩ := Option.map_eq_some_iff.1 h
    cases hend
    obtain ⟨hdrawn, hsorted, hclients⟩ := ih hx
    have hle : s.supply.drawn ≤ o.solver.supply.drawn := (later_perform ho).drawn
    have hrest : ∀ v ∈ handedOut x.1,
        v.isClient = true ∧ s.supply.drawn ≤ v.id ∧ v.id < x.2.supply.drawn := fun v hv =>
      ⟨(hclients v hv).1, hle.trans (hclients v hv).2.1, (hclients v hv).2.2⟩
    have hsplit : handedOut (o :: x.1) = Reply.clients o.answer ++ handedOut x.1 := rfl
    rw [hsplit]
    rcases clients_perform ho with hnone | ⟨b, hq, hnew⟩
    · rw [hnone, List.nil_append]
      exact ⟨hle.trans hdrawn, hsorted, hrest⟩
    · rw [hq] at ho
      cases ho
      rw [hnew]
      have hmore : s.supply.drawn + 1 ≤ x.2.supply.drawn := hdrawn
      refine ⟨hle.trans hdrawn, List.pairwise_cons.2 ⟨fun v hv => ?_, hsorted⟩, ?_⟩
      · exact Nat.lt_of_succ_le (hclients v hv).2.1
      · rintro v hv
        rcases List.mem_cons.1 hv with rfl | hv
        · refine ⟨?_, le_rfl, hmore⟩
          cases b <;> rfl
        · exact hrest v hv

/-- Client variables of the same kinds as `vs`, from a supply that begins at `d`. -/
def likeFrom (d : Nat) (vs : List Variable) : List Variable :=
  vs.mapIdx fun i v => ⟨d + i, v.role⟩

def requestsFor (vs : List Variable) : List (Nat × Request α) :=
  vs.map fun v => (0, .newVariable (v.role == .bounded))

theorem run_requestsFor (s : Solver α) {vs : List Variable} (hvs : ∀ v ∈ vs, v.isClient = true) :
    ∃ os, s.run (requestsFor vs) =
        some (os, { s with supply := ⟨s.supply.drawn + vs.length⟩ }) ∧
      handedOut os = likeFrom s.supply.drawn vs := by
  induction vs generalizing s with
  | nil => exact ⟨[], rfl, rfl⟩
  | cons v vs ih =>
    obtain ⟨hv, hvs⟩ := List.forall_mem_cons.1 hvs
    have hrole : (if v.role == .bounded then Role.bounded else .free) = v.role := by
      unfold Variable.isClient at hv
      cases hr : v.role <;> rw [hr] at hv <;> first | rfl | cases hv
    obtain ⟨os, hrun, hout⟩ := ih (s.newVariable (v.role == .bounded)).2 hvs
    have hnext : (s.newVariable (v.role == .bounded)).1 = ⟨s.supply.drawn, v.role⟩ :=
      congrArg (Variable.mk s.supply.drawn) hrole
    refine ⟨⟨(s.newVariable (v.role == .bounded)).2, [],
      .ok (.client (s.newVariable (v.role == .bounded)).1)⟩ :: os, ?_, ?_⟩
    · have hdrawn : (s.newVariable (v.role == .bounded)).2.supply.drawn + vs.length =
          s.supply.drawn + (v :: vs).length := by
        rw [List.length_cons]
        show s.supply.drawn + 1 + vs.length = s.supply.drawn + (vs.length + 1)
        omega
      have hfirst : s.perform 0 (.newVariable (v.role == .bounded)) =
          some ⟨(s.newVariable (v.role == .bounded)).2, [],
            .ok (.client (s.newVariable (v.role == .bounded)).1)⟩ := rfl
      unfold requestsFor at hrun ⊢
      simp only [List.map_cons, run, hfirst, Option.bind_some, hrun, hdrawn]
      rfl
    · have hsplit : likeFrom s.supply.drawn (v :: vs) =
          ⟨s.supply.drawn, v.role⟩ :: likeFrom (s.supply.drawn + 1) vs := by
        simp [likeFrom, List.mapIdx_cons, Nat.add_assoc, Nat.add_comm 1]
      rw [hsplit, ← hnext]
      exact congrArg (_ :: ·) hout

end Solver

/-! ## The renaming -/

/-- The numbers of the variables in `vs`, and then those from `d` on. -/
def Renumbering.onto (vs : List Variable) (d : Nat) (hsorted : vs.Pairwise fun v w => v.id < w.id)
    (hlt : ∀ v ∈ vs, v.id < d) : Renumbering where
  number k := if h : k < vs.length then vs[k].id else d + (k - vs.length)
  strictMono := by
    apply strictMono_nat_of_lt_succ
    intro k
    by_cases hk : k + 1 < vs.length
    · rw [dif_pos hk, dif_pos (Nat.lt_of_succ_lt hk)]
      exact List.pairwise_iff_getElem.1 hsorted k (k + 1) _ hk (Nat.lt_succ_self k)
    · rw [dif_neg hk]
      by_cases hk' : k < vs.length
      · rw [dif_pos hk']
        exact (hlt _ (List.getElem_mem hk')).trans_le (Nat.le_add_right _ _)
      · rw [dif_neg hk']
        omega

namespace Renumbering

variable {vs : List Variable} {d : Nat} (hsorted : vs.Pairwise fun v w => v.id < w.id)
  (hlt : ∀ v ∈ vs, v.id < d)

theorem number_onto_of_le {k : Nat} (hk : vs.length ≤ k) :
    (onto vs d hsorted hlt).number k = d + (k - vs.length) :=
  dif_neg (Nat.not_lt.2 hk)

theorem steady_onto : (onto vs d hsorted hlt).Steady vs.length := by
  intro k hk
  rw [number_onto_of_le hsorted hlt hk, number_onto_of_le hsorted hlt (Nat.le_succ_of_le hk)]
  omega

/-- Variables of the same kinds as `vs`, in their order, become those of `vs`. -/
theorem map_onto : (Solver.likeFrom 0 vs).map (onto vs d hsorted hlt) = vs := by
  apply List.ext_getElem
  · simp [Solver.likeFrom]
  · intro k hk hk'
    have hnumber : (onto vs d hsorted hlt).number k = vs[k].id := dif_pos hk'
    rw [List.getElem_map]
    simp only [Solver.likeFrom, List.getElem_mapIdx, Nat.zero_add]
    exact congrArg (Variable.mk · _) hnumber

theorem exists_onto {v : Variable} (hv : v ∈ vs ∨ d ≤ v.id) :
    ∃ w, onto vs d hsorted hlt w = v := by
  rcases hv with hv | hv
  · rw [← map_onto hsorted hlt] at hv
    obtain ⟨w, -, hw⟩ := List.mem_map.1 hv
    exact ⟨w, hw⟩
  · refine ⟨⟨vs.length + (v.id - d), v.role⟩, ?_⟩
    have hnumber := number_onto_of_le hsorted hlt (Nat.le_add_right vs.length (v.id - d))
    have hid : (onto vs d hsorted hlt).number (vs.length + (v.id - d)) = v.id := by
      rw [hnumber]
      omega
    exact congrArg (Variable.mk · _) hid

end Renumbering

/-- Shift the first `n` numbers by `m`; the `m` numbers after them go where they were. -/
def shiftBelow (m n i : Nat) : Nat :=
  if i < n then i + m else if i < n + m then i - n else i

theorem shiftBelow_shiftBelow (m n i : Nat) : shiftBelow n m (shiftBelow m n i) = i := by
  unfold shiftBelow
  split
  · rw [if_neg (by omega), if_pos (by omega)]
    omega
  · split
    · rw [if_pos (by omega)]
      omega
    · rw [if_neg (by omega), if_neg (by omega)]

def ConstraintId.shiftBelow (m n : Nat) : Equiv.Perm ConstraintId where
  toFun i := ⟨SoftSimplex.shiftBelow m n i.index⟩
  invFun i := ⟨SoftSimplex.shiftBelow n m i.index⟩
  left_inv i := congrArg ConstraintId.mk (shiftBelow_shiftBelow m n i.index)
  right_inv i := congrArg ConstraintId.mk (shiftBelow_shiftBelow n m i.index)

theorem ConstraintId.shiftBelow_of_lt {m n i : Nat} (hi : i < n) :
    ConstraintId.shiftBelow m n ⟨i⟩ = ⟨i + m⟩ :=
  congrArg ConstraintId.mk (if_pos hi)

/-! ## Requests -/

def Request.vars : Request α → List Variable
  | .add c => c.form.vars
  | _ => []

/-- A request about renamed variables is a renamed request. -/
theorem Request.exists_rename (ρ : Renaming) {q : Request α}
    (hq : ∀ v ∈ q.vars, ∃ w, ρ.vars w = v) : ∃ p : Request α, p.rename ρ = q := by
  cases q with
  | add c =>
    obtain ⟨f, hf⟩ := LinearForm.exists_rename ρ.vars hq
    exact ⟨.add { c with form := f }, congrArg Request.add (Constraint.ext hf rfl rfl)⟩
  | remove id => exact ⟨.remove (ρ.ids.symm id), congrArg Request.remove (ρ.ids.apply_symm_apply id)⟩
  | updateConstant id k =>
    exact ⟨.updateConstant (ρ.ids.symm id) k,
      congrArg (Request.updateConstant · k) (ρ.ids.apply_symm_apply id)⟩
  | updateStrength id new =>
    exact ⟨.updateStrength (ρ.ids.symm id) new,
      congrArg (Request.updateStrength · new) (ρ.ids.apply_symm_apply id)⟩
  | newVariable b => exact ⟨.newVariable b, rfl⟩
  | solve => exact ⟨.solve, rfl⟩
  | reset => exact ⟨.reset, rfl⟩
  | setAutoSolve b => exact ⟨.setAutoSolve b, rfl⟩
  | setExplainFailure b => exact ⟨.setExplainFailure b, rfl⟩

theorem Request.exists_map_rename (ρ : Renaming) {qs : List (Nat × Request α)}
    (hqs : ∀ q ∈ qs, ∀ v ∈ q.2.vars, ∃ w, ρ.vars w = v) :
    ∃ ps : List (Nat × Request α), ps.map (Prod.map id (Request.rename ρ)) = qs := by
  have hmem : qs ∈ Set.range (List.map (Prod.map id (Request.rename ρ))) := by
    rw [Set.range_list_map]
    intro q hq
    obtain ⟨p, hp⟩ := Request.exists_rename ρ (hqs q hq)
    exact ⟨(q.1, p), Prod.ext rfl hp⟩
  exact hmem

/-! ## The two solvers -/

namespace Solver

variable [Scalar α]

/-- Resetting a solver comes to the same as making a new one, with as many client variables, and
renaming it. -/
theorem reset_eq_rename (s : Solver α) {ρ : Renaming} {k : Nat}
    (hvars : ρ.vars.number k = s.supply.drawn) (hids : ρ.ids ⟨0⟩ = ⟨s.nextId⟩) :
    s.reset.solver =
      ({ ofSettings s.settings with supply := ⟨k⟩ } : Solver α).rename ρ :=
  Solver.ext rfl (congrArg Supply.mk hvars.symm) rfl rfl rfl (congrArg ConstraintId.index hids).symm

/-- Let any requests be made of a new solver, and then a reset and the requests `qs`, about client
variables handed out before the reset or with numbers drawn after it. Make a new solver with the
settings that the other has at the reset, let it hand out client variables of the same kinds in the
same order, and make the same requests of it. Then everything is alike but for names: the variables
have other numbers in the same order, and the constraints that the requests may name are shifted.
Names used up before the reset stand for names that the new solver has not given. In particular a
pass takes as many exchanges in the one as in the other. -/
theorem reset_like_new {settings : Settings} {history : List (Nat × Request α)}
    {os : List (Outcome α Reply)} {s : Solver α}
    (h : (ofSettings settings).run history = some (os, s)) {qs : List (Nat × Request α)}
    (hqs : ∀ q ∈ qs, ∀ v ∈ q.2.vars, v ∈ handedOut os ∨ s.supply.drawn ≤ v.id) :
    ∃ (ρ : Renaming) (os' : List (Outcome α Reply)) (s' : Solver α) (ps : List (Nat × Request α)),
      (∀ i, i ≤ qs.length → ρ.ids ⟨i⟩ = ⟨i + s.nextId⟩) ∧
      (ofSettings s.settings).run (requestsFor (handedOut os)) = some (os', s') ∧
      (handedOut os').map ρ.vars = handedOut os ∧
      ps.map (Prod.map id (Request.rename ρ)) = qs ∧
      Option.Rel (RunsAlike ρ) (s'.run ps) (s.reset.solver.run qs) := by
  obtain ⟨-, hsorted, hclients⟩ := handedOut_sorted h
  have hlt : ∀ v ∈ handedOut os, v.id < s.supply.drawn := fun v hv => (hclients v hv).2.2
  let ρ : Renaming := ⟨.onto (handedOut os) s.supply.drawn hsorted hlt,
    ConstraintId.shiftBelow s.nextId (qs.length + 1)⟩
  obtain ⟨os', hrun, hout⟩ := run_requestsFor (ofSettings s.settings : Solver α)
    fun v hv => (hclients v hv).1
  obtain ⟨ps, hps⟩ := Request.exists_map_rename ρ fun q hq v hv =>
    Renumbering.exists_onto hsorted hlt (hqs q hq v hv)
  have hids : ∀ i, i ≤ qs.length → ρ.ids ⟨i⟩ = ⟨i + s.nextId⟩ :=
    fun i hi => ConstraintId.shiftBelow_of_lt (Nat.lt_succ_of_le hi)
  refine ⟨ρ, os', _, ps, hids, hrun, ?_, hps, ?_⟩
  · rw [hout]
    exact Renumbering.map_onto hsorted hlt
  · have hnumber : ρ.vars.number (0 + (handedOut os).length) = s.supply.drawn := by
      rw [Nat.zero_add]
      exact (Renumbering.number_onto_of_le hsorted hlt le_rfl).trans (by omega)
    have hzero : ρ.ids ⟨0⟩ = ⟨s.nextId⟩ := (hids 0 (Nat.zero_le _)).trans (by rw [Nat.zero_add])
    have hsuits : ρ.Suits s.nextId ({ ofSettings s.settings with
        supply := ⟨0 + (handedOut os).length⟩ } : Solver α) ps.length :=
      { steady := fun k hk => Renumbering.steady_onto hsorted hlt k (by simpa using hk)
        shift := fun i hi => hids i (by
          rw [← hps, List.length_map]
          simpa [ofSettings] using hi)
        marked := fun v id hid => by cases hid }
    rw [s.reset_eq_rename hnumber hzero, ← hps, run_rename hsuits]
    exact rel_map_rename ρ _

/-- After a free and a bounded variable and two constraints the solver is reset. Then a third
variable is asked for, three constraints are added, of which the second contradicts the first, and
one from before the reset is to be removed. -/
theorem reset_like_new_of_bounds :
    ∃ (os : List (Outcome Rat Reply)) (s : Solver Rat) (qs : List (Nat × Request Rat)),
      (ofSettings {}).run [(0, .newVariable false), (0, .newVariable true),
        (9, .add (.compare (.var ⟨0, .free⟩) .atLeast (.const 1))),
        (9, .add (.compare (.var ⟨1, .bounded⟩) .equal (.var ⟨0, .free⟩)))] = some (os, s) ∧
      handedOut os = [⟨0, .free⟩, ⟨1, .bounded⟩] ∧
      ((s.reset.solver.run qs).any fun x => decide (x.1.map Outcome.answer =
        [.ok (.client ⟨4, .free⟩), .ok (.constraint ⟨2⟩), .error (.conflict [⟨2⟩]),
          .ok (.constraint ⟨4⟩), .error (.unknownConstraint ⟨0⟩)])) = true ∧
      ∃ (ρ : Renaming) (os' : List (Outcome Rat Reply)) (s' : Solver Rat)
        (ps : List (Nat × Request Rat)),
        (∀ i, i ≤ qs.length → ρ.ids ⟨i⟩ = ⟨i + s.nextId⟩) ∧
        (ofSettings s.settings).run (requestsFor (handedOut os)) = some (os', s') ∧
        (handedOut os').map ρ.vars = handedOut os ∧
        ps.map (Prod.map id (Request.rename ρ)) = qs ∧
        Option.Rel (RunsAlike ρ) (s'.run ps) (s.reset.solver.run qs) := by
  let x : LinearForm Rat := .var ⟨0, .free⟩
  let y : LinearForm Rat := .var ⟨1, .bounded⟩
  let z : LinearForm Rat := .var ⟨4, .free⟩
  let qs : List (Nat × Request Rat) :=
    [(0, .newVariable false), (9, .add (.compare x .atLeast (.const 100))),
      (9, .add (.compare x .atMost (.const 50))), (9, .add (.compare z .equal y)),
      (9, .remove ⟨0⟩)]
  have hrun : ((ofSettings {} : Solver Rat).run [(0, .newVariable false), (0, .newVariable true),
      (9, .add (.compare x .atLeast (.const 1))), (9, .add (.compare y .equal x))]).any
      (fun h => decide (handedOut h.1 = [⟨0, .free⟩, ⟨1, .bounded⟩]) &&
        (decide (h.2.supply.drawn = 4) &&
          (h.2.reset.solver.run qs).any fun x => decide (x.1.map Outcome.answer =
            [.ok (.client ⟨4, .free⟩), .ok (.constraint ⟨2⟩), .error (.conflict [⟨2⟩]),
              .ok (.constraint ⟨4⟩), .error (.unknownConstraint ⟨0⟩)]))) = true := by
    decide +kernel
  obtain ⟨⟨os, s⟩, h, hcheck⟩ := (Option.any_eq_true _ _).1 hrun
  rw [Bool.and_eq_true, Bool.and_eq_true, decide_eq_true_eq, decide_eq_true_eq] at hcheck
  obtain ⟨hout, hdrawn, hanswers⟩ := hcheck
  have hqs : ∀ q ∈ qs, ∀ v ∈ q.2.vars, v ∈ [⟨0, .free⟩, ⟨1, .bounded⟩] ∨ 4 ≤ v.id := by
    decide +kernel
  rw [← hout, ← hdrawn] at hqs
  exact ⟨os, s, qs, h, hout, hanswers, reset_like_new h hqs⟩

end Solver

end SoftSimplex
