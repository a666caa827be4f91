import Mathlib.Logic.Equiv.Defs
import SoftSimplex.Proofs.Renaming
import SoftSimplex.Tableau.Primal
import SoftSimplex.Tableau.Dual

/-!
# Tableaus in renamed variables

Every operation on a tableau in renamed variables comes to the renamed result, the choices that a
pass makes among them: they compare numbers, and those keep their order. So a pass makes the renamed
exchanges, as many as before.
-/

namespace SoftSimplex

variable {α : Type}

namespace Tableau

def rename (φ : Renumbering) (t : Tableau α) : Tableau α where
  rows := t.rows.rename φ (LinearForm.rename φ)
  columns := t.columns.rename φ
  objective := t.objective.rename φ
  artificial := t.artificial.map (LinearForm.rename φ)
  candidates := t.candidates.rename φ
  queue := t.queue.rename φ id

variable (φ : Renumbering)

section Parts

@[simp] theorem objective_rename (t : Tableau α) :
    (t.rename φ).objective = t.objective.rename φ := rfl

@[simp] theorem artificial_rename (t : Tableau α) :
    (t.rename φ).artificial = t.artificial.map (LinearForm.rename φ) := rfl

theorem candidates_rename (t : Tableau α) :
    (t.rename φ).candidates = t.candidates.rename φ := rfl

theorem queue_rename (t : Tableau α) : (t.rename φ).queue = t.queue.rename φ id := rfl

@[simp] theorem row?_rename (t : Tableau α) (v : Variable) :
    (t.rename φ).row? (φ v) = (t.row? v).map (LinearForm.rename φ) :=
  Table.get?_rename φ _ t.rows v

@[simp] theorem isBasic_rename (t : Tableau α) (v : Variable) :
    (t.rename φ).isBasic (φ v) = t.isBasic v :=
  Table.contains_rename φ _ t.rows v

@[simp] theorem column_rename (t : Tableau α) (v : Variable) :
    (t.rename φ).column (φ v) = (t.column v).map φ :=
  Columns.rowsOf_rename φ t.columns v

@[simp] theorem size_rename (t : Tableau α) : (t.rename φ).size = t.size :=
  Table.size_rename φ _ t.rows

@[simp] theorem insertRow_rename (t : Tableau α) (b : Variable) (f : LinearForm α) :
    (t.rename φ).insertRow (φ b) (f.rename φ) = (t.insertRow b f).rename φ := by
  simp [insertRow, rename]

@[simp] theorem removeRow_rename (t : Tableau α) (b : Variable) :
    (t.rename φ).removeRow (φ b) = (t.removeRow b).rename φ := by
  unfold removeRow
  rw [row?_rename]
  cases t.row? b with
  | none => rfl
  | some f => simp [rename]

@[simp] theorem removeColumn_rename (t : Tableau α) (v : Variable) :
    (t.rename φ).removeColumn (φ v) = (t.removeColumn v).rename φ := by
  have hrows : ((t.column v).map φ).foldl (fun rs b => rs.modify b (·.erase (φ v)))
      (t.rows.rename φ (LinearForm.rename φ)) =
        ((t.column v).foldl (fun rs b => rs.modify b (·.erase v)) t.rows).rename φ
          (LinearForm.rename φ) := by
    rw [List.foldl_map]
    exact List.foldl_hom _ fun rs b => Table.modify_rename φ _ rs b fun f => f.erase_rename φ v
  unfold removeColumn
  rw [column_rename]
  apply Tableau.ext
  · exact hrows
  · exact Columns.swapErase_rename φ t.columns v
  · exact t.objective.erase_rename φ v
  · simp [rename, Function.comp_def]
  · exact Candidates.erase_rename φ t.candidates v
  · rfl

@[simp] theorem discard_rename (t : Tableau α) (v : Variable) :
    (t.rename φ).discard (φ v) = (t.discard v).rename φ := by
  simp [discard]

@[simp] theorem takeCandidate_rename (t : Tableau α) :
    (t.rename φ).takeCandidate = Prod.map (Option.map φ) (rename φ) t.takeCandidate := by
  simp [takeCandidate, rename]

@[simp] theorem takeQueued_rename (t : Tableau α) :
    (t.rename φ).takeQueued = Prod.map (Option.map φ) (rename φ) t.takeQueued := by
  simp [takeQueued, rename]

@[simp] theorem clearQueue_rename (t : Tableau α) :
    (t.rename φ).clearQueue = t.clearQueue.rename φ := by
  simp [clearQueue, rename]

end Parts

variable [Scalar α]

@[simp] theorem accumulate_rename (t : Tableau α) (f : LinearForm α) (v : Variable) (c : α) :
    (t.rename φ).accumulate (f.rename φ) (φ v) c = (t.accumulate f v c).rename φ := by
  unfold accumulate
  rw [row?_rename]
  cases t.row? v <;> simp

/-! ## The objective -/

@[simp] theorem profitable_rename (t : Tableau α) (v : Variable) :
    (t.rename φ).profitable (φ v) = t.profitable v := by
  simp [profitable]

@[simp] theorem refresh_rename (t : Tableau α) (v : Variable) :
    (t.rename φ).refresh (φ v) = (t.refresh v).rename φ := by
  unfold refresh
  rw [profitable_rename]
  split <;> simp [rename]

@[simp] theorem refreshAll_rename (t : Tableau α) (vs : List Variable) :
    (t.rename φ).refreshAll (vs.map φ) = (t.refreshAll vs).rename φ := by
  rw [refreshAll, List.foldl_map]
  exact List.foldl_hom (rename φ) fun t v => refresh_rename φ t v

@[simp] theorem addCost_rename (t : Tableau α) (v : Variable) (c : α) :
    (t.rename φ).addCost (φ v) c = (t.addCost v c).rename φ := by
  have hobjective : ({ t.rename φ with
        objective := (t.rename φ).accumulate (t.rename φ).objective (φ v) c } : Tableau α) =
      ({ t with objective := t.accumulate t.objective v c } : Tableau α).rename φ := by
    rw [objective_rename, accumulate_rename]
    rfl
  unfold addCost
  rw [hobjective, row?_rename, ← refreshAll_rename]
  cases t.row? v <;> simp

@[simp] theorem waive_rename (t : Tableau α) (v : Variable) (c : α) :
    waive c (t.rename φ) (φ v) = (waive c t v).rename φ := by
  simp [waive]

theorem addCosts_rename (t : Tableau α) (vs : List Variable) (c : α) :
    (vs.map φ).foldl (fun t v => t.addCost v c) (t.rename φ) =
      (vs.foldl (fun t v => t.addCost v c) t).rename φ := by
  rw [List.foldl_map]
  exact List.foldl_hom (rename φ) fun t v => addCost_rename φ t v c

theorem waiveAll_rename (t : Tableau α) (vs : List Variable) (c : α) :
    (vs.map φ).foldl (waive c) (t.rename φ) = (vs.foldl (waive c) t).rename φ := by
  rw [List.foldl_map]
  exact List.foldl_hom (rename φ) fun t v => waive_rename φ t v c

/-! ## The rows -/

@[simp] theorem enqueue_rename (t : Tableau α) (b : Variable) :
    (t.rename φ).enqueue (φ b) = (t.enqueue b).rename φ := by
  have hadd : ({ t.rename φ with queue := (t.rename φ).queue.add (φ b) } : Tableau α) =
      ({ t with queue := t.queue.add b } : Tableau α).rename φ := by
    simp [rename]
  have htest : ((t.rename φ).row? (φ b)).any (fun f => Scalar.isNeg f.constant) =
      (t.row? b).any fun f => Scalar.isNeg f.constant := by
    rw [row?_rename, Option.any_map]
    rfl
  unfold enqueue
  rw [htest, hadd, Renumbering.isRestricted_apply]
  split <;> rfl

@[simp] theorem substituteRow_rename (t : Tableau α) (v b : Variable) (f : LinearForm α) :
    substituteRow (φ v) (f.rename φ) (t.rename φ) (φ b) = (substituteRow v f t b).rename φ := by
  unfold substituteRow
  rw [row?_rename]
  cases t.row? b with
  | none => rfl
  | some row =>
    simp only [Option.map_some]
    rw [← enqueue_rename]
    simp [rename]

@[simp] theorem substitute_rename (t : Tableau α) (v : Variable) (f : LinearForm α) :
    (t.rename φ).substitute (φ v) (f.rename φ) = (t.substitute v f).rename φ := by
  have hrows : ((t.column v).map φ).foldl (substituteRow (φ v) (f.rename φ))
      { t.rename φ with columns := Table.swapErase (t.rename φ).columns (φ v) } =
        ((t.column v).foldl (substituteRow v f)
          { t with columns := Table.swapErase t.columns v }).rename φ := by
    have hstart : ({ t.rename φ with columns := Table.swapErase (t.rename φ).columns (φ v) } :
        Tableau α) = ({ t with columns := Table.swapErase t.columns v } : Tableau α).rename φ := by
      simp [rename]
    rw [hstart, List.foldl_map]
    exact List.foldl_hom (rename φ) fun t b => substituteRow_rename φ t v b f
  unfold substitute
  rw [column_rename, hrows, LinearForm.vars_rename, ← List.map_cons, ← refreshAll_rename]
  simp [rename, Function.comp_def]

@[simp] theorem shiftRow_rename (t : Tableau α) (b : Variable) (k : α) :
    (t.rename φ).shiftRow (φ b) k = (t.shiftRow b k).rename φ := by
  have hrows : (t.rows.rename φ (LinearForm.rename φ)).modify (φ b) (·.shift k) =
      (t.rows.modify b (·.shift k)).rename φ (LinearForm.rename φ) :=
    Table.modify_rename φ _ t.rows b fun f => f.shift_rename φ k
  simp [shiftRow, rename, hrows]

@[simp] theorem shiftConstant_rename (t : Tableau α) (m : Variable) (δ : α) :
    (t.rename φ).shiftConstant (φ m) δ = (t.shiftConstant m δ).rename φ := by
  unfold shiftConstant
  rw [row?_rename, column_rename]
  cases t.row? m with
  | some row =>
    simp only [Option.map_some, shiftRow_rename, LinearForm.constant_rename]
    split
    · simp [rename]
    · rfl
  | none =>
    simp only [Option.map_none]
    rw [List.foldl_map]
    apply List.foldl_hom (rename φ)
    intro t b
    rw [row?_rename]
    cases t.row? b <;> simp

end Tableau

/-! ## Choices -/

namespace Ratio

variable (φ : Renumbering) [Scalar α]

theorem better_map (a b : Variable × α) :
    better (Prod.map φ id a) (Prod.map φ id b) = better a b := by
  simp [better]

theorem bestFrom_map (a : Variable × α) (cs : List (Variable × α)) :
    bestFrom (Prod.map φ id a) (cs.map (Prod.map φ id)) = Prod.map φ id (bestFrom a cs) := by
  induction cs generalizing a with
  | nil => rfl
  | cons c cs ih =>
    simp only [List.map_cons, bestFrom, better_map, ← ih]
    split <;> rfl

@[simp] theorem best?_map (cs : List (Variable × α)) :
    best? (cs.map (Prod.map φ id)) = (best? cs).map φ := by
  cases cs with
  | nil => rfl
  | cons c cs => simp [best?, bestFrom_map]

end Ratio

namespace Tableau

variable (φ : Renumbering) [Scalar α]

omit [Scalar α] in
/-- What is read off the rows of a column. -/
theorem filterMap_column_rename (t : Tableau α) (v : Variable)
    {read read' : Variable → LinearForm α → Option (Variable × α)}
    (hread : ∀ b row, read' (φ b) (row.rename φ) = (read b row).map (Prod.map φ id)) :
    ((t.rename φ).column (φ v)).filterMap (fun b => ((t.rename φ).row? b).bind (read' b)) =
      ((t.column v).filterMap fun b => (t.row? b).bind (read b)).map (Prod.map φ id) := by
  rw [column_rename, List.filterMap_map, List.map_filterMap]
  congr 1
  funext b
  simp only [Function.comp_apply, row?_rename]
  cases t.row? b with
  | none => rfl
  | some row => exact hread b row

@[simp] theorem limits_rename (t : Tableau α) (v : Variable) :
    (t.rename φ).limits (φ v) = (t.limits v).map (Prod.map φ id) := by
  rw [limits_eq, limits_eq]
  apply filterMap_column_rename
  intro b row
  simp only [Renumbering.isRestricted_apply, LinearForm.coeff_rename, LinearForm.constant_rename]
  split <;> rfl

@[simp] theorem tightest?_rename (t : Tableau α) (v : Variable) :
    (t.rename φ).tightest? (φ v) = (t.tightest? v).map φ := by
  simp [tightest?]

@[simp] theorem raisers_rename (t : Tableau α) (row : LinearForm α) :
    (t.rename φ).raisers (row.rename φ) = (t.raisers row).map (Prod.map φ id) := by
  unfold raisers
  rw [LinearForm.terms_rename, Table.entries_rename, List.filterMap_map, List.map_filterMap]
  congr 1
  funext e
  simp only [Function.comp_apply, Prod.map_fst, Prod.map_snd, id_eq, Renumbering.mayEnter_apply,
    objective_rename, LinearForm.coeff_rename]
  split <;> rfl

@[simp] theorem cheapest?_rename (t : Tableau α) (row : LinearForm α) :
    (t.rename φ).cheapest? (row.rename φ) = (t.cheapest? row).map φ := by
  simp [cheapest?]

@[simp] theorem sinking_rename (t : Tableau α) (v : Variable) :
    (t.rename φ).sinking (φ v) = (t.sinking v).map (Prod.map φ id) := by
  apply filterMap_column_rename
  intro b row
  simp only [Renumbering.isRestricted_apply, LinearForm.coeff_rename, LinearForm.constant_rename]
  split <;> rfl

@[simp] theorem rising_rename (t : Tableau α) (v : Variable) :
    (t.rename φ).rising (φ v) = (t.rising v).map (Prod.map φ id) := by
  apply filterMap_column_rename
  intro b row
  simp only [Renumbering.isRestricted_apply, LinearForm.coeff_rename, LinearForm.constant_rename]
  split <;> rfl

@[simp] theorem eviction?_rename (t : Tableau α) (v : Variable) :
    (t.rename φ).eviction? (φ v) = (t.eviction? v).map φ := by
  simp [eviction?, List.filter_map, Function.comp_def, Option.map_or]

end Tableau

/-! ## Passes -/

def Swap.rename (φ : Renumbering) (s : Swap) : Swap := ⟨φ s.entry, φ s.exit⟩

/-- New numbers for variables, in the same order, and other names for constraints. -/
structure Renaming where
  vars : Renumbering
  ids : Equiv.Perm ConstraintId

def Failure.rename (ρ : Renaming) : Failure → Failure
  | .conflict ids => .conflict (ids.map ρ.ids)
  | .unknownConstraint id => .unknownConstraint (ρ.ids id)
  | f => f

def Step.rename (ρ : Renaming) : Step α → Step α
  | .done t => .done (t.rename ρ.vars)
  | .swapped t s => .swapped (t.rename ρ.vars) (s.rename ρ.vars)
  | .failed t f => .failed (t.rename ρ.vars) (f.rename ρ)

def Pass.rename (ρ : Renaming) (p : Pass α) : Pass α :=
  ⟨p.tableau.rename ρ.vars, p.swaps.map (Swap.rename ρ.vars), p.ending.mapError (Failure.rename ρ)⟩

variable (φ : Renumbering) [Scalar α]

@[simp] theorem Tableau.exchange_rename (t : Tableau α) (entry exit : Variable) :
    (t.rename φ).exchange (φ entry) (φ exit) = (t.exchange entry exit).map (Tableau.rename φ) := by
  unfold exchange
  rw [row?_rename]
  cases t.row? exit with
  | none => rfl
  | some row =>
    simp only [Option.map_some, LinearForm.contains_rename]
    split
    · simp [Except.map]
    · rfl

variable (ρ : Renaming)

@[simp] theorem Step.ofExchange_rename (t : Tableau α) (entry exit : Variable) :
    Step.ofExchange (t.rename ρ.vars) (ρ.vars entry) (ρ.vars exit) =
      (Step.ofExchange t entry exit).rename ρ := by
  unfold Step.ofExchange
  rw [Tableau.exchange_rename]
  cases t.exchange entry exit with
  | ok t' => rfl
  | error f => simp [Except.map, Step.rename, Failure.rename]

namespace Tableau

theorem objectiveStep_rename (t : Tableau α) :
    (t.rename ρ.vars).objectiveStep = t.objectiveStep.rename ρ := by
  have hdrop : (t.candidates.rename ρ.vars).dropWhile (t.rename ρ.vars).isStale =
      (t.candidates.dropWhile t.isStale).rename ρ.vars :=
    t.candidates.dropWhile_rename ρ.vars fun v => by simp [isStale]
  have hstale : ({ t.rename ρ.vars with
        candidates := (t.candidates.rename ρ.vars).dropWhile (t.rename ρ.vars).isStale } :
        Tableau α) =
      ({ t with candidates := t.candidates.dropWhile t.isStale } : Tableau α).rename ρ.vars := by
    rw [hdrop]
    rfl
  unfold objectiveStep
  rw [candidates_rename, hstale, takeCandidate_rename]
  rcases Tableau.takeCandidate _ with ⟨none | entry, t'⟩
  · rfl
  · simp only [Prod.map_apply, Option.map_some, tightest?_rename]
    cases t'.tightest? entry with
    | none => simp [Step.rename, Failure.rename]
    | some exit => simp

theorem artificialEntries_rename (t : Tableau α) :
    (t.rename ρ.vars).artificialEntries = t.artificialEntries.map ρ.vars := by
  unfold artificialEntries
  rw [artificial_rename]
  cases t.artificial with
  | none => rfl
  | some f => simp [List.filter_map, Function.comp_def]

theorem artificialStep_rename (t : Tableau α) :
    (t.rename ρ.vars).artificialStep = t.artificialStep.rename ρ := by
  unfold artificialStep
  rw [artificialEntries_rename, Renumbering.lowest?_map]
  cases Variable.lowest? t.artificialEntries with
  | none => rfl
  | some entry =>
    simp only [Option.map_some, tightest?_rename]
    cases t.tightest? entry with
    | none => simp [Step.rename, Failure.rename]
    | some exit => simp

theorem repairStep_rename (t : Tableau α) :
    (t.rename ρ.vars).repairStep = t.repairStep.rename ρ := by
  have hdrop : (t.queue.rename ρ.vars id).dropBackWhile (t.rename ρ.vars).isSettled =
      (t.queue.dropBackWhile t.isSettled).rename ρ.vars id :=
    t.queue.dropBackWhile_rename ρ.vars id fun v => by
      unfold isSettled
      rw [row?_rename, Option.all_map]
      rfl
  have hsettled : ({ t.rename ρ.vars with
        queue := (t.queue.rename ρ.vars id).dropBackWhile (t.rename ρ.vars).isSettled } :
        Tableau α) =
      ({ t with queue := t.queue.dropBackWhile t.isSettled } : Tableau α).rename ρ.vars := by
    rw [hdrop]
    rfl
  unfold repairStep
  rw [queue_rename, hsettled, takeQueued_rename]
  rcases Tableau.takeQueued _ with ⟨none | exit, t'⟩
  · rfl
  · simp only [Prod.map_apply, Option.map_some, row?_rename]
    cases t'.row? exit with
    | none => rfl
    | some row =>
      simp only [Option.map_some, Option.bind_some, cheapest?_rename]
      cases t'.cheapest? row with
      | none => rfl
      | some entry => simp

omit [Scalar α] in
/-- A pass takes as many exchanges in the renamed variables. -/
theorem iterate_rename {step : Tableau α → Step α}
    (hstep : ∀ t, step (t.rename ρ.vars) = (step t).rename ρ) (n : Nat) (t : Tableau α) :
    iterate step n (t.rename ρ.vars) = (iterate step n t).map (Pass.rename ρ) := by
  induction n generalizing t with
  | zero =>
    unfold iterate
    rw [hstep]
    cases step t <;> rfl
  | succ n ih =>
    unfold iterate
    rw [hstep]
    cases step t with
    | done t' => rfl
    | failed t' f => rfl
    | swapped t' s =>
      simp only [Step.rename, ih]
      cases iterate step n t' <;> rfl

@[simp] theorem minimize_rename (n : Nat) (t : Tableau α) :
    (t.rename ρ.vars).minimize n = (t.minimize n).map (Pass.rename ρ) :=
  iterate_rename ρ (objectiveStep_rename ρ) n t

@[simp] theorem minimizeArtificial_rename (n : Nat) (t : Tableau α) :
    (t.rename ρ.vars).minimizeArtificial n = (t.minimizeArtificial n).map (Pass.rename ρ) :=
  iterate_rename ρ (artificialStep_rename ρ) n t

@[simp] theorem repair_rename (n : Nat) (t : Tableau α) :
    (t.rename ρ.vars).repair n = (t.repair n).map (Pass.rename ρ) :=
  iterate_rename ρ (repairStep_rename ρ) n t

end Tableau

end SoftSimplex
