import SoftSimplex.Proofs.RenamedTableaus
import SoftSimplex.Proofs.Operations

/-!
# Operations of a renamed solver

A solver looks at the numbers of its constraints in one place only: it sorts the constraints that a
refused one conflicts with. Where a renaming keeps the order of those, and goes on by one from the
next variable and the next constraint, every operation comes to the renamed outcome.
-/

namespace SoftSimplex

variable {α : Type}

/-! ## Solvers, requests and outcomes -/

def Constraint.rename (φ : Renumbering) (c : Constraint α) : Constraint α :=
  { c with form := c.form.rename φ }

def Auxiliaries.rename (φ : Renumbering) (a : Auxiliaries) : Auxiliaries :=
  ⟨φ a.marker, a.errors.map φ⟩

def Record.rename (φ : Renumbering) (r : Record α) : Record α :=
  ⟨r.toAuxiliaries.rename φ, r.constraint.rename φ⟩

def Supply.rename (φ : Renumbering) (s : Supply) : Supply := ⟨φ.number s.drawn⟩

def Solver.rename (ρ : Renaming) (s : Solver α) : Solver α where
  settings := s.settings
  supply := s.supply.rename ρ.vars
  tableau := s.tableau.rename ρ.vars
  records := s.records.rename ρ.ids (Record.rename ρ.vars)
  markers := s.markers.rename ρ.vars ρ.ids
  nextId := (ρ.ids ⟨s.nextId⟩).index

def Event.rename (ρ : Renaming) : Event α → Event α
  | .adding id r => .adding (ρ.ids id) r
  | .removed id => .removed (ρ.ids id)
  | .constantUpdated id value change => .constantUpdated (ρ.ids id) value change
  | .strengthUpdated id w => .strengthUpdated (ρ.ids id) w
  | .strengthKept id w w' => .strengthKept (ρ.ids id) w w'
  | .unsatisfiable id residual => .unsatisfiable (ρ.ids id) residual
  | .addedByFirstPhase id => .addedByFirstPhase (ρ.ids id)
  | .swapped s => .swapped (s.rename ρ.vars)
  | .repairFailed f => .repairFailed (f.rename ρ)
  | .reset => .reset

def Request.rename (ρ : Renaming) : Request α → Request α
  | .add c => .add (c.rename ρ.vars)
  | .remove id => .remove (ρ.ids id)
  | .updateConstant id k => .updateConstant (ρ.ids id) k
  | .updateStrength id new => .updateStrength (ρ.ids id) new
  | q => q

def Reply.rename (ρ : Renaming) : Reply → Reply
  | .done => .done
  | .client v => .client (ρ.vars v)
  | .constraint id => .constraint (ρ.ids id)

/-- An outcome under a renaming, its result renamed by `g`. -/
def Outcome.rename {β : Type} (ρ : Renaming) (g : β → β) (o : Outcome α β) : Outcome α β :=
  ⟨o.solver.rename ρ, o.log.map (Event.rename ρ), (o.answer.map g).mapError (Failure.rename ρ)⟩

/-! ## When a renaming goes through -/

/-- Whether the new numbers go on by one from `d`. -/
def Renumbering.Steady (φ : Renumbering) (d : Nat) : Prop :=
  ∀ k, d ≤ k → φ.number (k + 1) = φ.number k + 1

def Renaming.Orders (ρ : Renaming) (s : Solver α) : Prop :=
  ∀ m m' i j, s.markers.get? m = some i → s.markers.get? m' = some j →
    ((ρ.ids i).index ≤ (ρ.ids j).index ↔ i.index ≤ j.index)

namespace Supply

variable {φ : Renumbering} {s : Supply}

@[simp] theorem next_rename (role : Role) : (s.rename φ).next role = φ (s.next role) := rfl

theorem advance_rename (h : φ.Steady s.drawn) : (s.rename φ).advance = s.advance.rename φ :=
  congrArg Supply.mk (h s.drawn le_rfl).symm

theorem steady_advance (h : φ.Steady s.drawn) : φ.Steady s.advance.drawn :=
  fun k hk => h k (Nat.le_of_succ_le hk)

end Supply

namespace Solver

variable (ρ : Renaming)

@[simp] theorem tableau_rename (s : Solver α) : (s.rename ρ).tableau = s.tableau.rename ρ.vars := rfl

@[simp] theorem settings_rename (s : Solver α) : (s.rename ρ).settings = s.settings := rfl

@[simp] theorem supply_rename (s : Solver α) : (s.rename ρ).supply = s.supply.rename ρ.vars := rfl

@[simp] theorem record?_rename (s : Solver α) (id : ConstraintId) :
    (s.rename ρ).record? (ρ.ids id) = (s.record? id).map (Record.rename ρ.vars) :=
  Table.get?_rename ρ.ids _ s.records id

theorem withTableau_rename (s : Solver α) (t : Tableau α) :
    ({ s.rename ρ with tableau := t.rename ρ.vars } : Solver α) =
      ({ s with tableau := t } : Solver α).rename ρ := rfl

end Solver

/-! ## Equations -/

section Equations

variable [Scalar α] (ρ : Renaming)

theorem Auxiliaries.draw_rename {φ : Renumbering} {s : Supply} (h : φ.Steady s.drawn)
    (c : Constraint α) :
    Auxiliaries.draw (s.rename φ) (c.rename φ) =
      ((Auxiliaries.draw s c).1.rename φ, (Auxiliaries.draw s c).2.rename φ) := by
  have hinequality : (c.rename φ).isInequality = c.isInequality := rfl
  have hrequired : (c.rename φ).isRequired = c.isRequired := rfl
  unfold draw
  rw [hinequality, hrequired, Supply.advance_rename h,
    Supply.advance_rename (Supply.steady_advance h)]
  split
  · split <;> rfl
  · split <;> rfl

@[simp] theorem Auxiliaries.terms_rename (φ : Renumbering) (a : Auxiliaries) :
    (a.rename φ).terms = (a.terms : List (Variable × α)).map (Prod.map φ id) := by
  have hne (v : Variable) : (φ v != φ a.marker) = (v != a.marker) := by
    rw [Bool.eq_iff_iff, bne_iff_ne, bne_iff_ne]
    exact not_congr (EmbeddingLike.apply_eq_iff_eq φ)
  simp [terms, rename, List.filter_map, Function.comp_def, hne]

namespace Solver

@[simp] theorem reduce_rename (s : Solver α) (f : LinearForm α) :
    (s.rename ρ).reduce (f.rename ρ.vars) = (s.reduce f).rename ρ.vars := by
  unfold reduce
  rw [LinearForm.terms_rename, Table.entries_rename, List.foldl_map, LinearForm.constant_rename,
    ← LinearForm.const_rename ρ.vars]
  exact List.foldl_hom (LinearForm.rename ρ.vars)
    fun g (e : Variable × α) => Tableau.accumulate_rename ρ.vars s.tableau g e.1 e.2

@[simp] theorem equation_rename (s : Solver α) (c : Constraint α) (a : Auxiliaries) :
    (s.rename ρ).equation (c.rename ρ.vars) (a.rename ρ.vars) =
      (s.equation c a).rename ρ.vars := by
  have hform : (c.rename ρ.vars).form = c.form.rename ρ.vars := rfl
  unfold equation
  rw [hform, reduce_rename, Auxiliaries.terms_rename, LinearForm.addTerms_rename]
  simp only [LinearForm.constant_rename, LinearForm.negate_rename]
  split <;> rfl

@[simp] theorem admits_rename (s : Solver α) (f : LinearForm α) (v : Variable) :
    (s.rename ρ).admits (f.rename ρ.vars) (ρ.vars v) = s.admits f v := by
  unfold admits
  simp only [tableau_rename, Tableau.column_rename, LinearForm.constant_rename,
    LinearForm.coeff_rename, List.all_map]
  congr 1
  funext b
  simp only [Function.comp_apply, Renumbering.isRestricted_apply, Tableau.row?_rename,
    Option.all_map]
  congr 2
  funext row
  simp

theorem suitsClient_rename (s : Solver α) (f : LinearForm α) (e : Variable × α) :
    (s.rename ρ).suitsClient (f.rename ρ.vars) (Prod.map ρ.vars id e) = s.suitsClient f e := by
  simp [suitsClient]

theorem suitsOwn_rename (s : Solver α) (f : LinearForm α) (e : Variable × α) :
    (s.rename ρ).suitsOwn (f.rename ρ.vars) (Prod.map ρ.vars id e) = s.suitsOwn f e := by
  simp [suitsOwn]

@[simp] theorem subject?_rename (s : Solver α) (f : LinearForm α) :
    (s.rename ρ).subject? (f.rename ρ.vars) = (s.subject? f).map ρ.vars := by
  unfold subject?
  simp only [LinearForm.terms_rename, Table.entries_rename, List.find?_map, Function.comp_def,
    suitsClient_rename, suitsOwn_rename, Prod.map_fst, Renumbering.role_apply, ← Option.map_or,
    Option.map_map]

@[simp] theorem insertSolved_rename (s : Solver α) (v : Variable) (f : LinearForm α) :
    (s.rename ρ).insertSolved (ρ.vars v) (f.rename ρ.vars) = (s.insertSolved v f).rename ρ := by
  simp [insertSolved, rename]

end Solver

end Equations

/-! ## Taking a constraint out -/

namespace Solver

variable [Scalar α] (ρ : Renaming)

@[simp] theorem strike_rename (s : Solver α) (id : ConstraintId) (r : Record α) :
    (s.rename ρ).strike (ρ.ids id) (r.rename ρ.vars) = (s.strike id r).rename ρ := by
  have htableau := Tableau.waiveAll_rename ρ.vars s.tableau r.errors r.constraint.weight
  have hrecords := Table.erase_rename ρ.ids (Record.rename ρ.vars) s.records id
  have hmarkers := Table.erase_rename ρ.vars ρ.ids s.markers r.marker
  unfold strike rename
  exact Solver.ext rfl rfl htableau hrecords hmarkers rfl

@[simp] theorem exitFor?_rename (s : Solver α) (m : Variable) :
    (s.rename ρ).exitFor? (ρ.vars m) = (s.exitFor? m).map ρ.vars := by
  unfold exitFor?
  simp only [tableau_rename, Tableau.isBasic_rename, Tableau.eviction?_rename]
  split <;> rfl

@[simp] theorem retract_rename (s : Solver α) (i : ConstraintId) :
    (s.rename ρ).retract (ρ.ids i) = (s.retract i).rename ρ id := by
  unfold retract
  rw [record?_rename]
  cases s.record? i with
  | none => rfl
  | some r =>
    have hmarker : (r.rename ρ.vars).marker = ρ.vars r.marker := rfl
    simp only [Option.map_some, strike_rename, hmarker, exitFor?_rename]
    cases (s.strike i r).exitFor? r.marker with
    | none =>
      simp only [Option.map_none, tableau_rename, Tableau.removeRow_rename]
      rfl
    | some exit =>
      simp only [Option.map_some, tableau_rename, Tableau.exchange_rename]
      cases (s.strike i r).tableau.exchange r.marker exit with
      | ok t =>
        simp only [Except.map, Tableau.removeRow_rename]
        rfl
      | error f =>
        simp only [Except.map, Tableau.removeRow_rename]
        rfl

end Solver

/-! ## The first phase -/

@[simp] theorem LinearForm.successor?_rename (φ : Renumbering) (f : LinearForm α) :
    (f.rename φ).successor? = f.successor?.map φ := by
  simp [successor?, Option.map_or]

theorem eraseDups_map {κ F : Type} [DecidableEq κ] [FunLike F κ κ] [EmbeddingLike F κ κ] (f : F) :
    ∀ l : List κ, (l.map f).eraseDups = l.eraseDups.map f
  | [] => rfl
  | a :: l => by
    have hsame (b : κ) : (f b == f a) = (b == a) := by
      rw [Bool.eq_iff_iff, beq_iff_eq, beq_iff_eq]
      exact EmbeddingLike.apply_eq_iff_eq f
    rw [List.map_cons, List.eraseDups_cons, List.eraseDups_cons, List.map_cons, List.filter_map,
      eraseDups_map f]
    simp only [Function.comp_def, hsame]
termination_by l => l.length
decreasing_by
  exact Nat.lt_succ_of_le (List.length_filter_le _ _)

namespace Solver

variable (ρ : Renaming)

theorem conflicts_rename {s : Solver α} (h : ρ.Orders s) (i : ConstraintId) (a : Variable) :
    (s.rename ρ).conflicts (ρ.ids i) (ρ.vars a) = (s.conflicts i a).map ρ.ids := by
  have hvars : (((s.rename ρ).tableau.row? (ρ.vars a)).map LinearForm.vars).getD [] =
      (((s.tableau.row? a).map LinearForm.vars).getD []).map ρ.vars := by
    rw [tableau_rename, Tableau.row?_rename]
    cases s.tableau.row? a with
    | none => rfl
    | some row => exact row.vars_rename ρ.vars
  have hmarkers (v : Variable) :
      (s.rename ρ).markers.get? (ρ.vars v) = (s.markers.get? v).map ρ.ids :=
    Table.get?_rename ρ.vars ρ.ids s.markers v
  have hne (j : ConstraintId) : (ρ.ids j != ρ.ids i) = (j != i) := by
    rw [Bool.eq_iff_iff, bne_iff_ne, bne_iff_ne]
    exact not_congr (EmbeddingLike.apply_eq_iff_eq ρ.ids)
  unfold conflicts
  simp only [hvars, ← List.map_cons, List.filterMap_map, Function.comp_def, hmarkers,
    ← List.map_filterMap, List.filter_map, hne, eraseDups_map]
  symm
  apply List.map_mergeSort
  have hmarked : ∀ j ∈ ((a :: ((s.tableau.row? a).map LinearForm.vars).getD []).filterMap
      s.markers.get?).filter (· != i) |>.eraseDups, ∃ m, s.markers.get? m = some j := by
    intro j hj
    rw [List.mem_eraseDups] at hj
    obtain ⟨m, -, hm⟩ := List.mem_filterMap.1 (List.mem_filter.1 hj).1
    exact ⟨m, hm⟩
  intro j hj k hk
  obtain ⟨m, hm⟩ := hmarked j hj
  obtain ⟨m', hm'⟩ := hmarked k hk
  exact decide_eq_decide.2 (h m m' j k hm hm').symm

theorem refusal_rename {s : Solver α} (h : ρ.Orders s) (i : ConstraintId) (a : Variable) :
    (s.rename ρ).refusal (ρ.ids i) (ρ.vars a) = (s.refusal i a).rename ρ := by
  unfold refusal
  rw [settings_rename, conflicts_rename ρ h]
  split <;> rfl

variable [Scalar α]

omit [Scalar α] in
theorem beginFirstPhase_rename {s : Solver α} (h : ρ.vars.Steady s.supply.drawn)
    (f : LinearForm α) :
    (s.rename ρ).beginFirstPhase (f.rename ρ.vars) = (s.beginFirstPhase f).rename ρ := by
  unfold beginFirstPhase
  rw [supply_rename, Supply.next_rename, Supply.advance_rename h, tableau_rename,
    Tableau.insertRow_rename]
  rfl

theorem rollBack_rename (s : Solver α) (i : ConstraintId) (a : Variable) (news : List (Event α))
    (f : Failure) :
    (s.rename ρ).rollBack (ρ.ids i) (ρ.vars a) (news.map (Event.rename ρ)) (f.rename ρ) =
      (s.rollBack i a news f).rename ρ id := by
  unfold rollBack
  rw [tableau_rename, Tableau.discard_rename, withTableau_rename, retract_rename]
  generalize ({ s with tableau := s.tableau.discard a } : Solver α).retract i = o
  obtain ⟨s', log, _ | _⟩ := o
  · rfl
  · simp [Outcome.rename, Except.map, Except.mapError]

theorem dismiss_rename (s : Solver α) (i : ConstraintId) (a : Variable) :
    (s.rename ρ).dismiss (ρ.ids i) (ρ.vars a) = (s.dismiss i a).rename ρ id := by
  unfold dismiss
  have hsuccessor : ((s.tableau.row? a).map (LinearForm.rename ρ.vars)).map LinearForm.successor? =
      ((s.tableau.row? a).map LinearForm.successor?).map (Option.map ρ.vars) := by
    cases s.tableau.row? a <;> simp
  simp only [tableau_rename, Tableau.row?_rename, hsuccessor]
  cases (s.tableau.row? a).map LinearForm.successor? with
  | none =>
    simp only [Option.map_none, Tableau.removeColumn_rename]
    rfl
  | some e =>
    cases e with
    | none =>
      simp only [Option.map_some, Option.map_none, Tableau.removeRow_rename,
        Tableau.removeColumn_rename]
      rfl
    | some entry =>
      simp only [Option.map_some, Tableau.exchange_rename]
      cases s.tableau.exchange entry a with
      | ok t =>
        simp only [Except.map, Tableau.removeColumn_rename]
        rfl
      | error f =>
        simp only [Except.map, Tableau.removeRow_rename]
        rfl

theorem concludeFirstPhase_rename {s : Solver α} (h : ρ.Orders s) (i : ConstraintId)
    (a : Variable) (p : Pass α) :
    (s.rename ρ).concludeFirstPhase (ρ.ids i) (ρ.vars a) (p.rename ρ) =
      (s.concludeFirstPhase i a p).rename ρ id := by
  have hresidual : (((p.rename ρ).tableau.artificial.map LinearForm.constant).getD 0) =
      (p.tableau.artificial.map LinearForm.constant).getD 0 := by
    show (((p.tableau.rename ρ.vars).artificial.map LinearForm.constant).getD 0) = _
    rw [Tableau.artificial_rename]
    cases p.tableau.artificial <;> rfl
  have hend : ({ s.rename ρ with tableau := (p.rename ρ).tableau.endFirstPhase } : Solver α) =
      ({ s with tableau := p.tableau.endFirstPhase } : Solver α).rename ρ := rfl
  unfold concludeFirstPhase
  simp only [hresidual, hend]
  obtain ⟨t, swaps, f | _⟩ := p
  · exact rollBack_rename ρ _ i a [] f
  · simp only [Pass.rename, Except.mapError]
    split
    · exact dismiss_rename ρ _ i a
    · rw [refusal_rename ρ (s := { s with tableau := t.endFirstPhase }) h]
      exact rollBack_rename ρ _ i a [.unsatisfiable i _] _

theorem addByFirstPhase_rename {s : Solver α} (h : ρ.Orders s)
    (hsteady : ρ.vars.Steady s.supply.drawn) (n : Nat) (i : ConstraintId) (f : LinearForm α) :
    (s.rename ρ).addByFirstPhase n (ρ.ids i) (f.rename ρ.vars) =
      (s.addByFirstPhase n i f).map (Outcome.rename ρ id) := by
  unfold addByFirstPhase
  simp only [supply_rename, Supply.next_rename, beginFirstPhase_rename ρ hsteady, tableau_rename,
    Tableau.minimizeArtificial_rename]
  rw [Option.map_map, Option.map_map]
  congr 1
  funext p
  simp only [Function.comp_apply]
  rw [concludeFirstPhase_rename ρ (s := s.beginFirstPhase f) h]
  simp [Outcome.rename, Pass.rename, Function.comp_def, Event.rename]

/-! ## Operations -/

omit [Scalar α] in
@[simp] theorem afterPass_rename (s : Solver α) (p : Pass α) :
    (s.rename ρ).afterPass (p.rename ρ) = (s.afterPass p).rename ρ id := by
  obtain ⟨t, swaps, f | _⟩ := p <;> simp [afterPass, Outcome.rename, Pass.rename, Except.map,
    Except.mapError, Event.rename, rename]

@[simp] theorem solve_rename (n : Nat) (s : Solver α) :
    (s.rename ρ).solve n = (s.solve n).map (Outcome.rename ρ id) := by
  simp [solve, Function.comp_def]

@[simp] theorem repair_rename (n : Nat) (s : Solver α) :
    (s.rename ρ).repair n = (s.repair n).map (Outcome.rename ρ id) := by
  simp [repair, Function.comp_def]


end Solver

theorem Outcome.settle_rename {β : Type} [Scalar α] (ρ : Renaming) (g : β → β) (n : Nat)
    (o : Outcome α β) : (o.rename ρ g).settle n = (o.settle n).map (Outcome.rename ρ g) := by
  have hsettings : (o.rename ρ g).solver.settings = o.solver.settings := rfl
  have hsolve : (o.rename ρ g).solver.solve n = (o.solver.solve n).map (Outcome.rename ρ id) :=
    Solver.solve_rename ρ n o.solver
  unfold settle
  rw [hsettings, hsolve]
  split
  · rw [Option.map_map, Option.map_map]
    congr 1
    funext r
    obtain ⟨s, log, f | _⟩ := r <;> simp [Outcome.rename, Except.map, Except.mapError]
  · rfl

namespace Solver

variable [Scalar α] (ρ : Renaming)

omit [Scalar α] in
theorem newVariable_rename {s : Solver α} (h : ρ.vars.Steady s.supply.drawn) (bounded : Bool) :
    (s.rename ρ).newVariable bounded =
      Prod.map ρ.vars (rename ρ) (s.newVariable bounded) := by
  unfold newVariable
  rw [supply_rename, Supply.next_rename, Supply.advance_rename h]
  rfl

@[simp] theorem register_rename (s : Solver α) (i : ConstraintId) (c : Constraint α)
    (a : Auxiliaries) (supply : Supply) :
    (s.rename ρ).register (ρ.ids i) (c.rename ρ.vars) (a.rename ρ.vars) (supply.rename ρ.vars) =
      (s.register i c a supply).rename ρ := by
  have htableau := Tableau.addCosts_rename ρ.vars s.tableau a.errors c.weight
  have hrecords := Table.insert_rename ρ.ids (Record.rename ρ.vars) s.records i ⟨a, c⟩
  have hmarkers := Table.insert_rename ρ.vars ρ.ids s.markers a.marker i
  exact Solver.ext rfl rfl htableau hrecords hmarkers rfl

theorem prepare_rename {s : Solver α} (hsteady : ρ.vars.Steady s.supply.drawn)
    (hnext : (ρ.ids ⟨s.nextId + 1⟩).index = (ρ.ids ⟨s.nextId⟩).index + 1) (c : Constraint α) :
    (s.rename ρ).prepare (c.rename ρ.vars) =
      Prod.map (rename ρ) (LinearForm.rename ρ.vars) (s.prepare c) := by
  have hid : ({ s.rename ρ with nextId := (s.rename ρ).nextId + 1 } : Solver α) =
      ({ s with nextId := s.nextId + 1 } : Solver α).rename ρ :=
    Solver.ext rfl rfl rfl rfl rfl hnext.symm
  unfold prepare
  rw [supply_rename, Auxiliaries.draw_rename hsteady]
  rcases Auxiliaries.draw s.supply c with ⟨a, supply⟩
  refine Prod.ext ?_ (equation_rename ρ s c a)
  exact (congrArg (fun s' : Solver α => s'.register _ _ _ _) hid).trans
    (register_rename ρ _ ⟨s.nextId⟩ c a supply)

theorem bringIn_rename {s : Solver α} (h : ρ.Orders s) (hsteady : ρ.vars.Steady s.supply.drawn)
    (n : Nat) (i : ConstraintId) (f : LinearForm α) :
    (s.rename ρ).bringIn n (ρ.ids i) (f.rename ρ.vars) =
      (s.bringIn n i f).map (Outcome.rename ρ id) := by
  unfold bringIn
  rw [subject?_rename]
  cases s.subject? f with
  | none => exact addByFirstPhase_rename ρ h hsteady n i f
  | some v =>
    simp only [Option.map_some, insertSolved_rename]
    rfl

theorem remove_rename (n : Nat) (s : Solver α) (i : ConstraintId) :
    (s.rename ρ).remove n (ρ.ids i) = (s.remove n i).map (Outcome.rename ρ id) := by
  unfold remove
  rw [retract_rename]
  obtain ⟨s', log, f | _⟩ := s.retract i
  · rfl
  · simp only [Outcome.rename, Except.map, Except.mapError]
    rw [← Outcome.settle_rename]
    simp [Outcome.rename, Except.map, Except.mapError, Event.rename]

@[simp] theorem restore_rename (n : Nat) (s : Solver α) :
    (s.rename ρ).restore n = (s.restore n).map (Outcome.rename ρ id) := by
  unfold restore
  rw [repair_rename, Option.map_map, Option.map_map]
  congr 1
  funext o
  obtain ⟨s', log, f | _⟩ := o <;>
    simp [Outcome.rename, Except.map, Except.mapError, Event.rename, rename]

omit [Scalar α] in
/-- The new entry of a constraint in the books. -/
theorem withRecord_rename (s : Solver α) (t : Tableau α) (i : ConstraintId) (r : Record α) :
    ({ s.rename ρ with
        tableau := t.rename ρ.vars
        records := (s.rename ρ).records.insert (ρ.ids i) (r.rename ρ.vars) } : Solver α) =
      ({ s with tableau := t, records := s.records.insert i r } : Solver α).rename ρ :=
  Solver.ext rfl rfl rfl (Table.insert_rename ρ.ids (Record.rename ρ.vars) s.records i r) rfl rfl

theorem updateConstant_rename (n : Nat) (s : Solver α) (i : ConstraintId) (k : α) :
    (s.rename ρ).updateConstant n (ρ.ids i) k =
      (s.updateConstant n i k).map (Outcome.rename ρ id) := by
  unfold updateConstant
  rw [record?_rename]
  cases s.record? i with
  | none => rfl
  | some r =>
    have hchange : (r.rename ρ.vars).constraint.constantFor k -
        (r.rename ρ.vars).constraint.form.constant =
          r.constraint.constantFor k - r.constraint.form.constant := rfl
    have hrecord : ({ r.rename ρ.vars with
        constraint := (r.rename ρ.vars).constraint.withRightSide k } : Record α) =
          ({ r with constraint := r.constraint.withRightSide k } : Record α).rename ρ.vars := rfl
    have hmarker : (r.rename ρ.vars).marker = ρ.vars r.marker := rfl
    simp only [Option.map_some, hchange, hrecord, hmarker, tableau_rename,
      Tableau.shiftConstant_rename, withRecord_rename, restore_rename]
    split
    · rfl
    · rw [Option.map_map, Option.map_map]
      rfl

theorem updateStrength_rename (n : Nat) (s : Solver α) (i : ConstraintId) (new : Strength α) :
    (s.rename ρ).updateStrength n (ρ.ids i) new =
      (s.updateStrength n i new).map (Outcome.rename ρ id) := by
  unfold updateStrength
  rw [record?_rename]
  cases s.record? i with
  | none => rfl
  | some r =>
    have hstrength : (r.rename ρ.vars).constraint.strength = r.constraint.strength := rfl
    have hrecord : ({ r.rename ρ.vars with
        constraint := (r.rename ρ.vars).constraint.withStrength new } : Record α) =
          ({ r with constraint := r.constraint.withStrength new } : Record α).rename ρ.vars := rfl
    have herrors : (r.rename ρ.vars).errors = r.errors.map ρ.vars := rfl
    simp only [Option.map_some, hstrength, hrecord, herrors, tableau_rename,
      Tableau.addCosts_rename, withRecord_rename]
    split
    · rfl
    · split
      · rfl
      · rw [← Outcome.settle_rename]
        rfl

end Solver

end SoftSimplex
