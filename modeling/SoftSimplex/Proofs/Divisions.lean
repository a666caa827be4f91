import SoftSimplex.Proofs.Consistency
import SoftSimplex.Proofs.Exchanges

/-!
# No division by zero

The engine divides where it solves an equation or a row for a variable, where it asks what that would
do to the rows, and in the ratios by which it chooses what enters and what leaves. What it works with
there are the quotients of divisions by coefficients that it has stored. No stored coefficient is zero,
in the tableaus that histories lead to and in those that a request goes through: whatever coefficients
a client's constraint has, its equation is built up by sums, of which the negligible ones are dropped.
-/

namespace SoftSimplex

open LinearForm

variable {α : Type} [Scalar α]

/-! ## The divisions -/

structure Division (α : Type) where
  dividend : α
  divisor : α

namespace Division

def quotient (d : Division α) : α := d.dividend / d.divisor

def ratios (ds : List (Variable × Division α)) : List (Variable × α) :=
  ds.map fun e => (e.1, e.2.quotient)

end Division

/-- The division that solving a form for `v` takes. -/
def LinearForm.solving (f : LinearForm α) (v : Variable) : Division α := ⟨-1, f.coeff v⟩

theorem LinearForm.isolate_eq {f : LinearForm α} {v : Variable} (hv : v ∈ f.vars) :
    f.isolate v = (f.erase v).scale (f.solving v).quotient := by
  unfold LinearForm.isolate
  rw [get?_of_mem hv]
  rfl

namespace Tableau

/-- The divisions by the coefficients of `v` in the rows of its column that count. -/
def columnDivisions (t : Tableau α) (v : Variable) (counts : Variable → LinearForm α → Bool)
    (dividend : LinearForm α → α) : List (Variable × Division α) :=
  (t.column v).filterMap fun b => (t.row? b).bind fun row =>
    if counts b row then some (b, ⟨dividend row, row.coeff v⟩) else none

theorem ratios_columnDivisions (t : Tableau α) (v : Variable)
    (counts : Variable → LinearForm α → Bool) (dividend : LinearForm α → α) :
    Division.ratios (t.columnDivisions v counts dividend) =
      (t.column v).filterMap fun b => (t.row? b).bind fun row =>
        if counts b row then some (b, dividend row / row.coeff v) else none := by
  unfold columnDivisions Division.ratios
  rw [List.map_filterMap]
  congr 1
  funext b
  cases t.row? b with
  | none => rfl
  | some row =>
    simp only [Option.bind_some]
    split <;> rfl

def limitDivisions (t : Tableau α) (v : Variable) : List (Variable × Division α) :=
  t.columnDivisions v (fun b row => b.isRestricted && !Scalar.isNonneg (row.coeff v))
    fun row => -row.constant

def sinkingDivisions (t : Tableau α) (v : Variable) : List (Variable × Division α) :=
  t.columnDivisions v (fun b row => b.isRestricted && Scalar.isNeg (row.coeff v))
    fun row => -row.constant

def risingDivisions (t : Tableau α) (v : Variable) : List (Variable × Division α) :=
  t.columnDivisions v (fun b row => b.isRestricted && !Scalar.isNeg (row.coeff v))
    LinearForm.constant

def rowDivisions (t : Tableau α) (row : LinearForm α) : List (Variable × Division α) :=
  row.terms.entries.filterMap fun e =>
    if Scalar.isNonpos e.2 || !e.1.mayEnter then none
    else some (e.1, ⟨t.objective.coeff e.1, e.2⟩)

theorem raisers_eq_ratios (t : Tableau α) (row : LinearForm α) :
    t.raisers row = Division.ratios (t.rowDivisions row) := by
  unfold raisers rowDivisions Division.ratios
  rw [List.map_filterMap]
  congr 1
  funext e
  cases Scalar.isNonpos e.2 <;> cases e.1.mayEnter <;> rfl

/-- Where the engine divides at a tableau: each list of ratios that it chooses from, and the factor
with which an exchange scales a row, are quotients of these divisions. -/
structure Accounted (t : Tableau α) : Prop where
  limits (v : Variable) : t.limits v = Division.ratios (t.limitDivisions v)
  sinking (v : Variable) : t.sinking v = Division.ratios (t.sinkingDivisions v)
  rising (v : Variable) : t.rising v = Division.ratios (t.risingDivisions v)
  raisers (row : LinearForm α) : t.raisers row = Division.ratios (t.rowDivisions row)
  exchange {entry exit : Variable} {u : Tableau α} : t.exchange entry exit = .ok u →
    ∃ row solved, t.row? exit = some row ∧ entry ∈ row.vars ∧
      solved = ((row.addTerm exit (-1)).erase entry).scale
        ((row.addTerm exit (-1)).solving entry).quotient ∧
      u = ((t.removeRow exit).substitute entry solved).insertRow entry solved

theorem WellFormed.accounted {t : Tableau α} (h : t.WellFormed) : t.Accounted where
  limits v := by rw [limits_eq, limitDivisions, ratios_columnDivisions]
  sinking v := (t.ratios_columnDivisions v _ _).symm
  rising v := (t.ratios_columnDivisions v _ _).symm
  raisers := t.raisers_eq_ratios
  exchange he := by
    obtain ⟨row, hrow, hentry, rfl⟩ := exchange_eq_ok.1 he
    -- A row does not mention its own variable: bringing that over leaves the term of `entry`.
    have hne := h.ne_of_mem hrow hentry hrow
    exact ⟨row, _, hrow, hentry, isolate_eq ((mem_vars_addTerm_of_ne hne).2 hentry), rfl⟩

/-- The divisions that may be made at a tableau: for the ratios in a column, for those in a row, and
to solve a row for one of its variables. -/
inductive Divides (t : Tableau α) : Division α → Prop where
  | column {v : Variable} {counts : Variable → LinearForm α → Bool}
    {dividend : LinearForm α → α} {e : Variable × Division α} :
    e ∈ t.columnDivisions v counts dividend → Divides t e.2
  | row {b : Variable} {row : LinearForm α} {e : Variable × Division α} :
    t.row? b = some row → e ∈ t.rowDivisions row → Divides t e.2
  | exchange {entry exit : Variable} {row : LinearForm α} :
    t.row? exit = some row → entry ∈ row.vars →
      Divides t ((row.addTerm exit (-1)).solving entry)

variable {V : Variable → Prop} {t u : Tableau α} {d : Division α}

/-- They are all by stored coefficients. -/
theorem Tidy.divisor_ne_zero (h : t.Tidy V) (hd : t.Divides d) : d.divisor ≠ 0 := by
  have hwf := h.wellFormed
  cases hd with
  | @column v _ _ e he =>
    obtain ⟨b, hb, he⟩ := List.mem_filterMap.1 he
    obtain ⟨row, hrow, he⟩ := Option.bind_eq_some_iff.1 he
    obtain ⟨row', hrow', hv⟩ := hwf.indexed.mem_column.1 hb
    rw [hrow, Option.some.injEq] at hrow'
    subst hrow'
    split at he
    · cases he
      exact h.trim.row hrow v hv
    · cases he
  | @row b row e hrow he =>
    obtain ⟨x, hx, he⟩ := List.mem_filterMap.1 he
    split at he
    · cases he
    · cases he
      exact trim_iff.1 (h.trim.row hrow) x.1 x.2 (Table.get?_eq_some_iff.2 hx)
  | @exchange entry exit row hrow hentry =>
    have hne : entry ≠ exit := hwf.ne_of_mem hrow hentry hrow
    show (row.addTerm exit (-1)).coeff entry ≠ 0
    rw [coeff_eq, get?_addTerm_of_ne row hne, ← coeff_eq]
    exact h.trim.row hrow entry hentry

/-! ## Along a pass -/

structure Kept (V : Variable → Prop) (t : Tableau α) : Prop where
  tidy : t.Tidy V
  freeApart : t.FreeApart

/-- The tableaus that a pass goes through, however long it goes on. -/
def PassStates (step : Tableau α → Step α) (t u : Tableau α) : Prop := ∃ i, after step i t = some u

/-- A pass goes through tableaus that are kept. -/
theorem Kept.passStates {step : Tableau α → Step α}
    (hstep : ∀ {u : Tableau α}, u.Kept V → (step u).Meets (Kept V) (Kept V) fun u _ => u.Kept V)
    (h : t.Kept V) (hu : t.PassStates step u) : u.Kept V := by
  obtain ⟨i, hu⟩ := hu
  exact after_meets (fun _ hu => hstep hu) h hu

/-- What it leaves is kept too. -/
theorem Kept.iterate {step : Tableau α → Step α}
    (hstep : ∀ {u : Tableau α}, u.Kept V → (step u).Meets (Kept V) (Kept V) fun u _ => u.Kept V)
    (h : t.Kept V) {n : Nat} {p : Pass α} (hp : Tableau.iterate step n t = some p) :
    p.tableau.Kept V :=
  (iterate_meets (fun _ hu => hstep hu) h hp).tableau (fun _ hu => hu) fun _ _ hu => hu

section Steps

variable [Scalar.Sharp α]

theorem Kept.exchange (hV : Numbered V) (h : t.Kept V) {entry exit : Variable}
    (hx : exit.isRestricted = true) (he : t.exchange entry exit = .ok u) : u.Kept V :=
  ⟨h.tidy.exchange hV he, h.freeApart.exchange h.tidy.wellFormed.indexed hx he⟩

theorem Kept.descend (hV : Numbered V) (h : t.Kept V) (chosen : Option Variable) :
    (t.descend chosen).Meets (Kept V) (Kept V) fun u _ => u.Kept V := by
  apply (h.tidy.wellFormed.indexed.descend_meets chosen).mono
  · rintro u ⟨entry, exit, -, hx, he⟩
    obtain ⟨hr, -⟩ := h.tidy.wellFormed.indexed.row_of_tightest? hx
    exact h.exchange hV hr he
  · rintro u ⟨rfl, -⟩
    exact h
  · rintro u f ⟨rfl, -⟩
    exact h

theorem Kept.objectiveStep (hV : Numbered V) (h : t.Kept V) :
    t.objectiveStep.Meets (Kept V) (Kept V) fun u _ => u.Kept V := by
  rw [h.tidy.orderly.objectiveStep_eq]
  exact h.descend hV _

theorem Kept.artificialStep (hV : Numbered V) (h : t.Kept V) :
    t.artificialStep.Meets (Kept V) (Kept V) fun u _ => u.Kept V := by
  rw [h.tidy.orderly.artificialStep_eq hV]
  exact h.descend hV _

theorem Kept.repairStep (hV : Numbered V) (h : t.Kept V) :
    t.repairStep.Meets (Kept V) (Kept V) fun u _ => u.Kept V := by
  have hqueue : ∀ {q : Roster Variable}, (∀ b ∈ q.keys, b ∈ t.queue.keys) →
      ({ t with queue := q } : Tableau α).Kept V :=
    fun hq => ⟨h.tidy.withQueue hq, h.freeApart.of_rows fun _ => rfl⟩
  apply h.tidy.wellFormed.repairStep_meets.mono
  · rintro u ⟨q, exit, row, entry, hq, -, -, hr, -, -, he⟩
    exact (hqueue hq).exchange hV hr he
  · rintro u ⟨-, rfl⟩
    exact hqueue fun b hb => by cases hb
  · rintro u f ⟨-, q, exit, row, hq, -, -, -, -, rfl⟩
    exact hqueue hq

end Steps

end Tableau

namespace Solver

variable {V : Variable → Prop} {vs : List Variable} {s : Solver α} {id : ConstraintId}
variable {f : LinearForm α} {n : Nat} {o : Outcome α Unit}

/-! ## Along a request -/

/-- The tableaus that an operation goes through by minimising at its end. -/
def SettleStates (s : Solver α) (t : Tableau α) : Prop :=
  s.settings.autoSolve = true ∧ s.tableau.PassStates Tableau.objectiveStep t

inductive BringInStates (s : Solver α) (id : ConstraintId) (f : LinearForm α) :
    Tableau α → Prop where
  /-- When a variable to solve for is looked for. -/
  | start : BringInStates s id f s.tableau
  /-- On the way down from the equation. -/
  | before {t : Tableau α} : s.subject? f = none →
      (s.beginFirstPhase f).tableau.PassStates Tableau.artificialStep t → BringInStates s id f t
  /-- When the artificial variable is to go. -/
  | after {n : Nat} {p : Pass α} : s.subject? f = none →
      (s.beginFirstPhase f).tableau.minimizeArtificial n = some p →
      BringInStates s id f p.tableau.endFirstPhase
  /-- When the constraint is to go with it. -/
  | struck {n : Nat} {p : Pass α} {r : Record α} : s.subject? f = none →
      (s.beginFirstPhase f).tableau.minimizeArtificial n = some p → s.record? id = some r →
      BringInStates s id f (({ s.beginFirstPhase f with
        tableau := p.tableau.endFirstPhase.discard (s.supply.next .slack) } :
          Solver α).strike id r).tableau

inductive States (s : Solver α) : Request α → Tableau α → Prop where
  | start (q : Request α) : States s q s.tableau
  | solve {t : Tableau α} : s.tableau.PassStates Tableau.objectiveStep t → States s .solve t
  | broughtIn {c : Constraint α} {t : Tableau α} :
    (s.prepare c).1.BringInStates ⟨s.nextId⟩ (s.prepare c).2 t → States s (.add c) t
  | added {c : Constraint α} {n : Nat} {o : Outcome α Unit} {t : Tableau α} :
    (s.prepare c).1.bringIn n ⟨s.nextId⟩ (s.prepare c).2 = some o → o.solver.SettleStates t →
      States s (.add c) t
  | struck {id : ConstraintId} {r : Record α} : s.record? id = some r →
    States s (.remove id) (s.strike id r).tableau
  | removed {id : ConstraintId} {t : Tableau α} : (s.retract id).solver.SettleStates t →
    States s (.remove id) t
  | shifted {id : ConstraintId} {k : α} {r : Record α} {t : Tableau α} : s.record? id = some r →
    (s.shifted id r k).tableau.PassStates Tableau.repairStep t → States s (.updateConstant id k) t
  | reweighed {id : ConstraintId} {new : Strength α} {r : Record α} {t : Tableau α} :
    s.record? id = some r → new.isRequired = r.constraint.isRequired →
      (s.reweighed id r new).SettleStates t → States s (.updateStrength id new) t

/-- What solving an equation for `v` would do to its value. -/
def admitting (f : LinearForm α) (v : Variable) : Division α := ⟨-f.constant, f.coeff v⟩

/-- Where the engine divides to bring an equation in: to ask whether it may be solved for a variable,
and to solve it. -/
structure Accounted (s : Solver α) (f : LinearForm α) : Prop where
  admits (v : Variable) : s.admits f v = (s.tableau.column v).all fun b =>
    !b.isRestricted || (s.tableau.row? b).all fun row =>
      Scalar.ge (row.constant + row.coeff v * (admitting f v).quotient) (-Scalar.tolerance)
  insertSolved {v : Variable} : s.subject? f = some v →
    ∃ row, row = (f.erase v).scale (f.solving v).quotient ∧
      s.insertSolved v f = { s with tableau := (s.tableau.substitute v row).insertRow v row }

theorem accounted (s : Solver α) (f : LinearForm α) : s.Accounted f where
  admits _ := rfl
  insertSolved hx := ⟨_, isolate_eq (subject?_free hx).1, rfl⟩

/-- The divisions that a request may come to: about the variables of a new constraint's equation, to
solve that equation for one of them, and at the tableaus that the request goes through. -/
inductive Divides (s : Solver α) : Request α → Division α → Prop where
  | asked {c : Constraint α} {v : Variable} : v ∈ (s.prepare c).2.vars →
    Divides s (.add c) (admitting (s.prepare c).2 v)
  | solved {c : Constraint α} {v : Variable} :
    (s.prepare c).1.subject? (s.prepare c).2 = some v →
      Divides s (.add c) ((s.prepare c).2.solving v)
  | within {q : Request α} {t : Tableau α} {d : Division α} : s.States q t → t.Divides d →
    Divides s q d

/-! ## What a request keeps -/

structure Trimmed (V : Variable → Prop) (vs : List Variable) (s : Solver α) : Prop where
  upheld : s.Upheld V vs
  trim : s.tableau.Trim

theorem Trimmed.tidy (h : s.Trimmed V vs) : s.tableau.Tidy V := h.upheld.orderly.tidy h.trim

theorem Trimmed.indexed (h : s.Trimmed V vs) : s.tableau.Indexed :=
  h.upheld.orderly.wellFormed.indexed

theorem Trimmed.kept (h : s.Trimmed V vs) : s.tableau.Kept V := ⟨h.tidy, h.upheld.freeApart⟩

theorem Trimmed.numbered (h : s.Trimmed V vs) : Numbered V := h.upheld.books.issued.numbered

variable [Scalar.Sharp α]

theorem Trimmed.minimizing (h : s.Trimmed V vs) {t : Tableau α}
    (ht : s.tableau.PassStates Tableau.objectiveStep t) : t.Tidy V :=
  (h.kept.passStates (fun hu => hu.objectiveStep h.numbered) ht).tidy

theorem Trimmed.firstPhase (h : s.Trimmed V vs) {t : Tableau α}
    (ht : s.tableau.PassStates Tableau.artificialStep t) : t.Tidy V :=
  (h.kept.passStates (fun hu => hu.artificialStep h.numbered) ht).tidy

theorem Trimmed.repairing (h : s.Trimmed V vs) {t : Tableau α}
    (ht : s.tableau.PassStates Tableau.repairStep t) : t.Tidy V :=
  (h.kept.passStates (fun hu => hu.repairStep h.numbered) ht).tidy

theorem Trimmed.solve (h : s.Trimmed V vs) (ho : s.solve n = some o) : o.solver.Trimmed V vs := by
  refine ⟨h.upheld.solve ho, ?_⟩
  obtain ⟨p, hp, rfl⟩ := solve_cases ho
  exact (h.kept.iterate (fun hu => hu.objectiveStep h.numbered) hp).tidy.trim

theorem trimmed_settle {ρ : Type} {o o' : Outcome α ρ} (ho : o.settle n = some o')
    (h : o.solver.Trimmed V vs) : o'.solver.Trimmed V vs := by
  rcases o.settle_cases ho with rfl | ⟨q, hq, hsolver, -⟩
  · exact h
  · rw [hsolver]
    exact h.solve hq

theorem Trimmed.restore (h : s.Trimmed V vs) (ho : s.restore n = some o) :
    o.solver.Trimmed V vs := by
  refine ⟨h.upheld.restore ho, ?_⟩
  obtain ⟨p, hp, hsolver, -⟩ := restore_cases ho
  have htrim := (h.kept.iterate (fun hu => hu.repairStep h.numbered) hp).tidy.trim
  rw [hsolver]
  exact ⟨htrim.row, htrim.objective, htrim.artificial⟩

/-! ### Taking a constraint out -/

theorem trim_addCosts {t : Tableau α} (ht : t.Trim) (w : α) (es : List Variable) :
    (es.foldl (fun t v => t.addCost v w) t).Trim := by
  induction es generalizing t with
  | nil => exact ht
  | cons e es ih => exact ih (ht.addCost e w)

theorem trim_waiveAll {t : Tableau α} (ht : t.Trim) (w : α) (es : List Variable) :
    (es.foldl (Tableau.waive w) t).Trim := by
  induction es generalizing t with
  | nil => exact ht
  | cons e es ih => exact ih ((ht.addCost e (-w)).removeRow e)

theorem Trimmed.strike (h : s.Trimmed V vs) {r : Record α} (hr : s.record? id = some r) :
    (s.strike id r).Trimmed V vs :=
  ⟨h.upheld.strike hr, trim_waiveAll h.trim _ _⟩

theorem Trimmed.retract (h : s.Trimmed V vs) (id : ConstraintId) :
    (s.retract id).solver.Trimmed V vs := by
  refine ⟨h.upheld.retract id, ?_⟩
  unfold Solver.retract
  cases hr : s.record? id with
  | none => exact h.trim
  | some r =>
    have hs := h.strike hr
    simp only
    split
    · exact hs.trim.removeRow _
    · split
      · next he => exact (hs.trim.exchange hs.indexed he).removeRow _
      · exact hs.trim.removeRow _

/-! ### Bringing a constraint in -/

theorem Trimmed.prepare (h : s.Trimmed V vs) {c : Constraint α} (hc : ∀ v ∈ c.form.vars, v ∈ vs) :
    (s.prepare c).1.Trimmed (fun v => V v ∨ v ∈ (Auxiliaries.draw s.supply c).1.own) vs :=
  ⟨(h.upheld.prepare hc).1, trim_addCosts h.trim _ _⟩

theorem Trimmed.insertSolved (h : s.Trimmed V vs) (hf : f.Trim)
    (hvars : ∀ w ∈ f.vars, V w ∧ s.tableau.row? w = none) {v : Variable}
    (hx : s.subject? f = some v) : (s.insertSolved v f).Trimmed V vs :=
  ⟨h.upheld.insertSolved hvars hx,
    (h.trim.substitute h.indexed v _).insertRow v (hf.isolate v)⟩

omit [Scalar.Sharp α] in
theorem Trimmed.beginFirstPhase (h : s.Trimmed V vs) (hf : f.Trim)
    (hvars : ∀ w ∈ f.vars, V w ∧ s.tableau.row? w = none) (hx : s.subject? f = none) :
    (s.beginFirstPhase f).Trimmed (fun w => V w ∨ w = s.supply.next .slack) vs := by
  have hrow := h.trim.insertRow (s.supply.next .slack) hf
  refine ⟨h.upheld.beginFirstPhase hvars hx, hrow.row, hrow.objective, fun hg => ?_⟩
  cases hg
  exact hf

theorem Trimmed.endFirstPhase (h : s.Trimmed V vs) {p : Pass α}
    (hp : s.tableau.minimizeArtificial n = some p) :
    ({ s with tableau := p.tableau.endFirstPhase } : Solver α).Trimmed V vs := by
  have htrim := (h.kept.iterate (fun hu => hu.artificialStep h.numbered) hp).tidy.trim
  exact ⟨h.upheld.endFirstPhase hp, htrim.row, htrim.objective, fun hg => nomatch hg⟩

omit [Scalar.Sharp α] in
theorem Trimmed.discard (h : s.Trimmed V vs) {a : Variable} (ha : V a) :
    ({ s with tableau := s.tableau.discard a } : Solver α).Trimmed V vs :=
  ⟨h.upheld.discard ha, (h.trim.removeRow a).removeColumn (h.indexed.removeRow a) a⟩

theorem Trimmed.dismiss (h : s.Trimmed V vs) (id : ConstraintId) {a : Variable} (ha : V a)
    (hr : a.isRestricted = true) : (s.dismiss id a).solver.Trimmed V vs := by
  refine ⟨h.upheld.dismiss id ha hr, ?_⟩
  unfold Solver.dismiss
  simp only
  split
  · exact h.trim.removeColumn h.indexed a
  · exact (h.trim.removeRow a).removeColumn (h.indexed.removeRow a) a
  · split
    · next he =>
      have ht := h.upheld.orderly.wellFormed.exchange he
      exact (h.trim.exchange h.indexed he).removeColumn ht.indexed a
    · exact h.trim.removeRow a

theorem Trimmed.concludeFirstPhase (h : s.Trimmed V vs) (id : ConstraintId) {a : Variable}
    (ha : V a) (hr : a.isRestricted = true) {p : Pass α}
    (hp : s.tableau.minimizeArtificial n = some p) :
    (s.concludeFirstPhase id a p).solver.Trimmed V vs := by
  have hafter := h.endFirstPhase hp
  rcases concludeFirstPhase_cases s id a p with hend | ⟨news, e, hend⟩
  · rw [hend]
    exact hafter.dismiss id ha hr
  · rw [hend, solver_of_rollBack]
    exact (hafter.discard ha).retract id

theorem Trimmed.bringIn (h : s.Trimmed V vs) (hf : f.Trim)
    (hvars : ∀ w ∈ f.vars, V w ∧ s.tableau.row? w = none) (ho : s.bringIn n id f = some o) :
    ∃ W, o.solver.Trimmed W vs := by
  rcases bringIn_cases ho with ⟨v, hx, rfl⟩ | ⟨hx, p, hp, hsolver, -⟩
  · exact ⟨V, h.insertSolved hf hvars hx⟩
  · rw [hsolver]
    exact ⟨_, (h.beginFirstPhase hf hvars hx).concludeFirstPhase id (.inr rfl) rfl hp⟩

theorem Trimmed.bringing (h : s.Trimmed V vs) (hf : f.Trim)
    (hvars : ∀ w ∈ f.vars, V w ∧ s.tableau.row? w = none) {t : Tableau α}
    (ht : s.BringInStates id f t) : ∃ W, t.Tidy W := by
  cases ht with
  | start => exact ⟨V, h.tidy⟩
  | before hx ht => exact ⟨_, (h.beginFirstPhase hf hvars hx).firstPhase ht⟩
  | after hx hp => exact ⟨_, ((h.beginFirstPhase hf hvars hx).endFirstPhase hp).tidy⟩
  | struck hx hp hr =>
    have hafter := (h.beginFirstPhase hf hvars hx).endFirstPhase hp
    exact ⟨_, ((hafter.discard (.inr rfl)).strike hr).tidy⟩

/-! ### Any request -/

theorem Trimmed.equation_open (h : s.Trimmed V vs) {c : Constraint α}
    (hc : ∀ v ∈ c.form.vars, v ∈ vs) :
    (s.prepare c).2.Trim ∧ ∀ v ∈ (s.prepare c).2.vars,
      (V v ∨ v ∈ (Auxiliaries.draw s.supply c).1.own) ∧ (s.prepare c).1.tableau.row? v = none :=
  ⟨s.trim_equation c _, (h.upheld.prepare hc).2⟩

omit [Scalar.Sharp α] in
theorem Trimmed.shift (h : s.Trimmed V vs) {r : Record α} (hr : s.record? id = some r) (k : α) :
    (s.shifted id r k).Trimmed V vs :=
  ⟨h.upheld.shift hr k, h.trim.shiftConstant _ _⟩

theorem Trimmed.reweigh (h : s.Trimmed V vs) {r : Record α} (hr : s.record? id = some r)
    {new : Strength α} (hreq : new.isRequired = r.constraint.isRequired) :
    (s.reweighed id r new).Trimmed V vs :=
  ⟨h.upheld.reweigh hr hreq, trim_addCosts h.trim _ _⟩

theorem Trimmed.add (h : s.Trimmed V vs) {c : Constraint α} (hc : ∀ v ∈ c.form.vars, v ∈ vs)
    {o : Outcome α ConstraintId} (ho : s.add n c = some o) : o.solver.tableau.Trim := by
  obtain ⟨q, hq, ho⟩ := add_cases ho
  obtain ⟨hf, hvars⟩ := h.equation_open hc
  obtain ⟨W, hq⟩ := (h.prepare hc).bringIn hf hvars hq
  exact (trimmed_settle ho hq).trim

theorem Trimmed.remove (h : s.Trimmed V vs) (ho : s.remove n id = some o) :
    o.solver.tableau.Trim := by
  have hback := h.retract id
  rcases remove_cases ho with ⟨e, -, rfl⟩ | ⟨-, ho⟩
  · exact hback.trim
  · exact (trimmed_settle ho hback).trim

theorem Trimmed.updateConstant (h : s.Trimmed V vs) {k : α}
    (ho : s.updateConstant n id k = some o) : o.solver.tableau.Trim := by
  rcases updateConstant_cases ho with rfl | ⟨r, q, hr, hq, rfl⟩
  · exact h.trim
  · exact ((h.shift hr k).restore hq).trim

theorem Trimmed.updateStrength (h : s.Trimmed V vs) {new : Strength α}
    (ho : s.updateStrength n id new = some o) : o.solver.tableau.Trim := by
  rcases updateStrength_cases ho with ⟨-, rfl⟩ | ⟨log, rfl⟩ | ⟨r, hr, hreq, ho⟩
  · exact h.trim
  · exact h.trim
  · exact (trimmed_settle ho (h.reweigh hr hreq)).trim

theorem Trimmed.perform (h : s.Trimmed V vs) {q : Request α} (hq : q.Within vs)
    {o : Outcome α Reply} (ho : s.perform n q = some o) :
    ∃ W, o.solver.Trimmed W (vs ++ Reply.clients o.answer) := by
  obtain ⟨W, hW⟩ := h.upheld.perform hq ho
  refine ⟨W, hW, ?_⟩
  cases q with
  | newVariable bounded =>
    cases ho
    exact h.trim
  | add c =>
    obtain ⟨p, hp, rfl⟩ := Option.map_eq_some_iff.1 ho
    exact h.add hq hp
  | remove id =>
    obtain ⟨p, hp, rfl⟩ := Option.map_eq_some_iff.1 ho
    exact h.remove hp
  | updateConstant id k =>
    obtain ⟨p, hp, rfl⟩ := Option.map_eq_some_iff.1 ho
    exact h.updateConstant hp
  | updateStrength id new =>
    obtain ⟨p, hp, rfl⟩ := Option.map_eq_some_iff.1 ho
    exact h.updateStrength hp
  | solve =>
    obtain ⟨p, hp, rfl⟩ := Option.map_eq_some_iff.1 ho
    exact (h.solve hp).trim
  | reset =>
    cases ho
    exact Tableau.trim_empty
  | setAutoSolve b =>
    cases ho
    exact h.trim
  | setExplainFailure b =>
    cases ho
    exact h.trim

/-- Every solver that a client can get to is trimmed. -/
theorem Reached.trimmed {allowed : Solver α → Request α → Outcome α Reply → Prop}
    (h : Reached allowed vs s) : ∃ V, s.Trimmed V vs := by
  induction h with
  | start settings => exact ⟨_, upheld_start settings, Tableau.trim_empty⟩
  | step _ hq ho _ ih =>
    obtain ⟨V, hs⟩ := ih
    exact hs.perform hq ho

/-- Every tableau that a request goes through is tidy. -/
theorem Trimmed.states (h : s.Trimmed V vs) {q : Request α} (hq : q.Within vs) {t : Tableau α}
    (ht : s.States q t) : ∃ W, t.Tidy W := by
  cases ht with
  | start => exact ⟨V, h.tidy⟩
  | solve ht => exact ⟨V, h.minimizing ht⟩
  | broughtIn ht =>
    obtain ⟨hf, hvars⟩ := h.equation_open hq
    exact (h.prepare hq).bringing hf hvars ht
  | added ho ht =>
    obtain ⟨hf, hvars⟩ := h.equation_open hq
    obtain ⟨W, hadded⟩ := (h.prepare hq).bringIn hf hvars ho
    exact ⟨W, hadded.minimizing ht.2⟩
  | struck hr => exact ⟨V, (h.strike hr).tidy⟩
  | removed ht => exact ⟨V, (h.retract _).minimizing ht.2⟩
  | shifted hr ht => exact ⟨V, (h.shift hr _).repairing ht⟩
  | reweighed hr hreq ht => exact ⟨V, (h.reweigh hr hreq).minimizing ht.2⟩

theorem Trimmed.divisor_ne_zero (h : s.Trimmed V vs) {q : Request α} (hq : q.Within vs)
    {d : Division α} (hd : s.Divides q d) : d.divisor ≠ 0 := by
  cases hd with
  | asked hv => exact (h.equation_open hq).1 _ hv
  | solved hx => exact (h.equation_open hq).1 _ (subject?_free hx).1
  | within ht hd =>
    obtain ⟨W, htidy⟩ := h.states hq ht
    exact htidy.divisor_ne_zero hd

/-- In rational arithmetic with the tolerance of the doubles: no solver that a client can get to
stores a zero coefficient, in a row or in the objective, and neither does a tableau that a request
goes through from there, in a row, in the objective or in that of a first phase. What is divided on the
way is accounted for by the divisions that the request may come to, and none of these is by zero. The
constraints may have any coefficients, zeros among them and such as are negligible. -/
theorem never_divides_by_zero {s : Solver Coarse}
    {allowed : Solver Coarse → Request Coarse → Outcome Coarse Reply → Prop}
    (h : Reached allowed vs s) :
    s.tableau.Trim ∧ ∀ q : Request Coarse, q.Within vs →
      (∀ t, s.States q t → t.Trim ∧ t.Accounted) ∧
      (∀ c, q = .add c → (s.prepare c).1.Accounted (s.prepare c).2) ∧
      ∀ d, s.Divides q d → d.divisor ≠ 0 := by
  obtain ⟨V, hs⟩ := h.trimmed
  refine ⟨hs.trim, fun q hq =>
    ⟨fun t ht => ?_, fun c _ => accounted _ _, fun d hd => hs.divisor_ne_zero hq hd⟩⟩
  obtain ⟨W, htidy⟩ := hs.states hq ht
  exact ⟨htidy.trim, htidy.wellFormed.accounted⟩

/-- A variable with a lower bound, a coefficient of zero in one constraint and a negligible one in
another. The constraint with the zero is added again: its equation is solved for its slack. -/
theorem divides_beside_negligible_terms :
    ∃ (vs : List Variable) (s : Solver Coarse) (c : Constraint Coarse) (v : Variable),
      Reached (fun _ _ _ => True) vs s ∧ (Request.add c).Within vs ∧ s.tableau.size = 3 ∧
        c.form.terms.entries.map (fun e => (e.1, e.2.toRat)) = [(⟨0, .free⟩, 0)] ∧
        s.Divides (.add c) ((s.prepare c).2.solving v) ∧
        ((s.prepare c).2.solving v).divisor ≠ 0 := by
  let x : LinearForm Coarse := .var ⟨0, .free⟩
  let c : Constraint Coarse := .compare (x.scale 0) .atLeast (.const (.ofRat (-5)))
  let tiny : Constraint Coarse :=
    .compare (x.scale (.ofRat (1 / 1000000000))) .atLeast (.const (.ofRat (-7)))
  let session : List (Request Coarse) := [.add (.compare x .atLeast (.const 1)), .add c, .add tiny]
  have hrun : (session.foldlM (fun (s : Solver Coarse) q => (s.perform 9 q).map Outcome.solver)
      (new.newVariable false).2).any (fun s => decide (s.tableau.size = 3) &&
        decide ((s.prepare c).1.subject? (s.prepare c).2 = some ⟨4, .slack⟩)) = true := by
    decide +kernel
  obtain ⟨s, hs, hcheck⟩ := (Option.any_eq_true _ _).1 hrun
  rw [Bool.and_eq_true, decide_eq_true_eq, decide_eq_true_eq] at hcheck
  obtain ⟨hsize, hsolved⟩ := hcheck
  have hwithin : ∀ q ∈ session, q.Within [⟨0, .free⟩] := by decide +kernel
  obtain ⟨ws, hws, hreached⟩ := reached_newVariable.foldlM hwithin hs
  have hc : (Request.add c).Within ws :=
    (hwithin (.add c) (List.mem_cons_of_mem _ List.mem_cons_self)).mono fun v hv => hws hv
  have hd : s.Divides (.add c) ((s.prepare c).2.solving ⟨4, .slack⟩) := .solved hsolved
  exact ⟨ws, s, c, _, hreached, hc, hsize, by decide +kernel, hd,
    ((never_divides_by_zero hreached).2 _ hc).2.2 _ hd⟩

end Solver

end SoftSimplex
