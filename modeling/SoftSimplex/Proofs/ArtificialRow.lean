import SoftSimplex.Proofs.Rearrangement
import SoftSimplex.Proofs.Termination
import SoftSimplex.Proofs.Upkeep

/-!
# What a first phase minimises

A first phase begins with one equation in two places: it is the row of the artificial variable, and
it is the objective. An exchange finds the rows that it has to change in the columns, and looks into
the objective itself; but what it does to a form is the same in both places. So the two stay one form
for as long as the artificial variable is basic, in whatever arithmetic, and what enters because the
objective falls with it is limited by the row. In exact arithmetic the objective of a basis without
the artificial variable is that variable, and nothing lowers it further.
-/

namespace SoftSimplex

open LinearForm Tableau

/-! ## As long as the artificial variable is basic -/

section Any

variable {α : Type} [Scalar α]

namespace Tableau

variable {V : Variable → Prop} {t u : Tableau α} {a entry exit : Variable} {n : Nat}

/-- The artificial objective is the row of `a`. -/
def Targets (t : Tableau α) (a : Variable) : Prop :=
  ∃ row, t.row? a = some row ∧ t.artificial = some row

/-- An exchange puts the same form in the place of the same variable, in the row as in the
objective. -/
theorem Targets.exchange (h : t.Targets a) (ht : t.WellFormed)
    (he : t.exchange entry exit = .ok u) (ha : u.isBasic a = true) : u.Targets a := by
  obtain ⟨row, hrow, hart⟩ := h
  obtain ⟨given, hgiven, hmem, -⟩ := exchange_eq_ok.1 he
  have hafter := ht.row?_exchange hgiven he a
  have hentry : a ≠ entry := by
    rintro rfl
    cases hrow.symm.trans (ht.row_open hgiven hmem)
  have hexit : a ≠ exit := by
    rintro rfl
    rw [if_neg hentry, if_pos rfl, ← isBasic_eq_false_iff, ha] at hafter
    cases hafter
  rw [if_neg hentry, if_neg hexit, hrow, Option.map_some] at hafter
  exact ⟨_, hafter, by rw [artificial_exchange hgiven he, hart, Option.map_some]⟩

/-- What is basic all the time keeps its row as the objective. -/
theorem Orderly.targets_after (hV : Numbered V) (h : t.Orderly V) (ht : t.Targets a)
    (hu : after artificialStep n t = some u)
    (hbasic : ∀ i ≤ n, ∀ w, after artificialStep i t = some w → w.isBasic a = true) :
    u.Orderly V ∧ u.Targets a := by
  induction n generalizing u with
  | zero =>
    cases hu
    exact ⟨h, ht⟩
  | succ n ih =>
    obtain ⟨w, hw, hnext⟩ := after_succ_eq_some.1 hu
    obtain ⟨how, htw⟩ := ih hw fun i hi => hbasic i (Nat.le_succ_of_le hi)
    rw [how.artificialStep_eq hV] at hnext
    obtain ⟨entry, exit, -, -, he⟩ := (how.wellFormed.indexed.descend_meets _).next hnext
    exact ⟨how.exchange hV he, htw.exchange how.wellFormed he (hbasic _ le_rfl u hu)⟩

/-- What lowers the objective lowers the row, which therefore limits it. -/
theorem Indexed.limited_by_target (h : t.Indexed) (ha : a.isRestricted = true)
    {row : LinearForm α} (hrow : t.row? a = some row) (hart : t.artificial = some row)
    (hentry : Variable.lowest? t.artificialEntries = some entry) :
    entry ∈ row.vars ∧ Scalar.isNeg (row.coeff entry) = true ∧
      ∃ exit, t.tightest? entry = some exit := by
  obtain ⟨-, hmem, hneg⟩ :=
    (mem_artificialEntries_iff hart).1 (Variable.mem_of_lowest? hentry)
  exact ⟨hmem, hneg, h.exists_tightest_of_row ha hrow hmem (Scalar.isNonneg_of_isNeg hneg)⟩

end Tableau

namespace Solver

variable {V : Variable → Prop} {vs : List Variable} {s : Solver α} {c : Constraint α}
variable {u : Tableau α} {n : Nat}

/-- The variable that stands for the equation of `c` in a first phase. -/
def artificialOf (s : Solver α) (c : Constraint α) : Variable :=
  (s.prepare c).1.supply.next .slack

def firstPhase (s : Solver α) (c : Constraint α) : Tableau α :=
  ((s.prepare c).1.beginFirstPhase (s.prepare c).2).tableau

/-- Adding `c` takes a first phase, in which the tableau is `u` after `n` exchanges. -/
structure FirstPhaseState (s : Solver α) (c : Constraint α) (n : Nat) (u : Tableau α) : Prop where
  unsolved : (s.prepare c).1.subject? (s.prepare c).2 = none
  state : after artificialStep n (s.firstPhase c) = some u

/-- The equation is entered in both places. -/
theorem targets_firstPhase : (s.firstPhase c).Targets (s.artificialOf c) := by
  refine ⟨(s.prepare c).2, ?_, rfl⟩
  show (Tableau.insertRow _ (s.artificialOf c) _).row? _ = _
  rw [Tableau.row?_insertRow, if_pos rfl]

theorem Upheld.targets_row (h : s.Upheld V vs) (hc : ∀ v ∈ c.form.vars, v ∈ vs)
    (hu : s.FirstPhaseState c n u)
    (hbasic : ∀ i ≤ n, ∀ w, s.FirstPhaseState c i w → w.isBasic (s.artificialOf c) = true) :
    u.WellFormed ∧ u.Targets (s.artificialOf c) := by
  obtain ⟨hprepared, hvars⟩ := h.prepare hc
  have hbegin := hprepared.beginFirstPhase hvars hu.unsolved
  obtain ⟨horderly, htargets⟩ := hbegin.orderly.targets_after hbegin.books.issued.numbered
    targets_firstPhase hu.state fun i hi w hw => hbasic i hi w ⟨hu.unsolved, hw⟩
  exact ⟨horderly.wellFormed, htargets⟩

end Solver

end Any

/-! ## Once the artificial variable has left -/

namespace Solver

variable {V : Variable → Prop} {vs : List Variable} {s : Solver Rat} {id : ConstraintId}
variable {r : Record Rat} {f : LinearForm Rat} {u : Tableau Rat}

/-- Without a row, the artificial variable is its own expression in the variables without rows. -/
theorem Pending.artificial_alone (h : s.Pending V vs id r f)
    (hk : Tableau.Keeps (fun w => V w ∨ w = s.artificialVariable)
      (s.beginFirstPhase f).tableau u) (hb : u.row? s.artificialVariable = none) :
    ∃ g, u.artificial = some g ∧ g.constant = 0 ∧
      g.terms.entries = [(s.artificialVariable, 1)] := by
  obtain ⟨g, hg⟩ := h.exists_artificial hk
  have hwf := hk.tidy.wellFormed
  have hvar : (var s.artificialVariable : LinearForm Rat).vars = [s.artificialVariable] := rfl
  have hrearranges : g.Rearranges (var s.artificialVariable) := by
    apply hwf.form_rearranges (hk.tidy.trim.artificial hg) (trim_zero_form.addTerm _ 1)
    · exact fun v hv => hwf.artificial_open hg hv
    · intro v hv
      obtain rfl : v = s.artificialVariable := List.mem_singleton.1 (hvar ▸ hv)
      exact hb
    · intro σ hσ
      rw [h.artificial_value hk hg hσ]
      exact (eval_var σ s.artificialVariable).symm
  exact ⟨g, hg, hrearranges.constant, List.perm_singleton.1 hrearranges.terms⟩

theorem Sound.artificial_left (h : s.Sound V vs) {c : Constraint Rat} {n : Nat}
    (hc : ∀ v ∈ c.form.vars, v ∈ vs) (hu : s.FirstPhaseState c n u)
    (hb : u.isBasic (s.artificialOf c) = false) :
    u.artificialStep = .done u ∧ ∃ g, u.artificial = some g ∧ g.constant = 0 ∧
      g.terms.entries = [(s.artificialOf c, 1)] := by
  have hpending := h.prepare hc
  have hV := (hpending.books.issued.next .slack).numbered
  obtain ⟨htidy, -⟩ := hpending.beginFirstPhase
  have hstep : ∀ w, Tableau.Improves _ (s.firstPhase c) w →
      w.artificialStep.Meets (Tableau.Improves _ (s.firstPhase c)) (fun _ => True)
        fun _ _ => True :=
    fun w hw => (hw.tidy.artificialStep_meets hV).mono (fun _ hx => hw.trans hx)
      (fun _ _ => trivial) fun _ _ _ => trivial
  have hkeeps := after_meets hstep htidy.improves_refl hu.state
  obtain ⟨g, hg, hconst, hterms⟩ :=
    hpending.artificial_alone hkeeps.toKeeps (isBasic_eq_false_iff.1 hb)
  refine ⟨?_, g, hg, hconst, hterms⟩
  have hnone : u.artificialEntries = [] := by
    apply List.eq_nil_iff_forall_not_mem.2
    intro v hv
    have hneg := ((mem_artificialEntries hg).1 hv).2
    have hmem := entry_of_mem_vars (mem_vars_of_coeff (ne_of_lt hneg))
    rw [hterms, List.mem_singleton, Prod.mk.injEq] at hmem
    rw [hmem.2] at hneg
    exact absurd hneg (by norm_num)
  unfold artificialStep
  rw [hnone]
  rfl

/-- In a first phase after any requests, and in any arithmetic: as long as the artificial variable
has not left the basis, the artificial objective is its row, so a variable that is to enter occurs
there with a negative coefficient, and some row limits it. In exact arithmetic, from the exchange on
by which the artificial variable leaves, the artificial objective is that variable, with the
coefficient one and the constant zero, and the first phase is over. -/
theorem artificial_objective_exact :
    (∀ {α : Type} [Scalar α] {allowed : Solver α → Request α → Outcome α Reply → Prop}
        {vs : List Variable} {s : Solver α} {c : Constraint α} {n : Nat} {u : Tableau α},
      Reached allowed vs s → (∀ v ∈ c.form.vars, v ∈ vs) → s.FirstPhaseState c n u →
      (∀ i ≤ n, ∀ w, s.FirstPhaseState c i w → w.isBasic (s.artificialOf c) = true) →
      ∃ row, u.row? (s.artificialOf c) = some row ∧ u.artificial = some row ∧
        ∀ entry, Variable.lowest? u.artificialEntries = some entry →
          entry ∈ row.vars ∧ Scalar.isNeg (row.coeff entry) = true ∧
            ∃ exit, u.tightest? entry = some exit) ∧
    ∀ {allowed : Solver Rat → Request Rat → Outcome Rat Reply → Prop} {vs : List Variable}
        {s : Solver Rat} {c : Constraint Rat} {i n : Nat} {w u : Tableau Rat},
      Reached allowed vs s → (∀ v ∈ c.form.vars, v ∈ vs) → s.FirstPhaseState c i w →
      w.isBasic (s.artificialOf c) = false → i ≤ n → s.FirstPhaseState c n u →
      u.artificialStep = .done u ∧ ∃ g, u.artificial = some g ∧ g.constant = 0 ∧
        g.terms.entries = [(s.artificialOf c, 1)] := by
  constructor
  · intro α _ allowed vs s c n u h hc hu hbasic
    obtain ⟨V, hs⟩ := h.upheld
    obtain ⟨hwf, row, hrow, hart⟩ := hs.targets_row hc hu hbasic
    exact ⟨row, hrow, hart, fun _ => hwf.indexed.limited_by_target rfl hrow hart⟩
  · intro allowed vs s c i n w u h hc hw hb hle hu
    obtain ⟨V, hs⟩ := h.sound
    obtain ⟨hdone, hleft⟩ := hs.artificial_left hc hw hb
    -- nothing comes after the exchange by which it leaves
    obtain ⟨m, rfl⟩ := Nat.exists_eq_add_of_le hle
    have hstate := (after_add hw.state m).symm.trans hu.state
    cases m with
    | zero =>
      cases hstate
      exact ⟨hdone, hleft⟩
    | succ m =>
      have hlast : w.artificialStep.next? = none := by
        rw [hdone]
        rfl
      cases (after_eq_none hlast m).symm.trans hstate

/-- A length between 100 and 200 and a width of at most 60 that are to add up to 150. First the gap
below 200 enters for the one above 100, and the artificial variable stays; then the gap below 60
enters for the artificial variable. -/
theorem artificial_objective_of_sum :
    ∃ (c : Constraint Rat) (y : List Variable × Solver Rat) (u w : Tableau Rat),
      replay (fun _ _ _ => true) 9 [.newVariable false, .newVariable true,
        .add (.compare (.var ⟨0, .free⟩) .atLeast (.const 100)),
        .add (.compare (.var ⟨0, .free⟩) .atMost (.const 200)),
        .add (.compare (.var ⟨1, .bounded⟩) .atMost (.const 60))] ([], new) = some y ∧
      y.2.FirstPhaseState c 1 u ∧ u.isBasic (y.2.artificialOf c) = true ∧
      Variable.lowest? u.artificialEntries = some ⟨4, .slack⟩ ∧
      (∃ row, u.row? (y.2.artificialOf c) = some row ∧ u.artificial = some row ∧
        ⟨4, .slack⟩ ∈ row.vars ∧ ∃ exit, u.tightest? ⟨4, .slack⟩ = some exit) ∧
      y.2.FirstPhaseState c 2 w ∧ w.isBasic (y.2.artificialOf c) = false ∧
      ∃ g, w.artificial = some g ∧ g.constant = 0 ∧
        g.terms.entries = [(y.2.artificialOf c, 1)] := by
  let c : Constraint Rat :=
    .compare ((var ⟨0, .free⟩).addTerm ⟨1, .bounded⟩ 1) .equal (.const 150)
  have hrun : (replay (fun _ _ _ => true) 9 [.newVariable false, .newVariable true,
        .add (.compare (.var ⟨0, .free⟩) .atLeast (.const 100)),
        .add (.compare (.var ⟨0, .free⟩) .atMost (.const 200)),
        .add (.compare (.var ⟨1, .bounded⟩) .atMost (.const 60))] ([], new)).any (fun y =>
      decide (y.1 = [⟨0, .free⟩, ⟨1, .bounded⟩]) &&
        decide ((y.2.prepare c).1.subject? (y.2.prepare c).2 = none) &&
        (y.2.firstPhase c).isBasic (y.2.artificialOf c) &&
        (after artificialStep 1 (y.2.firstPhase c)).any (fun u =>
          u.isBasic (y.2.artificialOf c) &&
            decide (Variable.lowest? u.artificialEntries = some ⟨4, .slack⟩)) &&
        (after artificialStep 2 (y.2.firstPhase c)).any fun w =>
          decide (w.isBasic (y.2.artificialOf c) = false)) = true := by
    decide +kernel
  obtain ⟨y, hy, hrest⟩ := (Option.any_eq_true _ _).1 hrun
  rw [Bool.and_eq_true, Bool.and_eq_true, Bool.and_eq_true, Bool.and_eq_true,
    decide_eq_true_eq, decide_eq_true_eq] at hrest
  obtain ⟨⟨⟨⟨hvs, hunsolved⟩, hstart⟩, hfirst⟩, hsecond⟩ := hrest
  obtain ⟨u, hu, hustate⟩ := (Option.any_eq_true _ _).1 hfirst
  obtain ⟨w, hw, hwstate⟩ := (Option.any_eq_true _ _).1 hsecond
  rw [Bool.and_eq_true, decide_eq_true_eq] at hustate
  obtain ⟨hubasic, hentry⟩ := hustate
  have hwbasic := of_decide_eq_true hwstate
  have hreached : Reached (fun _ _ _ => True) y.1 y.2 :=
    Reached.replay (fun _ _ _ _ => trivial) (.start {}) hy
  have hwithin : ∀ v ∈ c.form.vars, v ∈ y.1 := by
    rw [hvs]
    decide +kernel
  have hbasic : ∀ i ≤ 1, ∀ x, y.2.FirstPhaseState c i x →
      x.isBasic (y.2.artificialOf c) = true := by
    intro i hi x hx
    obtain rfl | rfl : i = 0 ∨ i = 1 := by omega
    · cases hx.state
      exact hstart
    · cases hu.symm.trans hx.state
      exact hubasic
  obtain ⟨hany, hexact⟩ := artificial_objective_exact
  obtain ⟨row, hrow, hart, hlimited⟩ := hany hreached hwithin ⟨hunsolved, hu⟩ hbasic
  obtain ⟨hmem, -, hexit⟩ := hlimited _ hentry
  obtain ⟨-, hleft⟩ :=
    hexact hreached hwithin ⟨hunsolved, hw⟩ hwbasic (Nat.le_refl 2) ⟨hunsolved, hw⟩
  exact ⟨c, y, u, w, hy, ⟨hunsolved, hu⟩, hubasic, hentry, ⟨row, hrow, hart, hmem, hexit⟩,
    ⟨hunsolved, hw⟩, hwbasic, hleft⟩

end Solver

end SoftSimplex
