import SoftSimplex.Proofs.Optimality

/-!
# What a refusal proves

A first phase that ends above zero leaves a row that cannot come down: a positive constant, and
nonnegative coefficients on all variables that may rise. The row certifies that the constraint
contradicts the required constraints whose markers it mentions, and only required ones can be
mentioned: the two own variables of another constraint may rise together at no cost, so neither
has a coefficient.
-/

namespace SoftSimplex

open LinearForm

namespace Solver

variable {V : Variable → Prop} {vs : List Variable} {s : Solver Rat} {id : ConstraintId}
variable {r : Record Rat} {f : LinearForm Rat} {u : Tableau Rat}

/-! ## Only required constraints are refused -/

/-- An own variable has its coefficient in the equation, up to the sign of the equation. -/
theorem Pending.coeff_own (h : s.Pending V vs id r f) :
    ∃ k : Rat, k ≠ 0 ∧ ∀ v ∈ r.own, f.coeff v = k * r.residual.coeff v := by
  obtain ⟨k, hk, heval⟩ := h.residual
  refine ⟨k, hk, fun v hv => ?_⟩
  have hpoint := h.stands.point
  have hmoved := (h.books.balancedBut_update_iff h.record hv (s.tableau.point v + 1)).2 hpoint
  have hdiff := heval _ hmoved
  rw [Tableau.eval_update, Tableau.eval_update, heval _ hpoint] at hdiff
  linarith

/-- A constraint that may be missed brings a variable that suits its equation. -/
theorem Pending.required_of_no_subject (h : s.Pending V vs id r f) (hx : s.subject? f = none) :
    r.constraint.isRequired = true := by
  by_contra hsoft
  rw [Bool.not_eq_true] at hsoft
  have hproper := h.books.proper h.record
  have hpivot : ∀ v ∈ r.own, v.isPivotable = true := by
    intro v hv
    have hd := hproper.not_dummy hsoft hv
    unfold Variable.isPivotable
    rcases hproper.fits.role_of_own hv with hr | hr | hr
    · rw [hr]
      rfl
    · rw [hr]
      rfl
    · exact absurd hr hd
  -- no row mentions an own variable yet, so it cannot do harm
  have hopen : ∀ v ∈ r.own, s.admits f v = true := by
    intro v hv
    rw [admits_iff h.stands.tidy.wellFormed.indexed]
    intro b row hrow _ hm
    exact absurd hm (((h.books.separable h.record).nowhere h.stands hv).2 hrow)
  have hnonneg : ∀ v ∈ r.own, 0 ≤ f.coeff v := by
    intro v hv
    by_contra hneg
    rw [not_le] at hneg
    have hno := (subject?_eq_none hx (mem_vars_of_coeff (ne_of_lt hneg))).2 (hpivot v hv) hneg
    rw [hopen v hv] at hno
    cases hno
  obtain ⟨k, hk, hcoeff⟩ := h.coeff_own
  obtain ⟨e, he, hne⟩ := hproper.exists_error hsoft
  have hm := hnonneg r.marker r.marker_mem_own
  have he' := hnonneg e he
  rw [hcoeff _ r.marker_mem_own, hproper.coeff_marker] at hm
  rw [hcoeff _ he, hproper.coeff_error he hne] at he'
  have hzero : k = 0 := by linarith
  exact hk hzero

/-! ## The row that cannot come down -/

/-- The state in which a first phase ends without success. -/
structure Refused (V : Variable → Prop) (s : Solver Rat) (f : LinearForm Rat) (u : Tableau Rat)
    (row : LinearForm Rat) : Prop where
  keeps : Tableau.Keeps (fun w => V w ∨ w = s.artificialVariable) (s.beginFirstPhase f).tableau u
  basic : u.row? s.artificialVariable = some row
  above : 0 < row.constant
  restricted : ∀ v ∈ row.vars, v.isRestricted = true
  rises : ∀ v ∈ row.vars, v.role ≠ .dummy → 0 ≤ row.coeff v

theorem Pending.refused (h : s.Pending V vs id r f) (hx : s.subject? f = none)
    (hs : s.tableau.Feasible)
    (hu : Tableau.Improves (fun w => V w ∨ w = s.artificialVariable)
      (s.beginFirstPhase f).tableau u) (hend : u.artificialEntries = []) {g : LinearForm Rat}
    (hg : u.artificial = some g) (hconst : g.constant ≠ 0) : ∃ row, Refused V s f u row := by
  obtain ⟨-, -, -, hstart⟩ := h.beginFirstPhase
  have hk := hu.toKeeps
  have hwf := hk.tidy.wellFormed
  have hgopen : ∀ v ∈ g.vars, u.row? v = none := fun v hv => hwf.artificial_open hg hv
  cases hb : u.row? s.artificialVariable with
  | none =>
    rw [← h.artificial_point hk hg, Tableau.point_of_nonbasic hb] at hconst
    exact absurd rfl hconst
  | some row =>
    have hopen : ∀ v ∈ row.vars, u.row? v = none := fun v hv => hwf.row_open hb hv
    have hsame := hwf.eval_eq_of_solutions hopen hgopen fun σ hσ => by
      rw [h.artificial_value hk hg hσ, hσ.row hb]
    have hcoeff : ∀ v, row.coeff v = g.coeff v := by
      intro v
      rw [coeff_eq_eval, coeff_eq_eval, hsame, hsame]
    have hconstant : row.constant = g.constant := by
      rw [← eval_at_zero, ← eval_at_zero, hsame]
    have hr : s.artificialVariable.isRestricted = true := rfl
    have hrestricted : ∀ v ∈ row.vars, v.isRestricted = true :=
      fun v hv => hk.freeApart (h.freeApart_beginFirstPhase hx) hb hv hr
    refine ⟨row, hk, hb, ?_, hrestricted, ?_⟩
    · apply lt_of_le_of_ne (hu.feasible (hstart hs) hb hr)
      rw [hconstant]
      exact Ne.symm hconst
    · intro v hv hd
      rw [hcoeff]
      by_contra hneg
      have hmem := (Tableau.mem_artificialEntries hg).2
        ⟨Tableau.mayEnter_of_restricted (hrestricted v hv) hd, not_le.1 hneg⟩
      rw [hend] at hmem
      cases hmem

/-! ## Marker and error rise together -/

def lift (σ : Assignment Rat) (m e : Variable) : Assignment Rat :=
  Function.update (Function.update σ m (σ m + 1)) e (σ e + 1)

theorem eval_lift {σ : Assignment Rat} {m e : Variable} (hne : e ≠ m) (g : LinearForm Rat) :
    g.eval (lift σ m e) = g.eval σ + g.coeff m + g.coeff e := by
  unfold lift
  rw [Tableau.eval_update, Tableau.eval_update, Function.update_of_ne hne]
  ring

/-- An own variable is not in the equation of another record. -/
theorem Books.residual_foreign (h : s.Books V vs) {i j : ConstraintId} {p q : Record Rat}
    (hp : s.record? j = some p) (hq : s.record? i = some q) (hji : j ≠ i) {v : Variable}
    (hv : v ∈ q.own) : p.residual.coeff v = 0 := by
  rw [(h.proper hp).coeff_foreign fun hvp => hji (h.apart hp hq hvp hv)]
  exact coeff_of_not_mem (h.own_foreign hq hp hv)

/-- In its own record a marker makes up for an error, and the others mind neither. -/
theorem Books.balancedBut_lift (h : s.Books V vs) {i : ConstraintId} {q : Record Rat}
    (hq : s.record? i = some q) {e : Variable} (he : e ∈ q.own) (hne : e ≠ q.marker)
    {σ : Assignment Rat} (hσ : s.BalancedBut id σ) : s.BalancedBut id (lift σ q.marker e) := by
  intro j p hj hp
  have hproper := h.proper hp
  rw [hproper.balanced_iff, eval_lift hne, hproper.balanced_iff.1 (hσ j p hj hp)]
  by_cases hji : j = i
  · subst hji
    rw [hq, Option.some.injEq] at hp
    subst hp
    rw [hproper.coeff_marker, hproper.coeff_error he hne]
    norm_num
  · rw [h.residual_foreign hp hq hji q.marker_mem_own, h.residual_foreign hp hq hji he]
    norm_num

/-- Marker and error of a constraint that may be missed can rise together, so what the row gains by
the one it loses by the other. -/
theorem Pending.coeff_marker_add_error (h : s.Pending V vs id r f) {row : LinearForm Rat}
    (hrow : Refused V s f u row) {i : ConstraintId} {q : Record Rat}
    (hi : i ≠ id) (hq : s.record? i = some q) {e : Variable} (he : e ∈ q.own)
    (hne : e ≠ q.marker) : row.coeff q.marker + row.coeff e = 0 := by
  have hm := q.marker_mem_own
  obtain ⟨-, hsolves, -⟩ := h.beginFirstPhase
  obtain ⟨k, -, heval⟩ := h.residual
  have hsol : ∀ τ, u.Solves τ ↔ s.BalancedBut id τ ∧ τ s.artificialVariable = f.eval τ :=
    fun τ => (hrow.keeps.recast.solves τ).trans (hsolves τ)
  have hbase : u.Solves u.point := hrow.keeps.tidy.wellFormed.solves_point
  obtain ⟨hbut, heq⟩ := (hsol u.point).1 hbase
  have hbut' := h.books.balancedBut_lift hq he hne hbut
  have hself : lift u.point q.marker e s.artificialVariable = u.point s.artificialVariable := by
    have hfresh : ∀ w ∈ q.own, s.artificialVariable ≠ w :=
      fun w hw => (h.not_artificial (h.books.own hq w hw)).symm
    unfold lift
    rw [Function.update_of_ne (hfresh e he), Function.update_of_ne (hfresh _ hm)]
  have hmoved : u.Solves (lift u.point q.marker e) := by
    refine (hsol _).2 ⟨hbut', ?_⟩
    rw [hself, heq, heval _ hbut, heval _ hbut', eval_lift hne,
      h.books.residual_foreign h.record hq hi.symm hm,
      h.books.residual_foreign h.record hq hi.symm he, add_zero, add_zero]
  have hvalue : u.point s.artificialVariable = row.eval u.point := hbase.row hrow.basic
  have hlifted := hmoved.row hrow.basic
  rw [hself, eval_lift hne, hvalue] at hlifted
  linarith

/-- No own variable of a constraint that may be missed occurs in the row. -/
theorem Pending.soft_not_mem (h : s.Pending V vs id r f) (hx : s.subject? f = none)
    {row : LinearForm Rat} (hrow : Refused V s f u row) {i : ConstraintId} {q : Record Rat}
    (hq : s.record? i = some q) (hsoft : q.constraint.isRequired = false) {v : Variable}
    (hv : v ∈ q.own) : v ∉ row.vars := by
  have hproper := h.books.proper hq
  have hi : i ≠ id := by
    rintro rfl
    have hreq := h.required_of_no_subject hx
    rw [h.record, Option.some.injEq] at hq
    rw [← hq, hreq] at hsoft
    cases hsoft
  obtain ⟨e, he, hem⟩ := hproper.exists_error hsoft
  have hsum := h.coeff_marker_add_error hrow hi hq he hem
  have hnonneg : ∀ w ∈ q.own, 0 ≤ row.coeff w := by
    intro w hw
    by_cases hmem : w ∈ row.vars
    · exact hrow.rises w hmem (hproper.not_dummy hsoft hw)
    · rw [coeff_of_not_mem hmem]
  have hmarker := hnonneg _ q.marker_mem_own
  have herror := hnonneg _ he
  have hzero : row.coeff v = 0 := by
    by_cases hvm : v = q.marker
    · rw [hvm]
      linarith
    · rw [hproper.eq_error hv hvm he hem]
      linarith
  intro hmem
  exact hrow.keeps.tidy.trim.row hrow.basic v hmem hzero

theorem Pending.required_of_mem (h : s.Pending V vs id r f) (hx : s.subject? f = none)
    {row : LinearForm Rat} (hrow : Refused V s f u row) {i : ConstraintId} {q : Record Rat}
    (hq : s.record? i = some q) (hm : q.marker ∈ row.vars) : q.constraint.isRequired = true := by
  by_contra hsoft
  rw [Bool.not_eq_true] at hsoft
  exact h.soft_not_mem hx hrow hq hsoft q.marker_mem_own hm

/-- The row contradicts the constraint together with the required ones it mentions. -/
theorem Pending.contradiction (h : s.Pending V vs id r f) {row : LinearForm Rat}
    (hrow : Refused V s f u row) {σ : Assignment Rat}
    (hbounded : ∀ v ∈ vs, v.role = .bounded → 0 ≤ σ v) (hself : r.constraint.Holds σ)
    (hothers : ∀ i q, i ≠ id → s.record? i = some q → q.marker ∈ row.vars →
      q.constraint.Holds σ) : False := by
  obtain ⟨-, hsolves, -⟩ := h.beginFirstPhase
  set τ := s.complete vs σ with hτ
  obtain ⟨hbut, hbal⟩ := (balanced_iff_but h.record).1 (h.books.balanced_complete σ)
  have hfresh := h.books.issued.fresh .slack
  have hzero : τ s.artificialVariable = 0 := by
    have hother : ∀ i q, s.record? i = some q → s.artificialVariable ∉ q.own :=
      fun i q hq hv => hfresh (h.books.own hq _ hv)
    rw [hτ, complete_other hother, if_neg]
    exact fun hv => hfresh (h.books.clients _ hv).1
  have hsol : u.Solves τ := by
    rw [hrow.keeps.recast.solves, hsolves]
    exact ⟨hbut, hzero.trans ((h.equation hbut).2 hbal).symm⟩
  have hle : row.constant ≤ row.eval τ := by
    apply constant_le_eval
    intro v hv
    obtain ⟨hnn, hdummy⟩ := h.books.complete_nonneg hbounded (hrow.restricted v hv)
      fun i q hq hvq hreq => by
        by_cases hi : i = id
        · subst hi
          rw [h.record, Option.some.injEq] at hq
          exact hq ▸ hself
        · apply hothers i q hi hq
          rw [← (h.books.proper hq).eq_marker hreq hvq]
          exact hv
    by_cases hd : v.role = .dummy
    · rw [hτ, hdummy hd, mul_zero]
    · exact mul_nonneg (hrow.rises v hv hd) hnn
  have hval := hsol.row hrow.basic
  rw [hzero] at hval
  have habove := hrow.above
  linarith

/-! ## The list of conflicts -/

theorem Pending.mem_conflicts (h : s.Pending V vs id r f) {row : LinearForm Rat}
    (hrow : Refused V s f u row) {i : ConstraintId} :
    i ∈ (s.afterFirstPhase f u).conflicts id s.artificialVariable ↔
      i ≠ id ∧ ∃ q, s.record? i = some q ∧ q.marker ∈ row.vars := by
  have hb : (s.afterFirstPhase f u).tableau.row? s.artificialVariable = some row := hrow.basic
  have hmarkers : (s.afterFirstPhase f u).markers = s.markers := rfl
  unfold conflicts
  rw [hb, hmarkers, List.mem_mergeSort, List.mem_eraseDups, List.mem_filter, List.mem_filterMap]
  simp only [Option.map_some, Option.getD_some, List.mem_cons, bne_iff_ne]
  constructor
  · rintro ⟨⟨m, hm, hi⟩, hne⟩
    obtain ⟨q, hq, rfl⟩ := h.books.marked.1 hi
    refine ⟨hne, q, hq, hm.resolve_left ?_⟩
    exact h.not_artificial (h.books.own hq _ q.marker_mem_own)
  · rintro ⟨hne, q, hq, hm⟩
    exact ⟨⟨q.marker, .inr hm, h.books.marked.2 ⟨q, hq, rfl⟩⟩, hne⟩

theorem refusal_eq_conflict {a : Variable} {ids : List ConstraintId}
    (h : Failure.conflict ids = s.refusal id a) : ids = s.conflicts id a := by
  unfold refusal at h
  split at h
  · exact Failure.conflict.inj h
  · cases h

theorem nodup_eraseDups : ∀ ids : List ConstraintId, ids.eraseDups.Nodup
  | [] => by simp
  | i :: ids => by
    rw [List.eraseDups_cons, List.nodup_cons]
    exact ⟨by simp [List.mem_eraseDups], nodup_eraseDups _⟩
termination_by ids => ids.length
decreasing_by
  exact Nat.lt_succ_of_le (List.length_filter_le _ _)

/-- The conflicts come in the order of their numbers, each once. -/
theorem conflicts_increasing (s : Solver Rat) (id : ConstraintId) (a : Variable) :
    (s.conflicts id a).Pairwise fun i j => i.index < j.index := by
  unfold conflicts
  set ids := ((a :: ((s.tableau.row? a).map LinearForm.vars).getD []).filterMap
    s.markers.get?).filter (· != id) with hids
  have hsorted : (ids.eraseDups.mergeSort fun i j => decide (i.index ≤ j.index)).Pairwise
      fun i j => decide (i.index ≤ j.index) = true := by
    apply List.pairwise_mergeSort
    · intro i j k hij hjk
      simp only [decide_eq_true_eq] at hij hjk ⊢
      omega
    · intro i j
      simp only [Bool.or_eq_true, decide_eq_true_eq]
      omega
  have hnodup : (ids.eraseDups.mergeSort fun i j => decide (i.index ≤ j.index)).Nodup :=
    (List.mergeSort_perm _ _).nodup_iff.2 (nodup_eraseDups ids)
  apply hsorted.imp₂ _ hnodup
  intro i j hle hne
  have hindex : i.index ≠ j.index := fun he => hne (congrArg ConstraintId.mk he)
  simp only [decide_eq_true_eq] at hle
  omega

/-! ## Failing to add -/

/-- A pending constraint fails for an unbounded first phase, or is refused with a row that cannot
come down. Only the constraint itself leaves the books. -/
theorem Pending.bringIn_error (h : s.Pending V vs id r f) (hs : s.tableau.Feasible) {n : Nat}
    {o : Outcome Rat Unit} (ho : s.bringIn n id f = some o) {e : Failure}
    (he : o.answer = .error e) (hne : e ≠ .unbounded) :
    s.subject? f = none ∧ o.solver.records = s.records.erase id ∧ ∃ u row, Refused V s f u row ∧
      e = (s.afterFirstPhase f u).refusal id s.artificialVariable := by
  obtain ⟨hx, hrecords, p, hp, hending⟩ := h.bringIn_failed ho he
  obtain ⟨htidy, -⟩ := h.beginFirstPhase
  have hmeets := htidy.minimizeArtificial_meets (h.books.issued.next .slack).numbered hp
  unfold Pass.Meets at hmeets
  rcases hending with hend | ⟨hend, rfl, g, hg, hzero⟩
  · rw [hend] at hmeets
    exact absurd hmeets.2 hne
  · rw [hend] at hmeets
    obtain ⟨himp, hdone⟩ := hmeets
    obtain ⟨row, hrow⟩ := h.refused hx hs himp hdone hg hzero
    exact ⟨hx, hrecords, p.tableau, row, hrow, rfl⟩

theorem Sound.add_error (h : s.Sound V vs) (hf : s.tableau.Feasible) {c : Constraint Rat}
    (hc : ∀ v ∈ c.form.vars, v ∈ vs) {n : Nat} {o : Outcome Rat ConstraintId}
    (ho : s.add n c = some o) {e : Failure} (he : o.answer = .error e) (hne : e ≠ .unbounded) :
    (s.prepare c).1.subject? (s.prepare c).2 = none ∧
      o.solver.records = (s.prepare c).1.records.erase ⟨s.nextId⟩ ∧
      ∃ u row, Refused (fun v => V v ∨ v ∈ (Auxiliaries.draw s.supply c).1.own) (s.prepare c).1
          (s.prepare c).2 u row ∧
        e = ((s.prepare c).1.afterFirstPhase (s.prepare c).2 u).refusal ⟨s.nextId⟩
          (s.prepare c).1.artificialVariable := by
  have hpending := h.prepare hc
  obtain ⟨q, hq, ho⟩ := add_cases ho
  obtain ⟨W, hbrought, -⟩ := hpending.bringIn hq
  obtain ⟨-, -, hrecords, hanswer⟩ := settle_sound ho hbrought
  have hfeasible : (s.prepare c).1.tableau.Feasible :=
    hf.of_rows fun b => row?_addCosts _ _ _ _
  have hqe : q.answer = .error e := by
    rcases hanswer with hsame | hunbounded
    · exact error_of_map (hsame.symm.trans he)
    · rw [he, Except.error.injEq] at hunbounded
      exact absurd hunbounded hne
  obtain ⟨hx, herase, hrefused⟩ := hpending.bringIn_error hfeasible hq hqe hne
  exact ⟨hx, hrecords.trans herase, hrefused⟩

/-- A constraint is refused with reason: it is required, it contradicts the required constraints,
and the conflicts that are named are required constraints, still there, in the order of their
numbers, which it contradicts already. -/
theorem add_refused (h : Reached (fun _ _ o => o.Repaired) vs s) {c : Constraint Rat}
    (hc : ∀ v ∈ c.form.vars, v ∈ vs) {n : Nat} {o : Outcome Rat ConstraintId}
    (ho : s.add n c = some o) {e : Failure} (he : o.answer = .error e)
    (hrefused : e = .unsatisfiable ∨ ∃ ids, e = .conflict ids) :
    c.isRequired = true ∧
    (∀ σ, (∀ v ∈ vs, v.role = .bounded → 0 ≤ σ v) → ¬(c.Holds σ ∧ s.RequiredHold σ)) ∧
    ∀ ids, e = .conflict ids →
      ids.Pairwise (fun i j => i.index < j.index) ∧
      (∀ i ∈ ids, i ≠ ⟨s.nextId⟩ ∧ ∃ d, o.solver.constraint? i = some d ∧ d.isRequired = true) ∧
      ∀ σ, (∀ v ∈ vs, v.role = .bounded → 0 ≤ σ v) →
        ¬(c.Holds σ ∧ ∀ i ∈ ids, ∀ d, o.solver.constraint? i = some d → d.Holds σ) := by
  obtain ⟨V, hsound⟩ := h.sound
  have hne : e ≠ .unbounded := by
    rintro rfl
    rcases hrefused with hu | ⟨ids, hu⟩ <;> cases hu
  have hfeasible := h.feasible fun _ _ _ hok => hok
  have hpending := hsound.prepare hc
  obtain ⟨hx, hrecords, u, row, hrow, hrefusal⟩ := hsound.add_error hfeasible hc ho he hne
  refine ⟨hpending.required_of_no_subject hx, ?_, ?_⟩
  · rintro σ hbounded ⟨hself, hold⟩
    apply hpending.contradiction hrow hbounded hself
    intro i p hi hp hm
    have hreq := hpending.required_of_mem hx hrow hp hm
    rcases (record?_insert_iff rfl).1 hp with ⟨hid, -⟩ | ⟨-, hp⟩
    · exact absurd hid hi
    · exact requiredHold_iff.1 hold i p hp hreq
  · rintro ids rfl
    have hids := refusal_eq_conflict hrefusal
    have hmem : ∀ i, i ∈ ids ↔ i ≠ ⟨s.nextId⟩ ∧
        ∃ p, (s.prepare c).1.record? i = some p ∧ p.marker ∈ row.vars := by
      intro i
      rw [hids]
      exact hpending.mem_conflicts hrow
    have hstill : ∀ {i p}, i ≠ ⟨s.nextId⟩ → (s.prepare c).1.record? i = some p →
        o.solver.constraint? i = some p.constraint := by
      intro i p hi hp
      unfold constraint?
      rw [(record?_erase_iff hrecords).2 ⟨hi, hp⟩]
      rfl
    refine ⟨hids ▸ conflicts_increasing _ _ _, ?_, ?_⟩
    · intro i hi
      obtain ⟨hi, p, hp, hm⟩ := (hmem i).1 hi
      exact ⟨hi, p.constraint, hstill hi hp, hpending.required_of_mem hx hrow hp hm⟩
    · rintro σ hbounded ⟨hself, hlisted⟩
      apply hpending.contradiction hrow hbounded hself
      intro i p hi hp hm
      exact hlisted i ((hmem i).2 ⟨hi, p, hp, hm⟩) p.constraint (hstill hi hp)

/-- Two equalities that cannot both hold: the second is refused, and the first is named. -/
theorem add_refused_of_two_values :
    ∃ y o, replay (fun _ _ o => o.isRepaired) 9
      [.newVariable false, .add (.compare (.var ⟨0, .free⟩) .equal (.const 5))]
      ([], new) = some y ∧ y.2.add 9 (.compare (.var ⟨0, .free⟩) .equal (.const 6)) = some o ∧
      o.answer = .error (.conflict [⟨0⟩]) ∧
      ∀ σ, (∀ v ∈ y.1, v.role = .bounded → 0 ≤ σ v) →
        ¬((Constraint.compare (.var ⟨0, .free⟩) .equal (.const 6)).Holds σ ∧
          ∀ i ∈ [(⟨0⟩ : ConstraintId)], ∀ d, o.solver.constraint? i = some d → d.Holds σ) := by
  have hrun : (replay (fun _ _ o => o.isRepaired) 9
      [.newVariable false, .add (.compare (.var ⟨0, .free⟩) .equal (.const 5))] ([], new)).any
      (fun y => decide (y.1 = [⟨0, .free⟩]) &&
        (y.2.add 9 (.compare (.var ⟨0, .free⟩) .equal (.const 6))).any fun o =>
        decide (o.answer = .error (.conflict [⟨0⟩]))) = true := by
    decide +kernel
  obtain ⟨y, hy, hrest⟩ := (Option.any_eq_true _ _).1 hrun
  rw [Bool.and_eq_true] at hrest
  have hvs := of_decide_eq_true hrest.1
  obtain ⟨o, ho, hcheck⟩ := (Option.any_eq_true _ _).1 hrest.2
  have hanswer := of_decide_eq_true hcheck
  have hreached : Reached (fun _ _ o => o.Repaired) y.1 y.2 :=
    Reached.replay (fun _ _ _ htest => Outcome.repaired_of_isRepaired htest) (.start {}) hy
  have hwithin : ∀ v ∈ (Constraint.compare (LinearForm.var (⟨0, .free⟩ : Variable)) .equal
      (.const (6 : Rat))).form.vars, v ∈ y.1 := by
    rw [hvs]
    decide +kernel
  refine ⟨y, o, hy, ho, hanswer, ?_⟩
  exact ((add_refused hreached hwithin ho hanswer (.inr ⟨_, rfl⟩)).2.2 _ rfl).2.2

end Solver

end SoftSimplex
