import SoftSimplex.Proofs.Operations
import SoftSimplex.Proofs.Preparation

/-!
# Bringing a constraint in

The equation of a pending constraint is solved for a variable that suits, or goes through a first
phase. Either way a sound solver comes out: with the constraint, or, if the first phase does not
reach zero, without it. The artificial variable leaves nothing behind.
-/

namespace SoftSimplex

open LinearForm

namespace LinearForm

theorem mem_of_successor? {α : Type} {f : LinearForm α} {v : Variable} (h : f.successor? = some v) :
    v ∈ f.vars := by
  unfold successor? at h
  rcases Option.or_eq_some_iff.1 h with hp | ⟨-, hl⟩
  · exact List.mem_of_find?_eq_some hp
  · exact Variable.mem_of_lowest? hl

theorem vars_of_successor?_eq_none {f : LinearForm Rat} (h : f.successor? = none) :
    f.vars = [] := by
  unfold successor? at h
  rw [Option.or_eq_none_iff] at h
  exact Variable.lowest?_eq_none.1 h.2

end LinearForm

namespace Solver

/-! ## Solving for a variable that suits -/

section Subject

variable {α : Type} [Scalar α] {s : Solver α} {f : LinearForm α} {v : Variable}

/-- A free variable of the equation is taken if there is one. -/
theorem subject?_free (hx : s.subject? f = some v) :
    v ∈ f.vars ∧ (v.isRestricted = true → ∀ w ∈ f.vars, w.isRestricted = true) := by
  unfold subject? at hx
  obtain ⟨e, he, rfl⟩ := Option.map_eq_some_iff.1 hx
  rcases Option.or_eq_some_iff.1 he with hfree | ⟨hnone, he⟩
  · refine ⟨List.mem_map_of_mem (List.mem_of_find?_eq_some hfree), fun hr => ?_⟩
    have hrole := List.find?_some hfree
    simp only [beq_iff_eq] at hrole
    exact absurd hrole (Variable.isRestricted_iff.1 hr)
  · have hmem : e ∈ f.terms.entries := by
      rcases Option.or_eq_some_iff.1 he with hc | ⟨-, ho⟩
      · exact List.mem_of_find?_eq_some hc
      · exact List.mem_of_find?_eq_some ho
    refine ⟨List.mem_map_of_mem hmem, fun _ w hw => ?_⟩
    obtain ⟨e', he', rfl⟩ := List.mem_map.1 hw
    exact Variable.isRestricted_iff.2 fun hrole =>
      List.find?_eq_none.1 hnone e' he' (beq_iff_eq.2 hrole)

/-- A restricted variable is taken only if that does the rows no harm and its coefficient or the
constant ensures its own value. -/
theorem subject?_suits (hx : s.subject? f = some v) (hr : v.isRestricted = true) :
    s.admits f v = true ∧
      (Scalar.isNeg (f.coeff v) = true ∨ Scalar.negligible f.constant = true) := by
  unfold subject? at hx
  obtain ⟨e, he, rfl⟩ := Option.map_eq_some_iff.1 hx
  rcases Option.or_eq_some_iff.1 he with hfree | ⟨-, he⟩
  · have hrole := List.find?_some hfree
    simp only [beq_iff_eq] at hrole
    exact absurd hrole (Variable.isRestricted_iff.1 hr)
  · rcases Option.or_eq_some_iff.1 he with hclient | ⟨-, hown⟩
    · have hsuit := List.find?_some hclient
      unfold suitsClient at hsuit
      rw [Bool.and_eq_true, Bool.and_eq_true, Bool.or_eq_true] at hsuit
      rw [coeff_of_entry (List.mem_of_find?_eq_some hclient)]
      exact ⟨hsuit.2, hsuit.1.2⟩
    · have hsuit := List.find?_some hown
      unfold suitsOwn at hsuit
      rw [Bool.and_eq_true, Bool.and_eq_true] at hsuit
      rw [coeff_of_entry (List.mem_of_find?_eq_some hown)]
      exact ⟨hsuit.2, .inl hsuit.1.2⟩

end Subject

variable {V : Variable → Prop} {vs : List Variable} {s : Solver Rat} {id : ConstraintId}
variable {r : Record Rat} {f : LinearForm Rat} {v : Variable}

/-- No restricted row becomes negative when the equation is solved for `v`. -/
theorem admits_iff (h : s.tableau.Indexed) :
    s.admits f v = true ↔ ∀ b row, s.tableau.row? b = some row → b.isRestricted = true →
      v ∈ row.vars → 0 ≤ row.constant + row.coeff v * (-f.constant / f.coeff v) := by
  unfold admits
  simp only [List.all_eq_true, Bool.or_eq_true, Bool.not_eq_true', Option.all_eq_true,
    Scalar.ge_rat, Scalar.tolerance_rat, neg_zero]
  constructor
  · intro hall b row hrow hb hv
    rcases hall b (h.mem_column.2 ⟨row, hrow, hv⟩) with hfree | hrows
    · rw [hb] at hfree
      cases hfree
    · exact hrows row hrow
  · intro hall b hb
    obtain ⟨row, hrow, hv⟩ := h.mem_column.1 hb
    cases hr : b.isRestricted with
    | false => exact .inl rfl
    | true =>
      refine .inr fun row' hrow' => ?_
      rw [hrow] at hrow'
      cases hrow'
      exact hall b row hrow hr hv

/-- A free variable is taken if there is one, else one whose value and whose effect on the
restricted rows do no harm. -/
theorem subject?_eq_some (hx : s.subject? f = some v) :
    v ∈ f.vars ∧ (v.role = .free ∨ (∀ w ∈ f.vars, w.role ≠ .free) ∧
      s.admits f v = true ∧ (f.coeff v < 0 ∨ f.constant = 0)) := by
  obtain ⟨hmem, hfree⟩ := subject?_free hx
  refine ⟨hmem, ?_⟩
  cases hr : v.isRestricted with
  | false =>
    left
    by_contra hrole
    rw [Variable.isRestricted_iff.2 hrole] at hr
    cases hr
  | true =>
    obtain ⟨hadmits, hvalue⟩ := subject?_suits hx hr
    rw [Scalar.isNeg_rat, Scalar.negligible_rat] at hvalue
    exact .inr ⟨fun w hw => Variable.isRestricted_iff.1 (hfree hr w hw), hadmits, hvalue⟩

/-- Where no variable suits, there is no free one, and no slack or error that could rise. -/
theorem subject?_eq_none (hx : s.subject? f = none) (hv : v ∈ f.vars) :
    v.isRestricted = true ∧
      (v.isPivotable = true → f.coeff v < 0 → s.admits f v = false) := by
  unfold subject? at hx
  simp only [Option.map_eq_none_iff, Option.or_eq_none_iff, List.find?_eq_none] at hx
  have hfree := hx.1 _ (entry_of_mem_vars hv)
  have hown := hx.2.2 _ (entry_of_mem_vars hv)
  refine ⟨Variable.isRestricted_iff.2 (by simpa using hfree), fun hp hneg => ?_⟩
  unfold suitsOwn at hown
  simpa [hp, hneg] using hown

/-- The solved equation is demanded on top of what was. -/
theorem Pending.insertSolved (h : s.Pending V vs id r f) (hx : s.subject? f = some v) :
    (s.insertSolved v f).Sound V vs ∧
      (s.tableau.Feasible → (s.insertSolved v f).tableau.Feasible) := by
  obtain ⟨hmem, hsuit⟩ := subject?_eq_some hx
  have hwf := h.stands.tidy.wellFormed
  have hcoeff := h.trim v hmem
  constructor
  · refine ⟨h.books.of_frame rfl rfl rfl rfl, ?_⟩
    apply (h.stands.insertSolved h.books.issued.numbered h.trim hmem h.vars ?_).congr
    · intro σ
      rw [balanced_iff_but (s := s.insertSolved v f) h.record]
      constructor
      · rintro ⟨hbut, hzero⟩
        exact ⟨hbut, (h.equation hbut).1 hzero⟩
      · rintro ⟨hbut, hself⟩
        exact ⟨hbut, (h.equation hbut).2 hself⟩
    · exact fun σ => rfl
    · intro hr w hw
      rcases hsuit with hfree | ⟨hnone, -⟩
      · exact absurd hfree (Variable.isRestricted_iff.1 hr)
      · exact Variable.isRestricted_iff.2 (hnone w hw)
  · intro hf b g hg hb
    have hrow : (s.insertSolved v f).tableau.row? b = if b = v then some (f.isolate v) else
        (s.tableau.substitute v (f.isolate v)).row? b := Tableau.row?_insertRow _ _ _ _
    have hsolved : (f.isolate v).constant = -f.constant / f.coeff v := by
      rw [constant_isolate hmem]
      ring
    rw [hrow] at hg
    split at hg
    · next hbv =>
      subst hbv
      cases hg
      rw [hsolved]
      rcases hsuit with hfree | ⟨-, -, hneg | hzero⟩
      · exact absurd hfree (Variable.isRestricted_iff.1 hb)
      · exact div_nonneg_of_nonpos (by linarith [h.nonneg]) (le_of_lt hneg)
      · rw [hzero]
        simp
    · rw [hwf.indexed.row?_substitute, Option.map_eq_some_iff] at hg
      obtain ⟨row, hrow, rfl⟩ := hg
      rw [constant_substitute, hsolved]
      by_cases hm : v ∈ row.vars
      · rcases hsuit with hfree | ⟨-, hopen, -⟩
        · have hv := h.stands.freeApart hrow hm hb
          exact absurd hfree (Variable.isRestricted_iff.1 hv)
        · have hnn := (admits_iff hwf.indexed).1 hopen b row hrow hb hm
          linarith
      · rw [coeff_of_not_mem hm, mul_zero, add_zero]
        exact hf hrow hb

end Solver

/-! ## The artificial variable -/

namespace Tableau

section Artificial

variable {V : Variable → Prop} {P : Assignment Rat → Prop} {C : Assignment Rat → Rat}
variable {t t' : Tableau Rat} {f : LinearForm Rat} {a : Variable}

variable (hV : Numbered V) (ha : V a) (hP : ∀ σ k, P (Function.update σ a k) ↔ P σ)
  (hC : ∀ σ k, C (Function.update σ a k) = C σ) (hf : a ∉ f.vars)

include hV ha hP hC hf

/-- Without a row, the artificial variable is zero once its column is gone, and so is the
equation. -/
theorem Stands.dismiss_nonbasic (h : t.Stands V (fun σ => P σ ∧ σ a = f.eval σ) C)
    (hb : t.row? a = none) : (t.removeColumn a).Stands V (fun σ => P σ ∧ f.eval σ = 0) C := by
  apply (h.removeColumn hV ha hb hC).congr _ fun _ => rfl
  intro σ
  rw [hP, Function.update_self, eval_update_of_not_mem hf]
  exact and_congr_right' eq_comm

/-- The row of the artificial variable says that it is zero, and can go with it. -/
theorem Stands.dismiss_zero (h : t.Stands V (fun σ => P σ ∧ σ a = f.eval σ) C)
    {row : LinearForm Rat} (hb : t.row? a = some row) (hvars : row.vars = [])
    (hzero : row.constant = 0) :
    ((t.removeRow a).removeColumn a).Stands V (fun σ => P σ ∧ f.eval σ = 0) C := by
  have hgone := h.removeRow hb hC
  apply (hgone.removeColumn hV ha (row?_removeRow_self t a) hC).congr _ fun _ => rfl
  intro σ
  -- the row forces the value zero on whatever value is tried
  have hval : ∀ k, t.Solves (Function.update σ a k) → k = 0 := by
    intro k hk
    have hrow := hk.row hb
    have heval : row.eval (Function.update σ a k) = row.eval fun _ => 0 :=
      eval_congr _ _ fun v hv => by
        rw [hvars] at hv
        cases hv
    rw [Function.update_self, heval, eval_at_zero, hzero] at hrow
    exact hrow
  simp only [Function.update_idem]
  constructor
  · rintro ⟨k, hk⟩
    have hk0 := hval k ((h.solves _).2 hk)
    rw [hP, Function.update_self, eval_update_of_not_mem hf, hk0] at hk
    exact ⟨hk.1, hk.2.symm⟩
  · rintro ⟨hPσ, hzero⟩
    refine ⟨0, (hP σ 0).2 hPσ, ?_⟩
    rw [Function.update_self, eval_update_of_not_mem hf, hzero]

/-- Forgetting the artificial variable gives the equation up, or leaves it behind. -/
theorem Stands.discard (h : t.Stands V (fun σ => P σ ∧ σ a = f.eval σ) C) :
    (t.discard a).Releases V P (fun σ => f.eval σ = 0) C := by
  unfold Tableau.discard
  cases hb : t.row? a with
  | none =>
    left
    rw [removeRow_of_nonbasic hb]
    exact h.dismiss_nonbasic hV ha hP hC hf hb
  | some row =>
    right
    have hgone := h.removeRow hb hC
    apply (hgone.removeColumn hV ha (row?_removeRow_self t a) hC).congr _ fun _ => rfl
    intro σ
    simp only [Function.update_idem]
    constructor
    · rintro ⟨k, hk, -⟩
      exact (hP σ k).1 hk
    · intro hPσ
      refine ⟨f.eval σ, (hP σ _).2 hPσ, ?_⟩
      rw [Function.update_self, eval_update_of_not_mem hf]

end Artificial

theorem Releases.congr {V : Variable → Prop} {P B B' : Assignment Rat → Prop}
    {C : Assignment Rat → Rat} {t : Tableau Rat} (h : t.Releases V P B C)
    (hB : ∀ σ, P σ → (B σ ↔ B' σ)) : t.Releases V P B' C :=
  h.imp_left fun h => h.congr (fun σ => and_congr_right (hB σ)) fun _ => rfl

end Tableau

namespace Solver

variable {V : Variable → Prop} {vs : List Variable} {s : Solver Rat} {id : ConstraintId}
variable {r : Record Rat} {f : LinearForm Rat} {v : Variable} {u : Tableau Rat}

def artificialVariable (s : Solver Rat) : Variable := s.supply.next .slack

theorem Pending.not_artificial (h : s.Pending V vs id r f) (hv : V v) :
    v ≠ s.artificialVariable := by
  rintro rfl
  exact h.books.issued.fresh .slack hv

/-- The first phase begins with the equation as row and as objective. -/
theorem Pending.beginFirstPhase (h : s.Pending V vs id r f) :
    (s.beginFirstPhase f).tableau.Tidy (fun w => V w ∨ w = s.artificialVariable) ∧
      (∀ σ, (s.beginFirstPhase f).tableau.Solves σ ↔
        s.BalancedBut id σ ∧ σ s.artificialVariable = f.eval σ) ∧
      (s.beginFirstPhase f).tableau.Measures s.penalty ∧
      (s.tableau.Feasible → (s.beginFirstPhase f).tableau.Feasible) := by
  have habsent := h.stands.tidy.within.absent (h.books.issued.fresh .slack)
  have hvars : ∀ w ∈ f.vars, (V w ∨ w = s.artificialVariable) ∧ w ≠ s.artificialVariable ∧
      s.tableau.row? w = none := by
    intro w hw
    obtain ⟨hV, hrow⟩ := h.vars w hw
    exact ⟨.inl hV, h.not_artificial hV, hrow⟩
  have htidy := (h.stands.tidy.mono (W := fun w => V w ∨ w = s.artificialVariable)
    fun _ hv => .inl hv).insertRow habsent (.inr rfl) h.trim hvars
  have hrow : ∀ w ∈ f.vars, (s.tableau.insertRow s.artificialVariable f).row? w = none := by
    intro w hw
    rw [Tableau.row?_insertRow, if_neg (hvars w hw).2.1]
    exact (hvars w hw).2.2
  refine ⟨?_, ?_, ?_, ?_⟩
  · apply htidy.withArtificial
    intro g hg
    cases hg
    exact ⟨h.trim, fun w hw => ⟨(hvars w hw).1, hrow w hw⟩⟩
  · intro σ
    exact (Tableau.solves_insertRow habsent.nonbasic).trans (and_congr_left' (h.stands.solves σ))
  · exact h.stands.measures.insertRow habsent.nonbasic f
  · intro hf
    exact hf.insertRow h.nonneg

/-- An equation that no variable suits has no free variable. -/
theorem Pending.freeApart_beginFirstPhase (h : s.Pending V vs id r f) (hx : s.subject? f = none) :
    (s.beginFirstPhase f).tableau.FreeApart := by
  apply (h.stands.freeApart.insertRow fun _ w hw => (subject?_eq_none hx hw).1).of_rows
  exact fun _ => rfl

/-- The first phase may end in any basis, but it still stands for the other records and for what
the artificial variable is. -/
theorem Pending.opened (h : s.Pending V vs id r f) (hx : s.subject? f = none)
    (hk : Tableau.Keeps (fun w => V w ∨ w = s.artificialVariable)
      (s.beginFirstPhase f).tableau u) :
    u.endFirstPhase.Stands (fun w => V w ∨ w = s.artificialVariable)
      (fun σ => s.BalancedBut id σ ∧ σ s.artificialVariable = f.eval σ) s.penalty := by
  obtain ⟨-, hsolves, hmeasures, -⟩ := h.beginFirstPhase
  refine ⟨?_, hk.freeApart (h.freeApart_beginFirstPhase hx), rfl, fun σ => ?_, ?_⟩
  · apply hk.tidy.withArtificial
    intro g hg
    cases hg
  · exact (hk.recast.solves σ).trans (hsolves σ)
  · have hu : u.Measures s.penalty := hmeasures.recast hk.recast
    exact hu

theorem Pending.artificial_map (h : s.Pending V vs id r f)
    (hk : Tableau.Keeps (fun w => V w ∨ w = s.artificialVariable)
      (s.beginFirstPhase f).tableau u) {σ : Assignment Rat} (hσ : u.Solves σ) :
    u.artificial.map (·.eval σ) = some (σ s.artificialVariable) := by
  obtain ⟨-, hsolves, -⟩ := h.beginFirstPhase
  have hσ := (hk.recast.solves σ).1 hσ
  rw [hk.recast.artificial σ hσ, ((hsolves σ).1 hσ).2]
  rfl

/-- There is an artificial objective as long as the first phase lasts. -/
theorem Pending.exists_artificial (h : s.Pending V vs id r f)
    (hk : Tableau.Keeps (fun w => V w ∨ w = s.artificialVariable)
      (s.beginFirstPhase f).tableau u) : ∃ g, u.artificial = some g := by
  have hpoint := h.artificial_map hk hk.tidy.wellFormed.solves_point
  obtain ⟨g, hg, -⟩ := Option.map_eq_some_iff.1 hpoint
  exact ⟨g, hg⟩

/-- The artificial objective remains the artificial variable, told in the variables without
rows. -/
theorem Pending.artificial_value (h : s.Pending V vs id r f)
    (hk : Tableau.Keeps (fun w => V w ∨ w = s.artificialVariable)
      (s.beginFirstPhase f).tableau u) {g : LinearForm Rat} (hg : u.artificial = some g)
    {σ : Assignment Rat} (hσ : u.Solves σ) : g.eval σ = σ s.artificialVariable := by
  have hmap := h.artificial_map hk hσ
  rw [hg, Option.map_some, Option.some.injEq] at hmap
  exact hmap

theorem Pending.artificial_point (h : s.Pending V vs id r f)
    (hk : Tableau.Keeps (fun w => V w ∨ w = s.artificialVariable)
      (s.beginFirstPhase f).tableau u) {g : LinearForm Rat} (hg : u.artificial = some g) :
    u.point s.artificialVariable = g.constant := by
  have hwf := hk.tidy.wellFormed
  rw [← h.artificial_value hk hg hwf.solves_point]
  exact Tableau.eval_point fun v hv => hwf.artificial_open hg hv

/-- Nothing in the books depends on the artificial variable. -/
theorem Pending.artificial_ignored (h : s.Pending V vs id r f) :
    (∀ σ k, s.BalancedBut id (Function.update σ s.artificialVariable k) ↔ s.BalancedBut id σ) ∧
      (∀ σ k, s.penalty (Function.update σ s.artificialVariable k) = s.penalty σ) ∧
      s.artificialVariable ∉ f.vars := by
  have hfresh := h.books.issued.fresh .slack
  refine ⟨fun σ k => ?_, fun σ k => ?_, fun hm => hfresh (h.vars _ hm).1⟩
  · unfold BalancedBut
    apply forall₃_congr
    intro i q hi
    apply forall_congr'
    intro hq
    apply (h.books.proper hq).balanced_update_foreign
    · exact fun hv => hfresh (h.books.own hq _ hv)
    · exact fun hv => hfresh (h.books.clients _ (h.books.forms hq _ hv)).1
  · apply penalty_update
    exact fun i q hq hv => hfresh (h.books.own hq _ hv)

/-! ## The end of the first phase -/

/-- The solver at the end of a first phase. -/
def afterFirstPhase (s : Solver Rat) (f : LinearForm Rat) (u : Tableau Rat) : Solver Rat :=
  { s.beginFirstPhase f with tableau := u.endFirstPhase }

/-- Without the artificial variable the tableau stands for the other records, and perhaps still for
the new one. -/
theorem Pending.discarded (h : s.Pending V vs id r f) (hx : s.subject? f = none)
    (hk : Tableau.Keeps (fun w => V w ∨ w = s.artificialVariable)
      (s.beginFirstPhase f).tableau u) :
    (u.endFirstPhase.discard s.artificialVariable).Releases
      (fun w => V w ∨ w = s.artificialVariable) (s.BalancedBut id) r.Balanced s.penalty := by
  obtain ⟨hP, hC, hf⟩ := h.artificial_ignored
  have hgone := (h.opened hx hk).discard (h.books.issued.next .slack).numbered (.inr rfl) hP hC hf
  exact hgone.congr fun _ => h.equation

theorem Pending.booksAfter (h : s.Pending V vs id r f) (t : Tableau Rat) :
    ({ s.beginFirstPhase f with tableau := t } : Solver Rat).Books
      (fun w => V w ∨ w = s.artificialVariable) vs :=
  (h.books.advance .slack).of_frame rfl rfl rfl rfl

/-- Rolling back reports what it was told to report, and leaves the other constraints. -/
theorem Pending.rollBack (h : s.Pending V vs id r f) (hx : s.subject? f = none)
    (hk : Tableau.Keeps (fun w => V w ∨ w = s.artificialVariable)
      (s.beginFirstPhase f).tableau u) (news : List (Event Rat)) (e : Failure) :
    ((s.afterFirstPhase f u).rollBack id s.artificialVariable news e).answer = .error e ∧
      ((s.afterFirstPhase f u).rollBack id s.artificialVariable news e).solver.Sound
        (fun w => V w ∨ w = s.artificialVariable) vs ∧
      ((s.afterFirstPhase f u).rollBack id s.artificialVariable news e).solver.records =
        s.records.erase id ∧
      (u.Feasible → ((s.afterFirstPhase f u).rollBack id s.artificialVariable news
        e).solver.tableau.Feasible) := by
  have hopen := h.opened hx hk
  have hgone := h.discarded hx hk
  set t := u.endFirstPhase.discard s.artificialVariable with ht
  obtain ⟨hanswer, hsound, hrecords, hfeasible⟩ := (h.booksAfter t).retract h.record hgone
  have hretract : ({ s.afterFirstPhase f u with tableau := t } : Solver Rat).retract id =
      ({ s.beginFirstPhase f with tableau := t } : Solver Rat).retract id := rfl
  have hroll : (s.afterFirstPhase f u).rollBack id s.artificialVariable news e =
      ⟨(({ s.beginFirstPhase f with tableau := t } : Solver Rat).retract id).solver,
        (({ s.beginFirstPhase f with tableau := t } : Solver Rat).retract id).log ++ news,
        .error e⟩ := by
    have htab : (s.afterFirstPhase f u).tableau.discard s.artificialVariable = t := rfl
    unfold Solver.rollBack
    simp only [htab, hretract, hanswer]
  rw [hroll]
  refine ⟨rfl, hsound, hrecords, fun hu => hfeasible ?_⟩
  have hu : u.endFirstPhase.Feasible := hu
  exact (hu.removeRow _).removeColumn (hopen.tidy.wellFormed.removeRow _).indexed _

/-- An artificial variable at zero leaves with its equation brought in. -/
theorem Pending.dismiss (h : s.Pending V vs id r f) (hx : s.subject? f = none)
    (hk : Tableau.Keeps (fun w => V w ∨ w = s.artificialVariable)
      (s.beginFirstPhase f).tableau u) {g : LinearForm Rat} (hg : u.artificial = some g)
    (hzero : g.constant = 0) :
    ((s.afterFirstPhase f u).dismiss id s.artificialVariable).answer = .ok () ∧
      ((s.afterFirstPhase f u).dismiss id s.artificialVariable).solver.Sound
        (fun w => V w ∨ w = s.artificialVariable) vs ∧
      ((s.afterFirstPhase f u).dismiss id s.artificialVariable).solver.records = s.records ∧
      (u.Feasible →
        ((s.afterFirstPhase f u).dismiss id s.artificialVariable).solver.tableau.Feasible) := by
  obtain ⟨hP, hC, hf⟩ := h.artificial_ignored
  have hV := (h.books.issued.next .slack).numbered
  have hopen := h.opened hx hk
  set t := u.endFirstPhase with ht
  have hwf := hopen.tidy.wellFormed
  have hconst : ∀ row, t.row? s.artificialVariable = some row → row.constant = 0 := by
    intro row hrow
    have hpoint : u.point s.artificialVariable = row.constant := Tableau.point_of_basic hrow
    rw [← hpoint, h.artificial_point hk hg, hzero]
  have hsound : ∀ {t' : Tableau Rat}, t'.Stands (fun w => V w ∨ w = s.artificialVariable)
      (fun σ => s.BalancedBut id σ ∧ f.eval σ = 0) s.penalty →
      ({ s.afterFirstPhase f u with tableau := t' } : Solver Rat).Sound
        (fun w => V w ∨ w = s.artificialVariable) vs := by
    intro t' hst
    refine ⟨h.booksAfter t', hst.congr (fun σ => ?_) fun σ => rfl⟩
    have hboth : ({ s.afterFirstPhase f u with tableau := t' } : Solver Rat).Balanced σ ↔
        s.BalancedBut id σ ∧ r.Balanced σ := balanced_iff_but (s := s) h.record
    rw [hboth]
    exact and_congr_right h.equation
  have hdrop : ∀ {t' : Tableau Rat}, t'.Feasible → t'.Indexed →
      (t'.removeColumn s.artificialVariable).Feasible :=
    fun hf ht' => hf.removeColumn ht' _
  unfold Solver.dismiss
  have htab : (s.afterFirstPhase f u).tableau = t := rfl
  simp only [htab]
  cases hb : t.row? s.artificialVariable with
  | none =>
    refine ⟨rfl, hsound (hopen.dismiss_nonbasic hV (.inr rfl) hP hC hf hb), rfl, fun hu => ?_⟩
    have hu : t.Feasible := hu
    exact hdrop hu hwf.indexed
  | some row =>
    simp only [Option.map_some]
    have hzero := hconst row hb
    cases hsucc : row.successor? with
    | none =>
      have hvars := vars_of_successor?_eq_none hsucc
      refine ⟨rfl, hsound (hopen.dismiss_zero hV (.inr rfl) hP hC hf hb hvars hzero), rfl, ?_⟩
      intro hu
      have hu : t.Feasible := hu
      exact hdrop (hu.removeRow _) (hwf.removeRow _).indexed
    | some entry =>
      have hmem := mem_of_successor? hsucc
      obtain ⟨t', he⟩ := Tableau.exchange_ok_of_mem hb hmem
      simp only [he]
      have hr : s.artificialVariable.isRestricted = true := rfl
      have hst := hopen.keeps (hopen.tidy.keeps_exchange hV hr he)
      have hout : t'.row? s.artificialVariable = none := by
        rw [hwf.row?_exchange hb he, if_neg (hwf.ne_of_mem hb hmem hb).symm, if_pos rfl]
      refine ⟨trivial, hsound (hst.dismiss_nonbasic hV (.inr rfl) hP hC hf hout), rfl, ?_⟩
      intro hu
      have hu : t.Feasible := hu
      exact hdrop (hu.exchange_degenerate hwf hb hzero he) (hwf.exchange he).indexed

/-- A finished first phase brings the constraint in or takes it back. -/
theorem Pending.concludeFirstPhase (h : s.Pending V vs id r f) (hx : s.subject? f = none)
    {n : Nat} {p : Pass Rat} (hp : (s.beginFirstPhase f).tableau.minimizeArtificial n = some p) :
    ((s.beginFirstPhase f).concludeFirstPhase id s.artificialVariable p).solver.Sound
        (fun w => V w ∨ w = s.artificialVariable) vs ∧
      (s.tableau.Feasible → ((s.beginFirstPhase f).concludeFirstPhase id s.artificialVariable
        p).solver.tableau.Feasible) ∧
      ∀ i q, ((s.beginFirstPhase f).concludeFirstPhase id s.artificialVariable
        p).solver.record? i = some q → s.record? i = some q := by
  obtain ⟨htidy, -, -, hstart⟩ := h.beginFirstPhase
  have hV := (h.books.issued.next .slack).numbered
  have hmeets := htidy.minimizeArtificial_meets hV hp
  have himp : Tableau.Improves (fun w => V w ∨ w = s.artificialVariable)
      (s.beginFirstPhase f).tableau p.tableau :=
    hmeets.tableau (fun _ hu => hu.1) fun _ _ hu => hu.1
  have hk := himp.toKeeps
  have hfeasible : s.tableau.Feasible → p.tableau.Feasible := fun hf => himp.feasible (hstart hf)
  have hafter : ({ s.beginFirstPhase f with tableau := p.tableau.endFirstPhase } : Solver Rat) =
      s.afterFirstPhase f p.tableau := rfl
  unfold Solver.concludeFirstPhase
  simp only [hafter]
  have hroll := h.rollBack hx hk
  have herase : ∀ {s' : Solver Rat}, s'.records = s.records.erase id →
      ∀ i q, s'.record? i = some q → s.record? i = some q :=
    fun hs' i q hq => ((record?_erase_iff hs').1 hq).2
  cases hend : p.ending with
  | error e =>
    obtain ⟨-, hsound, hrecords, hf⟩ := hroll [] e
    exact ⟨hsound, fun hs => hf (hfeasible hs), herase hrecords⟩
  | ok _ =>
    obtain ⟨g, hg⟩ := h.exists_artificial hk
    simp only [hg, Option.map_some, Option.getD_some]
    by_cases hzero : Scalar.negligible g.constant = true
    · rw [if_pos hzero]
      obtain ⟨-, hsound, hrecords, hf⟩ := h.dismiss hx hk hg ((Scalar.negligible_rat _).1 hzero)
      refine ⟨hsound, fun hs => hf (hfeasible hs), fun i q hq => ?_⟩
      rw [← record?_congr hrecords]
      exact hq
    · rw [if_neg hzero]
      obtain ⟨-, hsound, hrecords, hf⟩ := hroll [.unsatisfiable id g.constant]
        ((s.afterFirstPhase f p.tableau).refusal id s.artificialVariable)
      exact ⟨hsound, fun hs => hf (hfeasible hs), herase hrecords⟩

/-- However a pending constraint is dealt with, a sound solver comes out. -/
theorem Pending.bringIn (h : s.Pending V vs id r f) {n : Nat} {o : Outcome Rat Unit}
    (ho : s.bringIn n id f = some o) :
    ∃ W, o.solver.Sound W vs ∧ (s.tableau.Feasible → o.solver.tableau.Feasible) ∧
      ∀ i q, o.solver.record? i = some q → s.record? i = some q := by
  rcases bringIn_cases ho with ⟨v, hx, rfl⟩ | ⟨hx, p, hp, hsolver, -⟩
  · obtain ⟨hsound, hf⟩ := h.insertSolved hx
    exact ⟨V, hsound, hf, fun _ _ hq => hq⟩
  · rw [hsolver]
    exact ⟨_, h.concludeFirstPhase hx hp⟩

/-- A pending constraint fails with its first phase, or because that ended above zero. Only the
constraint itself leaves the books. -/
theorem Pending.bringIn_failed (h : s.Pending V vs id r f) {n : Nat} {o : Outcome Rat Unit}
    (ho : s.bringIn n id f = some o) {e : Failure} (he : o.answer = .error e) :
    s.subject? f = none ∧ o.solver.records = s.records.erase id ∧
      ∃ p, (s.beginFirstPhase f).tableau.minimizeArtificial n = some p ∧
        (p.ending = .error e ∨
          p.ending = .ok () ∧ e = (s.afterFirstPhase f p.tableau).refusal id s.artificialVariable ∧
            ∃ g, p.tableau.artificial = some g ∧ g.constant ≠ 0) := by
  rcases bringIn_cases ho with ⟨v, -, rfl⟩ | ⟨hx, p, hp, hsolver, hanswer⟩
  · cases he
  · refine ⟨hx, ?_⟩
    obtain ⟨htidy, -⟩ := h.beginFirstPhase
    have hmeets := htidy.minimizeArtificial_meets (h.books.issued.next .slack).numbered hp
    have hk : Tableau.Keeps (fun w => V w ∨ w = s.artificialVariable)
        (s.beginFirstPhase f).tableau p.tableau :=
      hmeets.tableau (fun _ hu => hu.1.toKeeps) fun _ _ hu => hu.1.toKeeps
    have hafter : ({ s.beginFirstPhase f with tableau := p.tableau.endFirstPhase } : Solver Rat) =
        s.afterFirstPhase f p.tableau := rfl
    have hvar : s.supply.next .slack = s.artificialVariable := rfl
    rw [hsolver]
    rw [hanswer] at he
    unfold Solver.concludeFirstPhase at he ⊢
    simp only [hvar, hafter] at he ⊢
    cases hend : p.ending with
    | error e' =>
      simp only [hend] at he ⊢
      obtain ⟨hanswer, -, hrecords, -⟩ := h.rollBack hx hk [] e'
      rw [hanswer, Except.error.injEq] at he
      exact ⟨hrecords, p, hp, .inl (hend.trans (congrArg Except.error he))⟩
    | ok _ =>
      obtain ⟨g, hg⟩ := h.exists_artificial hk
      simp only [hend, hg, Option.map_some, Option.getD_some] at he ⊢
      by_cases hzero : Scalar.negligible g.constant = true
      · rw [if_pos hzero, (h.dismiss hx hk hg ((Scalar.negligible_rat _).1 hzero)).1] at he
        cases he
      · rw [if_neg hzero] at he ⊢
        obtain ⟨hanswer, -, hrecords, -⟩ := h.rollBack hx hk [.unsatisfiable id g.constant]
          ((s.afterFirstPhase f p.tableau).refusal id s.artificialVariable)
        rw [hanswer, Except.error.injEq] at he
        rw [Scalar.negligible_rat] at hzero
        exact ⟨hrecords, p, hp, .inr ⟨hend, he.symm, g, hg, hzero⟩⟩

end Solver

end SoftSimplex
