import SoftSimplex.Proofs.Coarse
import SoftSimplex.Proofs.Divisions

/-!
# What the tolerance costs

A new row is put in directly if some variable of its equation suits. For the rows that are there this
is looked up: none of them may fall below what the tolerance allows. For the new row itself it is
inferred, from the sign of a coefficient or from a constant that passes for zero. The second
inference is as good as the coefficient is large: the constant is compared before it is divided, so
the variable gets a value that is lower than the tolerance by the reciprocal of its coefficient. As no
coefficient of the equation is below the tolerance itself, the value stays above -1.
-/

namespace SoftSimplex

open LinearForm

namespace Tableau

theorem substantial_accumulate {α : Type} [Scalar α] (t : Tableau α) {f : LinearForm α}
    (hf : f.Substantial) (v : Variable) (c : α) : (t.accumulate f v c).Substantial := by
  unfold accumulate
  cases t.row? v with
  | some row => exact hf.addScaled row c
  | none => exact hf.addTerm v c

/-- No restricted row is lower than the tolerance allows. -/
def Tolerable (t : Tableau Coarse) : Prop :=
  ∀ r ∈ t.rows.entries, r.1.isRestricted = true → -Coarse.bound ≤ r.2.constant.toRat

instance (t : Tableau Coarse) : Decidable t.Tolerable :=
  inferInstanceAs (Decidable (∀ r ∈ t.rows.entries, r.1.isRestricted = true →
    -Coarse.bound ≤ r.2.constant.toRat))

theorem tolerable_iff {t : Tableau Coarse} : t.Tolerable ↔ ∀ b row, t.row? b = some row →
    b.isRestricted = true → -Coarse.bound ≤ row.constant.toRat := by
  constructor
  · intro h b row hrow
    exact h (b, row) (mem_rows_iff.2 hrow)
  · rintro h ⟨b, row⟩ hr
    exact h b row (mem_rows_iff.1 hr)

end Tableau

namespace Solver

section Any

variable {α : Type} [Scalar α] {V : Variable → Prop} {vs : List Variable} {s : Solver α}
variable {f : LinearForm α} {v b : Variable} {row : LinearForm α}

theorem substantial_reduce (s : Solver α) (f : LinearForm α) : (s.reduce f).Substantial := by
  have hfold : ∀ (es : List (Variable × α)) (g : LinearForm α), g.Substantial →
      (es.foldl (fun g e => s.tableau.accumulate g e.1 e.2) g).Substantial := by
    intro es
    induction es with
    | nil => exact fun g hg => hg
    | cons e es ih => exact fun g hg => ih _ (s.tableau.substantial_accumulate hg e.1 e.2)
  exact hfold _ _ (substantial_const _)

/-- What was found out about a row before the equation was solved for `v`. -/
theorem ge_of_admits (h : s.tableau.Indexed) (hx : s.admits f v = true)
    (hrow : s.tableau.row? b = some row) (hb : b.isRestricted = true) (hv : v ∈ row.vars) :
    Scalar.ge (row.constant + row.coeff v * (-f.constant / f.coeff v)) (-Scalar.tolerance) =
      true := by
  unfold admits at hx
  have hlisted := List.all_eq_true.1 hx b (h.mem_column.2 ⟨row, hrow, hv⟩)
  rw [hb, hrow] at hlisted
  simpa using hlisted

/-- The rows once the equation is solved for `v`. -/
theorem row?_insertSolved (h : s.tableau.Indexed) (v b : Variable) (f : LinearForm α) :
    (s.insertSolved v f).tableau.row? b = if b = v then some (f.isolate v)
      else (s.tableau.row? b).map (·.substitute v (f.isolate v)) := by
  unfold insertSolved
  rw [Tableau.row?_insertRow, h.row?_substitute]

end Any

variable {V : Variable → Prop} {vs : List Variable} {s : Solver Coarse}
variable {f : LinearForm Coarse} {v : Variable}

/-- The equation of a constraint has no negative constant and no coefficient below the tolerance. -/
theorem equation_coarse (s : Solver Coarse) (c : Constraint Coarse) (a : Auxiliaries) :
    0 ≤ (s.equation c a).constant.toRat ∧
      ∀ w ∈ (s.equation c a).vars, Coarse.bound ≤ |((s.equation c a).coeff w).toRat| := by
  have hgap : ((s.reduce c.form).addTerms a.terms).Substantial :=
    (s.substantial_reduce c.form).addTerms _
  have hlarge : ∀ w ∈ ((s.reduce c.form).addTerms a.terms).vars,
      Coarse.bound ≤ |(((s.reduce c.form).addTerms a.terms).coeff w).toRat| :=
    fun w hw => Scalar.bound_le_of_kept (hgap.coeff hw)
  unfold equation
  simp only
  generalize (s.reduce c.form).addTerms a.terms = g at hlarge
  by_cases hneg : Scalar.isNeg g.constant = true
  · rw [if_pos hneg]
    have hconstant : g.constant.toRat < 0 := (Scalar.isNeg_rat g.constant.toRat).1 hneg
    constructor
    · show 0 ≤ g.constant.toRat * -1
      linarith
    · intro w hw
      rw [negate, vars_scale] at hw
      have hcoeff : g.negate.coeff w = g.coeff w * -1 := by
        apply coeff_of_get?
        rw [negate, get?_scale, get?_of_mem hw]
        rfl
      rw [hcoeff]
      show Coarse.bound ≤ |(g.coeff w).toRat * -1|
      rw [mul_neg_one, abs_neg]
      exact hlarge w hw
  · rw [if_neg hneg]
    exact ⟨not_lt.1 fun hlt => hneg ((Scalar.isNeg_rat g.constant.toRat).2 hlt), hlarge⟩

/-- Solving an equation for a variable that suits makes no other row too low. -/
theorem Upheld.others_tolerable (h : s.Upheld V vs) (ht : s.tableau.Tolerable)
    (hx : s.subject? f = some v) {b : Variable} {row : LinearForm Coarse} (hne : b ≠ v)
    (hrow : (s.insertSolved v f).tableau.row? b = some row) (hb : b.isRestricted = true) :
    -Coarse.bound ≤ row.constant.toRat := by
  have hindexed := h.orderly.wellFormed.indexed
  rw [row?_insertSolved hindexed, if_neg hne, Option.map_eq_some_iff] at hrow
  obtain ⟨old, hold, rfl⟩ := hrow
  by_cases hv : v ∈ old.vars
  · obtain ⟨hadmits, -⟩ := subject?_suits hx (h.freeApart hold hv hb)
    have hge : -Coarse.bound ≤ old.constant.toRat +
        (old.coeff v).toRat * (-f.constant.toRat / (f.coeff v).toRat) :=
      (Scalar.ge_rat _ _).1 (ge_of_admits hindexed hadmits hold hb hv)
    rw [constant_substitute_of_mem hv, constant_isolate (subject?_free hx).1]
    show -Coarse.bound ≤ old.constant.toRat +
      f.constant.toRat * (-1 / (f.coeff v).toRat) * (old.coeff v).toRat
    calc -Coarse.bound ≤ old.constant.toRat +
          (old.coeff v).toRat * (-f.constant.toRat / (f.coeff v).toRat) := hge
      _ = _ := by ring
  · rw [substitute_of_not_mem hv]
    exact Tableau.tolerable_iff.1 ht b old hold hb

/-- A variable whose value is inferred to be no problem gets one above -1, and one that the tolerance
allows if its coefficient is negative or large enough. -/
theorem own_value_bounds {c k : Rat} (hc : 0 ≤ c) (hk : Coarse.bound ≤ |k|)
    (hsuits : k < 0 ∨ c < Coarse.bound) :
    -1 < -c / k ∧ (-Coarse.bound ≤ -c / k ↔ k < 0 ∨ c ≤ Coarse.bound * k) := by
  have hbound : 0 < Coarse.bound := by unfold Coarse.bound; norm_num
  rcases lt_or_ge k 0 with hneg | hnonneg
  · have hvalue : 0 ≤ -c / k := div_nonneg_of_nonpos (by linarith) hneg.le
    exact ⟨by linarith, iff_of_true (by linarith) (.inl hneg)⟩
  · rw [abs_of_nonneg hnonneg] at hk
    have hpos : 0 < k := hbound.trans_le hk
    have hsmall := hsuits.resolve_left (not_lt.2 hnonneg)
    constructor
    · rw [lt_div_iff₀ hpos]
      linarith
    · rw [le_div_iff₀ hpos, or_iff_right (not_lt.2 hnonneg)]
      constructor <;> intro hle <;> linarith

theorem subject?_value_bounds (hconstant : 0 ≤ f.constant.toRat)
    (hcoeff : Coarse.bound ≤ |(f.coeff v).toRat|) (hx : s.subject? f = some v)
    (hr : v.isRestricted = true) :
    -1 < -f.constant.toRat / (f.coeff v).toRat ∧
      (-Coarse.bound ≤ -f.constant.toRat / (f.coeff v).toRat ↔
        (f.coeff v).toRat < 0 ∨ f.constant.toRat ≤ Coarse.bound * (f.coeff v).toRat) := by
  apply own_value_bounds hconstant hcoeff
  rcases (subject?_suits hx hr).2 with hneg | hsmall
  · exact .inl ((Scalar.isNeg_rat (f.coeff v).toRat).1 hneg)
  · exact .inr ((le_abs_self _).trans_lt (Scalar.negligible_coarse.1 hsmall))

/-- The row of the variable that an equation is solved for. -/
theorem Upheld.own_row (h : s.Upheld V vs) (hx : s.subject? f = some v) :
    ∃ row, (s.insertSolved v f).tableau.row? v = some row ∧
      row.constant.toRat = -f.constant.toRat / (f.coeff v).toRat := by
  refine ⟨f.isolate v, by rw [row?_insertSolved h.orderly.wellFormed.indexed, if_pos rfl], ?_⟩
  rw [constant_isolate (subject?_free hx).1]
  show f.constant.toRat * (-1 / (f.coeff v).toRat) = _
  ring

/-- Whether all rows are high enough then is up to that row. -/
theorem Upheld.tolerable_insertSolved_iff (h : s.Upheld V vs) (ht : s.tableau.Tolerable)
    (hx : s.subject? f = some v) :
    (s.insertSolved v f).tableau.Tolerable ↔
      (v.isRestricted = true → -Coarse.bound ≤ -f.constant.toRat / (f.coeff v).toRat) := by
  obtain ⟨own, hown, hvalue⟩ := h.own_row hx
  rw [Tableau.tolerable_iff, ← hvalue]
  constructor
  · exact fun hall hr => hall v own hown hr
  · intro hhigh b row hrow hb
    by_cases hbv : b = v
    · subst hbv
      rw [hown] at hrow
      cases hrow
      exact hhigh hb
    · exact h.others_tolerable ht hx hbv hrow hb

/-- In rational arithmetic with the tolerance of the doubles, in any state without a restricted row
that is lower than the tolerance allows: if some variable suits the equation of a constraint, whose
constant is not negative and whose coefficients are not below the tolerance, then solving for it
leaves all other restricted rows as high as the tolerance asks. Its own value is minus the constant
by its coefficient; if it is restricted that is above -1, but within the tolerance only if the
coefficient is negative or the constant at most the tolerance times the coefficient. -/
theorem insertSolved_tolerable_iff
    {allowed : Solver Coarse → Request Coarse → Outcome Coarse Reply → Prop}
    (h : Reached allowed vs s) (ht : s.tableau.Tolerable) {c : Constraint Coarse}
    (hc : ∀ v ∈ c.form.vars, v ∈ vs)
    (hx : (s.prepare c).1.subject? (s.prepare c).2 = some v) :
    let f := (s.prepare c).2
    let t := ((s.prepare c).1.insertSolved v f).tableau
    (0 ≤ f.constant.toRat ∧ ∀ w ∈ f.vars, Coarse.bound ≤ |(f.coeff w).toRat|) ∧
    (∀ b row, b ≠ v → t.row? b = some row → b.isRestricted = true →
      -Coarse.bound ≤ row.constant.toRat) ∧
    (∃ row, t.row? v = some row ∧
      row.constant.toRat = -f.constant.toRat / (f.coeff v).toRat ∧
      (v.isRestricted = true → -1 < row.constant.toRat)) ∧
    (t.Tolerable ↔ v.role = .free ∨ (f.coeff v).toRat < 0 ∨
      f.constant.toRat ≤ Coarse.bound * (f.coeff v).toRat) := by
  obtain ⟨V, hs⟩ := h.upheld
  obtain ⟨hprepared, -⟩ := hs.prepare hc
  have hbefore : (s.prepare c).1.tableau.Tolerable := by
    rw [Tableau.tolerable_iff] at ht ⊢
    intro b row hrow
    have hsame : (s.prepare c).1.tableau.row? b = s.tableau.row? b := row?_addCosts _ _ _ _
    exact ht b row (hsame ▸ hrow)
  have hequation := equation_coarse s c (Auxiliaries.draw s.supply c).1
  obtain ⟨row, hrow, hvalue⟩ := hprepared.own_row hx
  have hbounds := subject?_value_bounds hequation.1 (hequation.2 v (subject?_free hx).1) hx
  refine ⟨hequation, fun b row hne hrow hb => hprepared.others_tolerable hbefore hx hne hrow hb,
    ⟨row, hrow, hvalue, fun hr => hvalue ▸ (hbounds hr).1⟩, ?_⟩
  rw [hprepared.tolerable_insertSolved_iff hbefore hx]
  constructor
  · intro hhigh
    cases hr : v.isRestricted with
    | false => exact .inl (by simpa [Variable.isRestricted] using hr)
    | true => exact .inr ((hbounds hr).2.1 (hhigh hr))
  · intro hcases hr
    exact (hbounds hr).2.2 (hcases.resolve_left (Variable.isRestricted_iff.1 hr))

/-- Two widths of at most 10 together, the second of which is to be at least slightly below zero. Its
coefficient is 1, so the value it gets is as slightly below zero as it was asked to be. -/
theorem tolerable_of_widths :
    ∃ (vs : List Variable) (s : Solver Coarse) (c : Constraint Coarse) (row : LinearForm Coarse),
      Reached (fun _ _ _ => True) vs s ∧ s.tableau.size = 1 ∧ s.tableau.Tolerable ∧
      (∀ v ∈ c.form.vars, v ∈ vs) ∧
      (s.prepare c).1.subject? (s.prepare c).2 = some ⟨1, .bounded⟩ ∧
      ((s.prepare c).1.insertSolved ⟨1, .bounded⟩ (s.prepare c).2).tableau.row? ⟨1, .bounded⟩ =
        some row ∧
      row.constant.toRat = -1 / 200000000 ∧
      ((s.prepare c).1.insertSolved ⟨1, .bounded⟩ (s.prepare c).2).tableau.Tolerable := by
  let first : Variable := ⟨0, .bounded⟩
  let second : Variable := ⟨1, .bounded⟩
  let c : Constraint Coarse := .compare (.var second) .atLeast (.const (.ofRat (-1 / 200000000)))
  let limit : Constraint Coarse :=
    .compare ((LinearForm.var first).addScaled (.var second) 1) .atMost (.const (.ofRat 10))
  have hopened : Reached (α := Coarse) (fun _ _ _ => True) [first, second]
      ((new.newVariable true).2.newVariable true).2 :=
    .step (n := 0) (r := .newVariable true)
      (.step (n := 0) (r := .newVariable true) (.start {}) trivial rfl trivial) trivial rfl trivial
  have hrun : ([Request.add limit].foldlM (fun (s : Solver Coarse) q =>
      (s.perform 9 q).map Outcome.solver) ((new.newVariable true).2.newVariable true).2).any
      (fun s => decide (s.tableau.size = 1) && decide s.tableau.Tolerable &&
        decide ((s.prepare c).1.subject? (s.prepare c).2 = some second) &&
        decide (-(s.prepare c).2.constant.toRat / ((s.prepare c).2.coeff second).toRat =
          -1 / 200000000) &&
        decide ((s.prepare c).2.constant.toRat ≤
          Coarse.bound * ((s.prepare c).2.coeff second).toRat)) = true := by
    decide +kernel
  obtain ⟨s, hs, hcheck⟩ := (Option.any_eq_true _ _).1 hrun
  simp only [Bool.and_eq_true, decide_eq_true_eq] at hcheck
  obtain ⟨⟨⟨⟨hsize, htolerable⟩, hsubject⟩, hvalue⟩, hsmall⟩ := hcheck
  have hwithin : ∀ q ∈ [Request.add limit], q.Within [first, second] := by decide +kernel
  obtain ⟨ws, hws, hreached⟩ := hopened.foldlM hwithin hs
  have hsecond : ∀ v ∈ c.form.vars, v ∈ [first, second] := by decide +kernel
  have hc : ∀ v ∈ c.form.vars, v ∈ ws := fun v hv => hws (hsecond v hv)
  obtain ⟨-, -, ⟨row, hrow, hown, -⟩, hiff⟩ :=
    insertSolved_tolerable_iff hreached htolerable hc hsubject
  exact ⟨ws, s, c, row, hreached, hsize, htolerable, hc, hsubject, hrow, hown.trans hvalue,
    hiff.2 (.inr (.inr hsmall))⟩

/-- A thousandth of a width that has to be slightly above a negative number. The number passes for
zero, so the equation is solved for the width, which comes out at a thousand times that number. The
slack would have suited. -/
theorem subject_too_low :
    ∃ (s : Solver Coarse) (c : Constraint Coarse) (o : Outcome Coarse ConstraintId),
      Reached (fun _ _ _ => True) [⟨0, .bounded⟩] s ∧ s.tableau.Tolerable ∧ s.violations = [] ∧
      (∀ v ∈ c.form.vars, v ∈ [⟨0, .bounded⟩]) ∧
      (s.prepare c).1.subject? (s.prepare c).2 = some ⟨0, .bounded⟩ ∧
      ¬((s.prepare c).1.insertSolved ⟨0, .bounded⟩ (s.prepare c).2).tableau.Tolerable ∧
      s.add 0 c = some o ∧ o.answer = .ok ⟨0⟩ ∧ o.solver.violations ≠ [] := by
  let s : Solver Coarse := (new.newVariable true).2
  let c : Constraint Coarse := .compare (.term ⟨0, .bounded⟩ (.ofRat (1 / 1000))) .atLeast
    (.const (.ofRat (-1 / 200000000)))
  have hrun : (s.add 0 c).any (fun o => decide (o.answer = .ok ⟨0⟩) &&
      !o.solver.violations.isEmpty) = true := by
    decide +kernel
  obtain ⟨o, ho, hcheck⟩ := (Option.any_eq_true _ _).1 hrun
  rw [Bool.and_eq_true, decide_eq_true_eq, Bool.not_eq_true', ← Bool.not_eq_true,
    List.isEmpty_iff] at hcheck
  have hreached : Reached (fun _ _ _ => True) [⟨0, .bounded⟩] s :=
    .step (n := 0) (r := .newVariable true) (.start {}) trivial rfl trivial
  exact ⟨s, c, o, hreached, by decide +kernel, by decide +kernel, by decide +kernel,
    by decide +kernel, by decide +kernel, ho, hcheck.1, hcheck.2⟩

end Solver

end SoftSimplex
