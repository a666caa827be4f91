import SoftSimplex.Proofs.Soundness

/-!
# Preparing a constraint

A new constraint is written into the books first; the tableau does not stand for it yet, but its
equation is at hand: a form in variables without rows that is zero exactly if the new record is
balanced, as far as the others are.
-/

namespace SoftSimplex

open LinearForm

namespace Solver

section Any

variable {α : Type} [Scalar α] {V : Variable → Prop} {s : Solver α}

/-- A reduced form speaks of variables without rows. -/
theorem vars_reduce (h : s.tableau.Orderly V) {f : LinearForm α} (hf : ∀ v ∈ f.vars, V v) :
    ∀ v ∈ (s.reduce f).vars, V v ∧ s.tableau.row? v = none := by
  have hfold : ∀ (es : List (Variable × α)) (g : LinearForm α), (∀ e ∈ es, V e.1) →
      (∀ v ∈ g.vars, V v ∧ s.tableau.row? v = none) →
      ∀ v ∈ (es.foldl (fun g e => s.tableau.accumulate g e.1 e.2) g).vars,
        V v ∧ s.tableau.row? v = none := by
    intro es
    induction es with
    | nil => exact fun g _ hg => hg
    | cons e es ih =>
      intro g hes hg
      apply ih _ fun e he => hes e (List.mem_cons_of_mem _ he)
      intro v hv
      exact ⟨h.within.accumulate (fun w hw => (hg w hw).1) (hes e List.mem_cons_self) e.2 v hv,
        h.wellFormed.accumulate_open (fun hw => (hg _ hw).2) hv⟩
  apply hfold
  · intro e he
    exact hf e.1 (List.mem_map_of_mem he)
  · intro v hv
    cases hv

/-- The equation of a constraint speaks of variables without rows and of its own ones. -/
theorem vars_equation (h : s.tableau.Orderly V) {c : Constraint α} {a : Auxiliaries}
    (hc : ∀ v ∈ c.form.vars, V v) (ha : ∀ v ∈ a.own, s.tableau.row? v = none) :
    ∀ v ∈ (s.equation c a).vars, (V v ∨ v ∈ a.own) ∧ s.tableau.row? v = none := by
  intro v hv
  have hgap : v ∈ ((s.reduce c.form).addTerms a.terms).vars := by
    unfold equation at hv
    simp only at hv
    split at hv
    · rwa [negate, vars_scale] at hv
    · exact hv
  rcases mem_vars_addTerms hgap with hm | hm
  · have hm := Auxiliaries.mem_own_of_terms hm
    exact ⟨.inr hm, ha v hm⟩
  · obtain ⟨hV, hb⟩ := vars_reduce h hc v hm
    exact ⟨.inl hV, hb⟩

theorem row?_addCosts (t : Tableau α) (w : α) (es : List Variable) (c : Variable) :
    (es.foldl (fun t v => t.addCost v w) t).row? c = t.row? c := by
  induction es generalizing t with
  | nil => rfl
  | cons e es ih => rw [List.foldl_cons, ih, Tableau.row?_addCost]

theorem trim_reduce [Scalar.Sharp α] (s : Solver α) (f : LinearForm α) : (s.reduce f).Trim := by
  have hfold : ∀ (es : List (Variable × α)) (g : LinearForm α), g.Trim →
      (es.foldl (fun g e => s.tableau.accumulate g e.1 e.2) g).Trim := by
    intro es
    induction es with
    | nil => exact fun g hg => hg
    | cons e es ih => exact fun g hg => ih _ (Tableau.trim_accumulate hg e.1 e.2)
  exact hfold _ _ (trim_const _)

/-- Whatever coefficients a constraint has, its equation stores none that is zero. -/
theorem trim_equation [Scalar.Sharp α] (s : Solver α) (c : Constraint α) (a : Auxiliaries) :
    (s.equation c a).Trim := by
  have hgap : ((s.reduce c.form).addTerms a.terms).Trim := (s.trim_reduce c.form).addTerms _
  unfold equation
  simp only
  split
  · exact hgap.negate
  · exact hgap

end Any

variable {V : Variable → Prop} {vs : List Variable} {s : Solver Rat} {id : ConstraintId}
variable {r : Record Rat} {P : Assignment Rat → Prop} {C : Assignment Rat → Rat}

/-! ## Reducing a form -/

theorem eval_reduce {σ : Assignment Rat} (hσ : s.tableau.Solves σ) (f : LinearForm Rat) :
    (s.reduce f).eval σ = f.eval σ := by
  have hfold : ∀ (es : List (Variable × Rat)) (g : LinearForm Rat),
      (es.foldl (fun g e => s.tableau.accumulate g e.1 e.2) g).eval σ =
        g.eval σ + evalTerms σ es := by
    intro es
    induction es with
    | nil => simp
    | cons e es ih =>
      intro g
      rw [List.foldl_cons, ih, Tableau.eval_accumulate hσ, evalTerms_cons]
      ring
  unfold reduce
  rw [hfold, eval_const, eval_eq]

/-! ## The costs of the errors -/

/-- Costs are added one after the other. -/
theorem stands_addCosts (hV : Numbered V) {t : Tableau Rat} (h : t.Stands V P C) (w : Rat)
    (es : List Variable) (hes : ∀ e ∈ es, V e) :
    (es.foldl (fun t v => t.addCost v w) t).Stands V P fun σ => C σ + w * (es.map σ).sum := by
  induction es generalizing t C with
  | nil => exact h.congr (fun _ => Iff.rfl) fun σ => by simp
  | cons e es ih =>
    have hstep := h.addCost hV (hes e List.mem_cons_self) w
    apply (ih hstep fun e he => hes e (List.mem_cons_of_mem _ he)).congr fun _ => Iff.rfl
    intro σ
    rw [List.map_cons, List.sum_cons]
    ring

/-! ## Pending constraints -/

/-- A constraint in the books whose equation is not in the tableau yet. -/
structure Pending (V : Variable → Prop) (vs : List Variable) (s : Solver Rat) (id : ConstraintId)
    (r : Record Rat) (f : LinearForm Rat) : Prop where
  books : s.Books V vs
  record : s.record? id = some r
  stands : s.tableau.Stands V (s.BalancedBut id) s.penalty
  trim : f.Trim
  vars : ∀ v ∈ f.vars, V v ∧ s.tableau.row? v = none
  residual : ∃ k : Rat, k ≠ 0 ∧ ∀ σ, s.BalancedBut id σ → f.eval σ = k * r.residual.eval σ
  nonneg : 0 ≤ f.constant

theorem Pending.equation {f : LinearForm Rat} (h : s.Pending V vs id r f) {σ : Assignment Rat}
    (hσ : s.BalancedBut id σ) : f.eval σ = 0 ↔ r.Balanced σ := by
  obtain ⟨k, hk, heval⟩ := h.residual
  rw [heval σ hσ, (h.books.proper h.record).balanced_iff, mul_eq_zero]
  exact or_iff_right hk

/-- The equation before its constant is made nonnegative. -/
def gap (s : Solver Rat) (r : Record Rat) : LinearForm Rat :=
  (s.reduce r.constraint.form).addTerms r.terms

theorem equation_cases (c : Constraint Rat) (a : Auxiliaries) :
    s.equation c a = s.gap ⟨a, c⟩ ∧ 0 ≤ (s.gap ⟨a, c⟩).constant ∨
      s.equation c a = (s.gap ⟨a, c⟩).negate ∧ (s.gap ⟨a, c⟩).constant < 0 := by
  have heq : s.equation c a = if Scalar.isNeg (s.gap ⟨a, c⟩).constant then
      (s.gap ⟨a, c⟩).negate else s.gap ⟨a, c⟩ := rfl
  rw [heq]
  by_cases hneg : Scalar.isNeg (s.gap ⟨a, c⟩).constant = true
  · rw [if_pos hneg]
    exact .inr ⟨rfl, (Scalar.isNeg_rat _).1 hneg⟩
  · rw [if_neg hneg]
    refine .inl ⟨rfl, ?_⟩
    rw [Scalar.isNeg_rat] at hneg
    exact not_lt.1 hneg

theorem eval_gap {σ : Assignment Rat} (hσ : s.tableau.Solves σ) (r : Record Rat) :
    (s.gap r).eval σ = r.residual.eval σ := by
  unfold gap Record.residual
  rw [eval_addTerms, eval_addTerms, eval_reduce hσ]

/-- Apart from the record put in there are the records of before. -/
theorem Books.balancedBut_insert_iff (h : s.Books V vs) {s' : Solver Rat}
    (hs' : s'.records = s.records.insert ⟨s.nextId⟩ r) {σ : Assignment Rat} :
    s'.BalancedBut ⟨s.nextId⟩ σ ↔ s.Balanced σ := by
  constructor
  · intro hb i q hq
    have hi : i ≠ ⟨s.nextId⟩ := by
      rintro rfl
      rw [h.unnamed] at hq
      cases hq
    exact hb i q hi ((record?_insert_iff hs').2 (.inr ⟨hi, hq⟩))
  · intro hb i q hi hq
    rcases (record?_insert_iff hs').1 hq with ⟨rfl, -⟩ | ⟨-, hq⟩
    · exact absurd rfl hi
    · exact hb i q hq

/-- Writing a sound solver's new constraint into the books leaves its equation pending. -/
theorem Sound.prepare (h : s.Sound V vs) {c : Constraint Rat} (hc : ∀ v ∈ c.form.vars, v ∈ vs) :
    Pending (fun v => V v ∨ v ∈ (Auxiliaries.draw s.supply c).1.own) vs (s.prepare c).1 ⟨s.nextId⟩
      ⟨(Auxiliaries.draw s.supply c).1, c⟩ (s.prepare c).2 := by
  have hbooks := h.books.register hc
  obtain ⟨-, hnew⟩ := h.books.issued.draw c
  unfold Solver.prepare
  simp only
  set a := (Auxiliaries.draw s.supply c).1 with ha
  set s' := ({ s with nextId := s.nextId + 1 } : Solver Rat).register ⟨s.nextId⟩ c a
    (Auxiliaries.draw s.supply c).2 with hs'
  set r : Record Rat := ⟨a, c⟩ with hr
  have hrecords : s'.records = s.records.insert ⟨s.nextId⟩ r := rfl
  have hrecord := record?_insert_self hrecords
  have hbut : ∀ σ, s'.BalancedBut ⟨s.nextId⟩ σ ↔ s.Balanced σ :=
    fun σ => h.books.balancedBut_insert_iff hrecords
  have hown : ∀ v ∈ a.own, s.tableau.row? v = none :=
    fun v hv => (h.stands.tidy.within.absent (hnew v hv)).nonbasic
  have hform : ∀ w ∈ c.form.vars, V w := fun w hw => (h.books.clients w (hc w hw)).1
  refine ⟨hbooks, hrecord, ?_, ?_, ?_, ?_, ?_⟩
  · have hstart := h.stands.mono (W := fun v => V v ∨ v ∈ a.own) fun _ hv => .inl hv
    have hadd := stands_addCosts hbooks.issued.numbered hstart c.weight
      a.errors fun e he => .inr (List.mem_cons_of_mem _ he)
    apply hadd.congr
    · exact fun σ => (hbut σ).symm
    · intro σ
      rw [penalty_insert s' ⟨s.nextId⟩ r (s := s) rfl, h.books.unnamed]
      simp [Record.penalty, hr]
  · exact s.trim_equation c a
  · intro v hv
    have hrow : s'.tableau.row? v = s.tableau.row? v := row?_addCosts _ _ _ _
    rw [hrow]
    exact vars_equation h.stands.tidy.orderly hform hown v hv
  · have hgap : ∀ σ, s'.BalancedBut ⟨s.nextId⟩ σ → (s.gap r).eval σ = r.residual.eval σ :=
      fun σ hσ => eval_gap ((h.stands.solves σ).2 ((hbut σ).1 hσ)) r
    rcases equation_cases (s := s) c a with ⟨he, -⟩ | ⟨he, -⟩
    · refine ⟨1, one_ne_zero, fun σ hσ => ?_⟩
      rw [he, hgap σ hσ, one_mul]
    · refine ⟨-1, by norm_num, fun σ hσ => ?_⟩
      rw [he, eval_negate, hgap σ hσ, neg_one_mul]
  · rcases equation_cases (s := s) c a with ⟨he, hnn⟩ | ⟨he, hneg⟩
    · rw [he]
      exact hnn
    · rw [he, negate, constant_scale]
      linarith

end Solver

end SoftSimplex
