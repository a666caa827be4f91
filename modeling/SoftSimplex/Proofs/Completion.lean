import Mathlib.Algebra.Order.BigOperators.Group.List
import Mathlib.Algebra.Order.Group.MinMax
import SoftSimplex.Proofs.Books
import SoftSimplex.Proofs.NormalForm

/-!
# Completing an assignment

Values for the client's variables determine values for all others that balance every record: the
marker of a required constraint takes what the form amounts to, and the errors of another take what
it is missed by. The completed assignment is nonnegative as far as the constraints hold, and its
errors cost what missing the constraints costs. No assignment that balances the records does
better.
-/

namespace SoftSimplex

open LinearForm

namespace Constraint

variable {c : Constraint Rat} {σ : Assignment Rat}

theorem violation_eq : c.violation σ =
    if c.form.eval σ < 0 then -c.form.eval σ else
      if c.isInequality then 0 else c.form.eval σ := by
  unfold violation
  simp only [Scalar.isNeg_rat]

end Constraint

namespace Record

variable {r : Record Rat} {σ τ : Assignment Rat}

/-- What an own variable has to be if the others are as in `σ`. -/
def amend (r : Record Rat) (σ : Assignment Rat) (v : Variable) : Rat :=
  if r.constraint.isRequired then r.constraint.form.eval σ
  else if v = r.marker then max (r.constraint.form.eval σ) 0
  else max (-r.constraint.form.eval σ) 0

theorem amend_of_required (hr : r.constraint.isRequired = true) (v : Variable) :
    r.amend σ v = r.constraint.form.eval σ := if_pos hr

theorem amend_marker (hr : r.constraint.isRequired = false) :
    r.amend σ r.marker = max (r.constraint.form.eval σ) 0 := by
  rw [amend, hr, if_neg Bool.false_ne_true, if_pos rfl]

theorem amend_error (hr : r.constraint.isRequired = false) {e : Variable} (hne : e ≠ r.marker) :
    r.amend σ e = max (-r.constraint.form.eval σ) 0 := by
  rw [amend, hr, if_neg Bool.false_ne_true, if_neg hne]

theorem Proper.balanced_amend (h : r.Proper) (hown : ∀ v ∈ r.own, τ v = r.amend σ v)
    (hform : ∀ v ∈ r.constraint.form.vars, τ v = σ v) : r.Balanced τ := by
  have heval : r.constraint.form.eval τ = r.constraint.form.eval σ := eval_congr _ _ hform
  have hmarker := hown r.marker r.marker_mem_own
  cases hr : r.constraint.isRequired with
  | true => rw [h.balanced_iff_of_required hr, heval, hmarker, amend_of_required hr]
  | false =>
    obtain ⟨e, he, hne⟩ := h.exists_error hr
    rw [h.balanced_iff_of_soft he hne, heval, hmarker, hown e he, amend_marker hr,
      amend_error hr hne, max_zero_sub_max_neg_zero_eq_self]

theorem amend_nonneg (hold : r.constraint.isRequired = true → r.constraint.Holds σ)
    (v : Variable) : 0 ≤ r.amend σ v := by
  unfold amend
  split
  · next hr =>
    have hold := Constraint.holds_iff.1 (hold hr)
    split at hold
    · exact hold
    · exact le_of_eq hold.symm
  · split
    · exact le_max_right _ _
    · exact le_max_right _ _

/-- Only the marker of a required equality is a dummy. -/
theorem Proper.dummy_own (h : r.Proper) {v : Variable} (hv : v ∈ r.own) (hd : v.role = .dummy) :
    v = r.marker ∧ r.constraint.isRequired = true ∧ r.constraint.isInequality = false := by
  rcases h.fits.mem_own hv with rfl | ⟨-, hrole⟩
  · obtain ⟨hr, -, hm⟩ | ⟨-, e, -, -, ⟨-, hm, -⟩ | ⟨-, hm, -⟩⟩ := h.fits.shape
    · refine ⟨rfl, hr, ?_⟩
      by_contra hi
      rw [Bool.not_eq_false] at hi
      rw [hi, if_pos rfl, hd] at hm
      cases hm
    · rw [hd] at hm
      cases hm
    · rw [hd] at hm
      cases hm
  · rw [hd] at hrole
    cases hrole

theorem Proper.not_dummy (h : r.Proper) (hsoft : r.constraint.isRequired = false) {v : Variable}
    (hv : v ∈ r.own) : v.role ≠ .dummy := by
  intro hd
  have hreq := (h.dummy_own hv hd).2.1
  rw [hsoft] at hreq
  cases hreq

theorem Proper.amend_dummy (h : r.Proper) {v : Variable} (hv : v ∈ r.own) (hd : v.role = .dummy)
    (hold : r.constraint.isRequired = true → r.constraint.Holds σ) : r.amend σ v = 0 := by
  obtain ⟨-, hr, hi⟩ := h.dummy_own hv hd
  have hzero := Constraint.holds_iff.1 (hold hr)
  rw [amend_of_required hr]
  rwa [hi, if_neg Bool.false_ne_true] at hzero

/-! ## Costs -/

def cost (r : Record Rat) (σ : Assignment Rat) : Rat :=
  if r.constraint.isRequired then 0 else r.constraint.weight * r.constraint.violation σ

/-- The amended errors add up to what is missed. -/
theorem Proper.sum_errors_amend (h : r.Proper) (hsoft : r.constraint.isRequired = false)
    (hown : ∀ v ∈ r.own, τ v = r.amend σ v) : (r.errors.map τ).sum = r.constraint.violation σ := by
  have hmarker := hown _ r.marker_mem_own
  rw [amend_marker hsoft] at hmarker
  rw [Constraint.violation_eq]
  obtain ⟨hreq, -⟩ | ⟨-, e, hne, -, ⟨hi, -, herrors⟩ | ⟨hi, -, herrors⟩⟩ := h.fits.shape
  · rw [hsoft] at hreq
    cases hreq
  all_goals
    have herror := hown e (error_mem_own (by simp [herrors]))
    rw [amend_error hsoft hne] at herror
    by_cases hneg : r.constraint.form.eval σ < 0
    · simp [herrors, hmarker, herror, hneg, le_of_lt hneg]
    · simp [herrors, hmarker, herror, hneg, hi, not_lt.1 hneg]

/-- The amended errors cost what is missed. -/
theorem Proper.penalty_amend (h : r.Proper) (hown : ∀ v ∈ r.own, τ v = r.amend σ v) :
    r.penalty τ = r.cost σ := by
  unfold cost
  cases hr : r.constraint.isRequired with
  | true => rw [h.penalty_of_required hr, if_pos rfl]
  | false =>
    rw [if_neg Bool.false_ne_true, ← h.sum_errors_amend hr hown]
    rfl

/-- Errors that balance the record make up for all that is missed. -/
theorem Proper.cost_le_penalty (h : r.Proper) (hb : r.Balanced σ) (hown : ∀ v ∈ r.own, 0 ≤ σ v)
    (hw : 0 ≤ r.constraint.weight) : r.cost σ ≤ r.penalty σ := by
  unfold cost
  cases hr : r.constraint.isRequired with
  | true => rw [h.penalty_of_required hr, if_pos rfl]
  | false =>
    obtain ⟨e, he, hne⟩ := h.exists_error hr
    have hmarker := hown r.marker r.marker_mem_own
    have herror := hown e he
    rw [h.balanced_iff_of_soft he hne] at hb
    rw [h.penalty_of_soft he hne, if_neg Bool.false_ne_true, Constraint.violation_eq]
    apply mul_le_mul_of_nonneg_left _ hw
    split <;> split <;> linarith

end Record

namespace Solver

variable {V : Variable → Prop} {vs : List Variable} {s : Solver Rat} {σ : Assignment Rat}
variable {id : ConstraintId} {r : Record Rat}

/-- The client's values, with own variables amended and all others zero. -/
def complete (s : Solver Rat) (vs : List Variable) (σ : Assignment Rat) : Assignment Rat := fun v =>
  match s.records.entries.find? fun e => decide (v ∈ e.2.own) with
  | some e => e.2.amend σ v
  | none => if v ∈ vs then σ v else 0

theorem Books.complete_own (h : s.Books V vs) (hr : s.record? id = some r) {v : Variable}
    (hv : v ∈ r.own) : s.complete vs σ v = r.amend σ v := by
  unfold complete
  cases hfind : s.records.entries.find? fun e => decide (v ∈ e.2.own) with
  | none =>
    have hno := List.find?_eq_none.1 hfind (id, r) (Table.get?_eq_some_iff.1 hr)
    simp [hv] at hno
  | some e =>
    have hve : v ∈ e.2.own := by simpa using List.find?_some hfind
    have hre : s.record? e.1 = some e.2 :=
      Table.get?_eq_some_iff.2 (List.mem_of_find?_eq_some hfind)
    have hid := h.apart hre hr hve hv
    rw [hid, hr, Option.some.injEq] at hre
    rw [hre]

theorem complete_other {v : Variable} (hv : ∀ id r, s.record? id = some r → v ∉ r.own) :
    s.complete vs σ v = if v ∈ vs then σ v else 0 := by
  unfold complete
  cases hfind : s.records.entries.find? fun e => decide (v ∈ e.2.own) with
  | none => rfl
  | some e =>
    have hve : v ∈ e.2.own := by simpa using List.find?_some hfind
    exact absurd hve (hv e.1 e.2 (Table.get?_eq_some_iff.2 (List.mem_of_find?_eq_some hfind)))

theorem Books.complete_client (h : s.Books V vs) {v : Variable} (hv : v ∈ vs) :
    s.complete vs σ v = σ v := by
  rw [complete_other, if_pos hv]
  intro i q hq hvq
  have hc := (h.clients v hv).2
  rw [(h.proper hq).own_not_client hvq] at hc
  cases hc

/-- Whatever the client's values are, the completed assignment balances every record. -/
theorem Books.balanced_complete (h : s.Books V vs) (σ : Assignment Rat) :
    s.Balanced (s.complete vs σ) := by
  intro i q hq
  apply (h.proper hq).balanced_amend (σ := σ)
  · exact fun v hv => h.complete_own hq hv
  · exact fun v hv => h.complete_client (h.forms hq v hv)

theorem mem_constraints {e : ConstraintId × Constraint Rat} :
    e ∈ s.constraints ↔ ∃ r, s.record? e.1 = some r ∧ r.constraint = e.2 := by
  unfold constraints
  rw [List.mem_map]
  constructor
  · rintro ⟨p, hp, rfl⟩
    exact ⟨p.2, Table.get?_eq_some_iff.2 hp, rfl⟩
  · rintro ⟨r, hr, he⟩
    exact ⟨(e.1, r), Table.get?_eq_some_iff.1 hr, by rw [he]⟩

instance (s : Solver Rat) (σ : Assignment Rat) : Decidable (s.RequiredHold σ) :=
  inferInstanceAs (Decidable (∀ e ∈ s.constraints, e.2.isRequired = true → e.2.Holds σ))

theorem requiredHold_iff : s.RequiredHold σ ↔
    ∀ id r, s.record? id = some r → r.constraint.isRequired = true → r.constraint.Holds σ := by
  unfold RequiredHold
  constructor
  · intro h i q hq hreq
    exact h (i, q.constraint) (mem_constraints.2 ⟨q, hq, rfl⟩) hreq
  · rintro h ⟨i, c⟩ he hreq
    obtain ⟨q, hq, rfl⟩ := mem_constraints.1 he
    exact h i q hq hreq

/-- A variable that is not free is completed to a nonnegative value, and a dummy to zero, where
bounded variables are nonnegative and the constraint it came with holds if it is required. -/
theorem Books.complete_nonneg (h : s.Books V vs)
    (hbounded : ∀ v ∈ vs, v.role = .bounded → 0 ≤ σ v) {v : Variable}
    (hv : v.isRestricted = true)
    (hold : ∀ i q, s.record? i = some q → v ∈ q.own → q.constraint.isRequired = true →
      q.constraint.Holds σ) :
    0 ≤ s.complete vs σ v ∧ (v.role = .dummy → s.complete vs σ v = 0) := by
  by_cases hown : ∃ i q, s.record? i = some q ∧ v ∈ q.own
  · obtain ⟨i, q, hq, hvq⟩ := hown
    have hholds := hold i q hq hvq
    rw [h.complete_own hq hvq]
    exact ⟨Record.amend_nonneg hholds v, fun hd => (h.proper hq).amend_dummy hvq hd hholds⟩
  · have hother : ∀ i q, s.record? i = some q → v ∉ q.own := fun i q hq hvq => hown ⟨i, q, hq, hvq⟩
    rw [complete_other hother]
    split
    · next hmem =>
      have hrole := v.bounded_of_client (h.clients v hmem).2 hv
      refine ⟨hbounded v hmem hrole, fun hd => ?_⟩
      rw [hrole] at hd
      cases hd
    · exact ⟨le_refl 0, fun _ => rfl⟩

/-! ## Total costs -/

theorem cost_eq (σ : Assignment Rat) :
    s.cost σ = (s.records.entries.map fun e => e.2.cost σ).sum := by
  unfold cost constraints
  induction s.records.entries with
  | nil => rfl
  | cons e es ih =>
    rw [List.map_cons, List.map_cons, List.sum_cons, ← ih]
    unfold Record.cost
    cases hr : e.2.constraint.isRequired <;> simp [hr]

theorem Books.penalty_complete (h : s.Books V vs) (σ : Assignment Rat) :
    s.penalty (s.complete vs σ) = s.cost σ := by
  rw [cost_eq]
  unfold penalty
  congr 1
  apply List.map_congr_left
  rintro ⟨i, q⟩ he
  have hq : s.record? i = some q := Table.get?_eq_some_iff.2 he
  exact (h.proper hq).penalty_amend fun v hv => h.complete_own hq hv

theorem Books.cost_le_penalty (h : s.Books V vs) (hb : s.Balanced σ)
    (hnn : ∀ v, v.isRestricted = true → 0 ≤ σ v)
    (hw : ∀ id r, s.record? id = some r → 0 ≤ r.constraint.weight) : s.cost σ ≤ s.penalty σ := by
  rw [cost_eq]
  unfold penalty
  apply List.sum_le_sum
  rintro ⟨i, q⟩ he
  have hq : s.record? i = some q := Table.get?_eq_some_iff.2 he
  apply (h.proper hq).cost_le_penalty (hb i q hq) _ (hw i q hq)
  exact fun v hv => hnn v ((h.proper hq).own_restricted hv)

end Solver

end SoftSimplex
