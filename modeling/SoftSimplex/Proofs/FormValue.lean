import Mathlib.Algebra.Order.Field.Rat
import Mathlib.Tactic.FieldSimp
import Mathlib.Tactic.Linarith
import Mathlib.Tactic.Ring
import SoftSimplex.LinearForm.Evaluation
import SoftSimplex.LinearForm.Lemmas
import SoftSimplex.Scalar.Exact

/-!
# Linear forms over the rationals

Every operation on forms has one law for the value of its result; a coefficient is the
difference of two values, so the laws for coefficients follow.
-/

namespace SoftSimplex

namespace LinearForm

variable (σ τ : Assignment Rat)

/-! ## Sums of terms -/

@[simp] theorem evalTerms_nil : evalTerms σ [] = 0 := rfl

@[simp] theorem evalTerms_cons (t : Variable × Rat) (ts : List (Variable × Rat)) :
    evalTerms σ (t :: ts) = t.2 * σ t.1 + evalTerms σ ts := rfl

theorem evalTerms_perm {ts us : List (Variable × Rat)} (h : ts.Perm us) :
    evalTerms σ ts = evalTerms σ us := by
  induction h with
  | nil => rfl
  | cons t _ ih => simp [ih]
  | swap t u ts => simp only [evalTerms_cons]; ring
  | trans _ _ ih₁ ih₂ => exact ih₁.trans ih₂

theorem evalTerms_put (k : Variable) (v : Rat) (ts : List (Variable × Rat)) :
    evalTerms σ (Entries.put k v ts) =
      evalTerms σ ts + (v - (Entries.find? k ts).getD 0) * σ k := by
  induction ts with
  | nil => simp [Entries.put, Entries.find?]
  | cons t ts ih =>
    by_cases h : t.1 = k
    · simp only [Entries.put, Entries.find?, h, if_true, evalTerms_cons, Option.getD_some]
      ring
    · simp only [Entries.put, Entries.find?, h, if_false, evalTerms_cons, ih]
      ring

theorem evalTerms_swapOut (k : Variable) (ts : List (Variable × Rat)) :
    evalTerms σ (Entries.swapOut k ts) =
      evalTerms σ ts - (Entries.find? k ts).getD 0 * σ k := by
  rw [evalTerms_perm σ (Entries.swapOut_perm k ts)]
  induction ts with
  | nil => simp [Entries.find?]
  | cons t ts ih =>
    by_cases h : t.1 = k
    · simp [Entries.find?, h]
    · simp only [List.eraseP_cons, h, decide_false, cond_false, if_false, Entries.find?,
        evalTerms_cons, ih]
      ring

theorem evalTerms_congr {ts : List (Variable × Rat)}
    (h : ∀ v ∈ ts.map Prod.fst, σ v = τ v) : evalTerms σ ts = evalTerms τ ts := by
  induction ts with
  | nil => rfl
  | cons t ts ih =>
    have ht : σ t.1 = τ t.1 := h t.1 (by simp)
    have hts := ih (fun v hv => h v (List.mem_cons_of_mem _ hv))
    simp only [evalTerms_cons, ht, hts]

/-! ## Values -/

theorem eval_eq (f : LinearForm Rat) :
    f.eval σ = f.constant + evalTerms σ f.terms.entries := rfl

/-- Terms that are not negative only add to the constant. -/
theorem constant_le_eval {f : LinearForm Rat} (h : ∀ v ∈ f.vars, 0 ≤ f.coeff v * σ v) :
    f.constant ≤ f.eval σ := by
  have hterms : ∀ ts : List (Variable × Rat), (∀ t ∈ ts, 0 ≤ t.2 * σ t.1) →
      0 ≤ evalTerms σ ts := by
    intro ts
    induction ts with
    | nil => exact fun _ => le_refl 0
    | cons t ts ih =>
      intro hts
      rw [evalTerms_cons]
      exact add_nonneg (hts t List.mem_cons_self)
        (ih fun u hu => hts u (List.mem_cons_of_mem _ hu))
  have hnn := hterms f.terms.entries fun e he => by
    rw [← coeff_of_entry he]
    exact h e.1 (mem_vars_of_entry he)
  rw [eval_eq]
  linarith

/-- Terms that are not positive only take away from the constant. -/
theorem eval_le_constant {f : LinearForm Rat} (h : ∀ v ∈ f.vars, f.coeff v * σ v ≤ 0) :
    f.eval σ ≤ f.constant := by
  have hneg : f.constant ≤ f.eval fun v => -σ v := by
    apply constant_le_eval
    intro v hv
    have hle := h v hv
    linarith
  have hsum : f.eval (fun v => -σ v) + f.eval σ = 2 * f.constant := by
    have hterms : ∀ ts : List (Variable × Rat),
        evalTerms (fun v => -σ v) ts + evalTerms σ ts = 0 := by
      intro ts
      induction ts with
      | nil => simp
      | cons t ts ih =>
        rw [evalTerms_cons, evalTerms_cons]
        linarith
    have hzero := hterms f.terms.entries
    rw [eval_eq, eval_eq]
    linarith
  linarith

/-- A form's value depends on its own variables only. -/
theorem eval_congr {f : LinearForm Rat} (h : ∀ v ∈ f.vars, σ v = τ v) :
    f.eval σ = f.eval τ := by
  rw [eval_eq, eval_eq, evalTerms_congr σ τ h]

@[simp] theorem eval_const (k : Rat) : (const k).eval σ = k := by
  show k + evalTerms σ [] = k
  simp

@[simp] theorem eval_zero_form : (0 : LinearForm Rat).eval σ = 0 := eval_const σ 0

theorem eval_insert (f : LinearForm Rat) (v : Variable) (c : Rat) :
    ({ f with terms := f.terms.insert v c } : LinearForm Rat).eval σ =
      f.eval σ + (c - f.coeff v) * σ v := by
  rw [eval_eq, eval_eq, coeff_eq]
  show f.constant + evalTerms σ (Entries.put v c f.terms.entries) = _
  rw [evalTerms_put]
  show _ = _ + (c - (Entries.find? v f.terms.entries).getD 0) * σ v
  ring

theorem eval_erase (f : LinearForm Rat) (v : Variable) :
    (f.erase v).eval σ = f.eval σ - f.coeff v * σ v := by
  rw [eval_eq, eval_eq, coeff_eq]
  show f.constant + evalTerms σ (Entries.swapOut v f.terms.entries) = _
  rw [evalTerms_swapOut]
  show _ = _ - (Entries.find? v f.terms.entries).getD 0 * σ v
  ring

@[simp] theorem eval_shift (f : LinearForm Rat) (k : Rat) :
    (f.shift k).eval σ = f.eval σ + k := by
  rw [eval_eq, eval_eq]
  show f.constant + k + evalTerms σ f.terms.entries = _
  ring

@[simp] theorem eval_addTerm (f : LinearForm Rat) (v : Variable) (c : Rat) :
    (f.addTerm v c).eval σ = f.eval σ + c * σ v := by
  unfold addTerm
  cases h : f.terms.get? v with
  | some old =>
    have ho : f.coeff v = old := coeff_of_get? h
    by_cases hn : Scalar.negligible (old + c) = true
    · have h0 : old + c = 0 := (Scalar.negligible_rat _).1 hn
      simp only [hn, if_true, eval_erase, ho]
      rw [show c = -old by linarith]
      ring
    · simp only [hn, Bool.false_eq_true, if_false, eval_insert, ho]
      show f.eval σ + (old + c - old) * σ v = f.eval σ + c * σ v
      ring
  | none =>
    by_cases hn : Scalar.negligible c = true
    · have h0 : c = 0 := (Scalar.negligible_rat _).1 hn
      simp [h0]
    · have ho : f.coeff v = 0 := by rw [coeff_eq, h]; rfl
      simp only [hn, Bool.false_eq_true, if_false, eval_insert, ho]
      ring

theorem eval_term (v : Variable) (c : Rat) : (term v c).eval σ = c * σ v := by
  unfold term
  rw [eval_addTerm, eval_zero_form, zero_add]

theorem eval_var (v : Variable) : (var v).eval σ = σ v :=
  (eval_term σ v 1).trans (one_mul _)

@[simp] theorem eval_addTerms (f : LinearForm Rat) (ts : List (Variable × Rat)) :
    (f.addTerms ts).eval σ = f.eval σ + evalTerms σ ts := by
  induction ts generalizing f with
  | nil => simp [addTerms]
  | cons t ts ih =>
    rw [addTerms, ih, eval_addTerm, evalTerms_cons]
    ring

theorem evalTerms_map_mul (m : Rat) (ts : List (Variable × Rat)) :
    evalTerms σ (ts.map fun t => (t.1, t.2 * m)) = evalTerms σ ts * m := by
  induction ts with
  | nil => simp
  | cons t ts ih =>
    simp only [List.map_cons, evalTerms_cons, ih]
    ring

@[simp] theorem eval_addScaled (f g : LinearForm Rat) (m : Rat) :
    (f.addScaled g m).eval σ = f.eval σ + g.eval σ * m := by
  unfold addScaled
  rw [eval_addTerms, eval_shift]
  show _ + evalTerms σ (g.terms.entries.map fun t => (t.1, t.2 * m)) = _
  rw [evalTerms_map_mul, eval_eq σ g]
  show f.eval σ + g.constant * m + _ = _
  ring

@[simp] theorem eval_scale (f : LinearForm Rat) (k : Rat) :
    (f.scale k).eval σ = f.eval σ * k := by
  rw [eval_eq, eval_eq]
  show f.constant * k + evalTerms σ (f.terms.entries.map fun t => (t.1, t.2 * k)) = _
  rw [evalTerms_map_mul]
  ring

@[simp] theorem eval_negate (f : LinearForm Rat) : f.negate.eval σ = -f.eval σ := by
  show (f.scale (-1)).eval σ = -f.eval σ
  rw [eval_scale]
  ring

/-- Solving for a variable: the form is zero exactly where the variable equals the result. -/
theorem eval_isolate_iff (f : LinearForm Rat) {v : Variable} (h : f.coeff v ≠ 0) :
    σ v = (f.isolate v).eval σ ↔ f.eval σ = 0 := by
  unfold isolate
  rw [get?_of_mem (mem_vars_of_coeff h)]
  show σ v = ((f.erase v).scale (-1 / f.coeff v)).eval σ ↔ _
  rw [eval_scale, eval_erase]
  have key : (f.eval σ - f.coeff v * σ v) * (-1 / f.coeff v) =
      σ v - f.eval σ / f.coeff v := by
    field_simp
    ring
  rw [key]
  constructor
  · intro hz
    have hd : f.eval σ / f.coeff v = 0 := by linarith
    exact (div_eq_zero_iff.1 hd).resolve_right h
  · intro hz
    simp [hz]

/-- Substitution does not change the value where the variable equals what replaces it. -/
theorem eval_substitute (f g : LinearForm Rat) {v : Variable} (h : σ v = g.eval σ) :
    (f.substitute v g).eval σ = f.eval σ := by
  by_cases hv : v ∈ f.vars
  · rw [substitute_of_mem hv, eval_addScaled, eval_erase, ← h]
    ring
  · rw [substitute_of_not_mem hv]

/-- The exchanged row says the same about the two variables as the row did. -/
theorem eval_exchange_iff (f : LinearForm Rat) {old new : Variable} (hne : new ≠ old)
    (h : f.coeff new ≠ 0) :
    σ new = (f.exchange old new).eval σ ↔ σ old = f.eval σ := by
  have hc : (f.addTerm old (-1)).coeff new = f.coeff new := by
    rw [coeff_eq, get?_addTerm_of_ne f hne, ← coeff_eq]
  unfold exchange
  rw [eval_isolate_iff σ _ (by rw [hc]; exact h), eval_addTerm]
  constructor <;> intro he <;> linarith

/-! ## Coefficients and constants -/

def unit (v : Variable) : Assignment Rat := fun w => if w = v then 1 else 0

@[simp] theorem unit_self (v : Variable) : unit v v = 1 := if_pos rfl

theorem unit_of_ne {v w : Variable} (h : w ≠ v) : unit v w = 0 := if_neg h

theorem eval_at_zero (f : LinearForm Rat) : f.eval (fun _ => 0) = f.constant := by
  have hz : ∀ ts : List (Variable × Rat), evalTerms (fun _ => (0 : Rat)) ts = 0 := by
    intro ts
    induction ts with
    | nil => rfl
    | cons t ts ih => simp [ih]
  rw [eval_eq, hz]
  ring

theorem eval_unit (f : LinearForm Rat) (v : Variable) :
    f.eval (unit v) = f.constant + f.coeff v := by
  have he : (f.erase v).eval (unit v) = (f.erase v).eval (fun _ => 0) :=
    eval_congr _ _ (fun w hw => unit_of_ne (mem_vars_erase.1 hw).1)
  have hc : (f.erase v).constant = f.constant := rfl
  rw [eval_erase, eval_at_zero, hc, unit_self] at he
  linarith

theorem coeff_eq_eval (f : LinearForm Rat) (v : Variable) :
    f.coeff v = f.eval (unit v) - f.eval (fun _ => 0) := by
  rw [eval_unit, eval_at_zero]
  ring

@[simp] theorem constant_scale (f : LinearForm Rat) (k : Rat) :
    (f.scale k).constant = f.constant * k := rfl

@[simp] theorem constant_erase (f : LinearForm Rat) (v : Variable) :
    (f.erase v).constant = f.constant := rfl

theorem coeff_addTerm (f : LinearForm Rat) (v : Variable) (c : Rat) (w : Variable) :
    (f.addTerm v c).coeff w = f.coeff w + if w = v then c else 0 := by
  simp only [coeff_eq_eval, eval_addTerm]
  by_cases h : w = v
  · subst h
    rw [unit_self, if_pos rfl]
    ring
  · rw [unit_of_ne (Ne.symm h), if_neg h]
    ring

@[simp] theorem coeff_addScaled (f g : LinearForm Rat) (m : Rat) (w : Variable) :
    (f.addScaled g m).coeff w = f.coeff w + g.coeff w * m := by
  simp only [coeff_eq_eval, eval_addScaled]
  ring

@[simp] theorem coeff_scale (f : LinearForm Rat) (k : Rat) (w : Variable) :
    (f.scale k).coeff w = f.coeff w * k := by
  simp only [coeff_eq_eval, eval_scale]
  ring

theorem coeff_erase (f : LinearForm Rat) (v w : Variable) :
    (f.erase v).coeff w = if w = v then 0 else f.coeff w := by
  rw [coeff_eq, get?_erase]
  split <;> rfl

@[simp] theorem coeff_shift (f : LinearForm Rat) (k : Rat) (w : Variable) :
    (f.shift k).coeff w = f.coeff w := rfl

theorem coeff_isolate {f : LinearForm Rat} {v w : Variable} (h : v ∈ f.vars) (hne : w ≠ v) :
    (f.isolate v).coeff w = f.coeff w * (-1 / f.coeff v) := by
  unfold isolate
  rw [get?_of_mem h]
  show ((f.erase v).scale (-1 / f.coeff v)).coeff w = _
  rw [coeff_scale, coeff_erase, if_neg hne]

theorem constant_substitute (f g : LinearForm Rat) (v : Variable) :
    (f.substitute v g).constant = f.constant + g.constant * f.coeff v := by
  by_cases h : v ∈ f.vars
  · exact constant_substitute_of_mem h g
  · rw [substitute_of_not_mem h, coeff_of_not_mem h]
    ring

theorem coeff_substitute (f g : LinearForm Rat) {v w : Variable} (hne : w ≠ v) :
    (f.substitute v g).coeff w = f.coeff w + g.coeff w * f.coeff v := by
  by_cases h : v ∈ f.vars
  · rw [substitute_of_mem h, coeff_addScaled, coeff_erase, if_neg hne]
  · rw [substitute_of_not_mem h, coeff_of_not_mem h]
    ring

section Exchange

variable {f : LinearForm Rat} {old new : Variable}

theorem constant_exchange (hne : new ≠ old) (h : new ∈ f.vars) :
    (f.exchange old new).constant = -f.constant / f.coeff new := by
  unfold exchange
  rw [constant_isolate ((mem_vars_addTerm_of_ne hne).2 h), constant_addTerm, coeff_addTerm,
    if_neg hne]
  ring

theorem coeff_exchange_old (hne : new ≠ old) (h : new ∈ f.vars) (ho : old ∉ f.vars) :
    (f.exchange old new).coeff old = 1 / f.coeff new := by
  unfold exchange
  rw [coeff_isolate ((mem_vars_addTerm_of_ne hne).2 h) hne.symm, coeff_addTerm, coeff_addTerm,
    if_neg hne, if_pos rfl, coeff_of_not_mem ho]
  ring

theorem coeff_exchange_of_ne (hne : new ≠ old) (h : new ∈ f.vars) {w : Variable}
    (hold : w ≠ old) (hnew : w ≠ new) :
    (f.exchange old new).coeff w = -f.coeff w / f.coeff new := by
  unfold exchange
  rw [coeff_isolate ((mem_vars_addTerm_of_ne hne).2 h) hnew, coeff_addTerm, coeff_addTerm,
    if_neg hne, if_neg hold]
  ring

end Exchange

end LinearForm

end SoftSimplex
