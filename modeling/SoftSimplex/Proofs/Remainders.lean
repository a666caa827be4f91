import Mathlib.Algebra.Order.Ring.Abs
import SoftSimplex.Proofs.Coarse

/-!
# What is dropped

Where a sum is dropped although it is not zero, the value of the form changes. `remainders` lists
what is dropped, one remainder for each term that is added, whatever is merged, cancelled or dropped
on the way: put back, they give exactly the value that the sum should have, and each of them is
below the bound. A form drifts no further than that, and substitution no further than the addition
in it.
-/

namespace SoftSimplex

namespace LinearForm

variable (f g : LinearForm Coarse) (σ : Assignment Rat)

def ratTerms (ts : List (Variable × Coarse)) : List (Variable × Rat) := ts

theorem ratTerms_cons (t : Variable × Coarse) (ts : List (Variable × Coarse)) :
    ratTerms (t :: ts) = (t.1, t.2.toRat) :: ratTerms ts := rfl

theorem ratTerms_scaledTerms (m : Coarse) :
    ratTerms (g.scaledTerms m) = g.toRat.scaledTerms m.toRat := rfl

/-! ## One term -/

/-- By how much the coefficient of `v` falls short once `c · v` was added. -/
def remainder (v : Variable) (c : Coarse) : Rat :=
  (f.coeff v).toRat + c.toRat - ((f.addTerm v c).coeff v).toRat

theorem remainder_cases (v : Variable) (c : Coarse) :
    (f.addTerm v c = f.erase v ∧ f.remainder v c = (f.coeff v).toRat + c.toRat ∧
      |f.remainder v c| < Coarse.bound) ∨
    (f.addTerm v c = { f with terms := f.terms.insert v (f.coeff v + c) } ∧
      f.remainder v c = 0) := by
  unfold remainder
  rcases f.addTerm_dropped_or_stored v c with ⟨hdropped, hsmall⟩ | hstored
  · have hcoeff : ((f.erase v).coeff v).toRat = 0 := by
      rw [coeff_of_not_mem fun hv => (mem_vars_erase.1 hv).1 rfl]
      rfl
    rw [hdropped, hcoeff, sub_zero]
    exact .inl ⟨rfl, rfl, hsmall⟩
  · have hcoeff : ((f.addTerm v c).coeff v).toRat = (f.coeff v).toRat + c.toRat := by
      rw [hstored, coeff_eq, Table.get?_insert, if_pos rfl]
      rfl
    rw [hcoeff, sub_self]
    exact .inr ⟨hstored, rfl⟩

theorem abs_remainder_le (v : Variable) (c : Coarse) : |f.remainder v c| ≤ Coarse.bound := by
  rcases f.remainder_cases v c with ⟨-, -, hsmall⟩ | ⟨-, hzero⟩
  · exact hsmall.le
  · rw [hzero, abs_zero]
    exact Coarse.bound_pos.le

/-- With the remainder put back, the value is that of the sum. -/
theorem eval_addTerm_add_remainder (v : Variable) (c : Coarse) :
    (f.addTerm v c).toRat.eval σ + f.remainder v c * σ v = f.toRat.eval σ + c.toRat * σ v := by
  rcases f.remainder_cases v c with ⟨hdropped, hrest, -⟩ | ⟨hstored, hrest⟩
  · rw [hdropped, hrest, toRat_erase, eval_erase, coeff_toRat]
    ring
  · have hvalue : (f.addTerm v c).toRat.eval σ =
        f.toRat.eval σ + ((f.coeff v).toRat + c.toRat - (f.coeff v).toRat) * σ v := by
      rw [hstored]
      exact eval_insert σ f.toRat v ((f.coeff v).toRat + c.toRat)
    rw [hvalue, hrest]
    ring

/-! ## Runs -/

/-- What is dropped while terms are added one after another. -/
def remainders (f : LinearForm Coarse) : List (Variable × Coarse) → List (Variable × Rat)
  | [] => []
  | t :: ts => (t.1, f.remainder t.1 t.2) :: (f.addTerm t.1 t.2).remainders ts

theorem map_fst_remainders (ts : List (Variable × Coarse)) :
    (f.remainders ts).map Prod.fst = ts.map Prod.fst := by
  induction ts generalizing f with
  | nil => rfl
  | cons t ts ih => rw [remainders, List.map_cons, List.map_cons, ih]

theorem abs_remainders_le (ts : List (Variable × Coarse)) :
    ∀ t ∈ f.remainders ts, |t.2| ≤ Coarse.bound := by
  induction ts generalizing f with
  | nil =>
    intro t ht
    cases ht
  | cons u ts ih =>
    intro t ht
    rcases List.mem_cons.1 ht with rfl | ht
    · exact f.abs_remainder_le u.1 u.2
    · exact ih _ t ht

theorem eval_addTerms_add_remainders (ts : List (Variable × Coarse)) :
    (f.addTerms ts).toRat.eval σ + evalTerms σ (f.remainders ts) =
      f.toRat.eval σ + evalTerms σ (ratTerms ts) := by
  induction ts generalizing f with
  | nil => rfl
  | cons t ts ih =>
    have hstep := f.eval_addTerm_add_remainder σ t.1 t.2
    have hrest := ih (f.addTerm t.1 t.2)
    rw [addTerms, remainders, ratTerms_cons, evalTerms_cons, evalTerms_cons]
    linarith

/-- Small coefficients make a small sum. -/
theorem abs_evalTerms_le {ε : Rat} {ts : List (Variable × Rat)} (h : ∀ t ∈ ts, |t.2| ≤ ε) :
    |evalTerms σ ts| ≤ ε * ((ts.map Prod.fst).map fun v => |σ v|).sum := by
  induction ts with
  | nil => simp
  | cons t ts ih =>
    have hhead : |t.2 * σ t.1| ≤ ε * |σ t.1| := by
      rw [abs_mul]
      exact mul_le_mul_of_nonneg_right (h t List.mem_cons_self) (abs_nonneg _)
    have htail := ih fun u hu => h u (List.mem_cons_of_mem _ hu)
    calc |evalTerms σ (t :: ts)| ≤ |t.2 * σ t.1| + |evalTerms σ ts| := abs_add_le _ _
      _ ≤ ε * |σ t.1| + ε * ((ts.map Prod.fst).map fun v => |σ v|).sum := add_le_add hhead htail
      _ = _ := by rw [List.map_cons, List.map_cons, List.sum_cons, mul_add]

/-! ## Sums and substitutions -/

/-- How far from zero the variables of `g` are, taken together. -/
def spread : Rat := (g.vars.map fun v => |σ v|).sum

theorem abs_eval_addScaled_sub_le (m : Coarse) :
    |(f.addScaled g m).toRat.eval σ - (f.toRat.eval σ + m.toRat * g.toRat.eval σ)| ≤
      Coarse.bound * g.spread σ := by
  set h := f.shift (g.constant * m) with hshift
  have hsum : (f.addScaled g m).toRat.eval σ + evalTerms σ (h.remainders (g.scaledTerms m)) =
      f.toRat.eval σ + m.toRat * g.toRat.eval σ := by
    have hrun := h.eval_addTerms_add_remainders σ (g.scaledTerms m)
    have hterms : evalTerms σ (g.toRat.scaledTerms m.toRat) =
        evalTerms σ g.toRat.terms.entries * m.toRat := evalTerms_map_mul σ m.toRat _
    have hconstant : (g.constant * m).toRat = g.toRat.constant * m.toRat := rfl
    rw [ratTerms_scaledTerms, hterms, hshift, toRat_shift, eval_shift, hconstant] at hrun
    have hvalue := eval_eq σ g.toRat
    rw [hvalue]
    exact hrun.trans (by ring)
  have hdropped := abs_evalTerms_le σ (h.abs_remainders_le (g.scaledTerms m))
  rw [map_fst_remainders, map_fst_scaledTerms] at hdropped
  rw [← hsum, sub_add_cancel_left, abs_neg]
  exact hdropped

theorem abs_eval_substitute_sub_le {v : Variable} (hv : v ∈ f.vars) (h : σ v = g.toRat.eval σ) :
    |(f.substitute v g).toRat.eval σ - f.toRat.eval σ| ≤ Coarse.bound * g.spread σ := by
  have hsum := abs_eval_addScaled_sub_le (f.erase v) g σ (f.coeff v)
  have hvalue : (f.erase v).toRat.eval σ + (f.coeff v).toRat * g.toRat.eval σ =
      f.toRat.eval σ := by
    rw [toRat_erase, eval_erase, coeff_toRat, h]
    ring
  rwa [substitute_of_mem hv, ← hvalue]

/-- In rational arithmetic with the tolerance of the doubles: adding `m` times `g` changes the value
by `m` times that of `g`, up to the bound times the distances of the variables of `g` from zero, and
replacing `v` by a form of the same value changes the value by no more than that, even if the form
mentions `v`. -/
theorem value_drift_le (f g : LinearForm Coarse) (m : Coarse) (σ : Assignment Rat) :
    |(f.addScaled g m).toRat.eval σ - (f.toRat.eval σ + m.toRat * g.toRat.eval σ)| ≤
      Coarse.bound * g.spread σ ∧
    ∀ v ∈ f.vars, σ v = g.toRat.eval σ →
      |(f.substitute v g).toRat.eval σ - f.toRat.eval σ| ≤ Coarse.bound * g.spread σ :=
  ⟨f.abs_eval_addScaled_sub_le g σ m, fun _ hv h => f.abs_eval_substitute_sub_le g σ hv h⟩

/-- In `x + y`, `x` is replaced by a form that mentions it and leaves a billionth of `y`, which is
dropped. Where `y` is a billion, the value is off by one. -/
theorem value_drift_of_own_mention :
    ∃ (f g : LinearForm Coarse) (x : Variable) (σ : Assignment Rat),
      x ∈ f.vars ∧ x ∈ g.vars ∧ σ x = g.toRat.eval σ ∧ (f.substitute x g).vars = [x] ∧
      (f.substitute x g).toRat.eval σ = f.toRat.eval σ - 1 ∧
      |(f.substitute x g).toRat.eval σ - f.toRat.eval σ| ≤ Coarse.bound * g.spread σ := by
  let x : Variable := ⟨0, .free⟩
  let y : Variable := ⟨1, .free⟩
  let f : LinearForm Coarse := (var x).addTerm y 1
  let g : LinearForm Coarse :=
    (term x (.ofRat (1 / 2))).addTerm y (.ofRat (-1 + 1 / 1000000000))
  let σ : Assignment Rat := fun v => if v = x then 2 - 2000000000 else 1000000000
  have hx : x ∈ f.vars := by decide +kernel
  have hvalue : σ x = g.toRat.eval σ := by decide +kernel
  exact ⟨f, g, x, σ, hx, by decide +kernel, hvalue, by decide +kernel, by decide +kernel,
    (value_drift_le f g 1 σ).2 x hx hvalue⟩

end LinearForm

end SoftSimplex
