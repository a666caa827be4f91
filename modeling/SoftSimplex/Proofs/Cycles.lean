import Mathlib.Data.Finset.Max
import Mathlib.Data.Finset.Range
import SoftSimplex.Proofs.PivotRule

/-!
# Exchanges by the rule never lead back

Suppose that exchanges by the rule of lowest numbers led from a tableau to one with the same basic
variables. Then the point never moved, and whatever entered on the way also left. Take the highest
variable that entered, once where it enters and once where it leaves. The ray of the variable that
takes its place there lowers the goal; in the tableau where the highest variable enters, this needs
a term that falls, and the rule should have preferred the variable of that term.
-/

namespace SoftSimplex

open LinearForm

namespace Tableau

/-- Exchanges by the rule from a tableau to one with the same basic variables. -/
structure Cycle (V : Variable → Prop) (goal : Tableau Rat → LinearForm Rat) where
  length : Nat
  state : Nat → Tableau Rat
  entry : Nat → Variable
  exit : Nat → Variable
  positive : 0 < length
  descends : ∀ i < length, Descends V goal (state i) (state (i + 1)) (entry i) (exit i)
  closes : ∀ v, (state 0).row? v = none ↔ (state length).row? v = none

namespace Cycle

variable {V : Variable → Prop} {goal : Tableau Rat → LinearForm Rat} (c : Cycle V goal)
variable {i j : Nat} {v : Variable}

theorem tidy (hV : Numbered V) (hi : i ≤ c.length) : (c.state i).Tidy V := by
  cases i with
  | zero => exact (c.descends 0 c.positive).tidy
  | succ i => exact (c.descends i hi).tidy_after hV

theorem recast (hi : i ≤ c.length) : (c.state i).Recast (c.state 0) := by
  induction i with
  | zero => exact Recast.refl _
  | succ i ih => exact (c.descends i hi).recast.trans (ih (Nat.le_of_lt hi))

/-- The goal has the same values all the way round. -/
theorem goal_eq (hgoal : Goal goal) (hi : i ≤ c.length) (hj : j ≤ c.length)
    {σ : Assignment Rat} (hσ : (c.state i).Solves σ) :
    (goal (c.state i)).eval σ = (goal (c.state j)).eval σ := by
  have h₀ := ((c.recast hi).solves σ).1 hσ
  rw [hgoal.recast (c.recast hi) h₀, hgoal.recast (c.recast hj) h₀]

/-! ## What enters leaves again -/

theorem stays_nonbasic (hv : ∀ k < c.length, c.entry k ≠ v) (hij : i ≤ j) (hj : j ≤ c.length)
    (hi : (c.state i).row? v = none) : (c.state j).row? v = none := by
  induction j, hij using Nat.le_induction with
  | base => exact hi
  | succ j _ ih => exact (c.descends j hj).nonbasic (hv j hj).symm (ih (Nat.le_of_lt hj))

theorem stays_basic (hv : ∀ k < c.length, c.exit k ≠ v) (hij : i ≤ j) (hj : j ≤ c.length)
    (hi : (c.state i).row? v ≠ none) : (c.state j).row? v ≠ none := by
  induction j, hij using Nat.le_induction with
  | base => exact hi
  | succ j _ ih => exact (c.descends j hj).basic (hv j hj).symm (ih (Nat.le_of_lt hj))

/-- What is basic at one place and not at another enters somewhere. -/
theorem exists_entry (hi : i ≤ c.length) (hj : j ≤ c.length) (hin : (c.state i).row? v ≠ none)
    (hout : (c.state j).row? v = none) : ∃ k < c.length, c.entry k = v := by
  by_contra hno
  have hnever : ∀ k < c.length, c.entry k ≠ v := fun k hk he => hno ⟨k, hk, he⟩
  have hend := c.stays_nonbasic hnever hj (Nat.le_refl _) hout
  exact hin (c.stays_nonbasic hnever (Nat.zero_le i) hi ((c.closes v).2 hend))

theorem exists_exit (hi : i < c.length) : ∃ k < c.length, c.exit k = c.entry i := by
  by_contra hno
  have hnever : ∀ k < c.length, c.exit k ≠ c.entry i := fun k hk he => hno ⟨k, hk, he⟩
  have hend := c.stays_basic hnever hi (Nat.le_refl _) (c.descends i hi).entry_basic
  have hstart := mt (c.closes _).1 hend
  exact c.stays_basic hnever (Nat.zero_le i) (Nat.le_of_lt hi) hstart
    (c.descends i hi).entry_nonbasic

/-- Of the variables that enter there is a highest. -/
theorem exists_highest :
    ∃ m < c.length, ∀ k < c.length, (c.entry k).id ≤ (c.entry m).id := by
  have hne : (Finset.range c.length).Nonempty := ⟨0, Finset.mem_range.2 c.positive⟩
  obtain ⟨m, hm, hmax⟩ := Finset.exists_max_image (Finset.range c.length)
    (fun k => (c.entry k).id) hne
  exact ⟨m, Finset.mem_range.1 hm, fun k hk => hmax k (Finset.mem_range.2 hk)⟩

/-! ## The point stays -/

theorem constant_le (hV : Numbered V) (hgoal : Goal goal) (hij : i ≤ j) (hj : j ≤ c.length) :
    (goal (c.state j)).constant ≤ (goal (c.state i)).constant := by
  induction j, hij using Nat.le_induction with
  | base => exact le_refl _
  | succ j _ ih =>
    obtain ⟨y, hy, -, hvalue⟩ := (c.descends j hj).point_eq_ray hV hgoal
    have hfall := mul_nonpos_of_nonpos_of_nonneg (le_of_lt (c.descends j hj).picks.lowers) hy
    have hrest := ih (Nat.le_of_lt hj)
    linarith

/-- The same variables without rows stand at the same point. -/
theorem point_end (hV : Numbered V) : (c.state c.length).point = (c.state 0).point := by
  have hend := (c.tidy hV (Nat.le_refl _)).wellFormed.solves_point
  have hstart := (c.tidy hV (Nat.zero_le _)).wellFormed
  apply hstart.eq_of_nonbasic (((c.recast (Nat.le_refl _)).solves _).1 hend) hstart.solves_point
  intro v hv
  rw [point_of_nonbasic hv, point_of_nonbasic ((c.closes v).1 hv)]

theorem constant_end (hV : Numbered V) (hgoal : Goal goal) :
    (goal (c.state c.length)).constant = (goal (c.state 0)).constant := by
  have hend := (c.tidy hV (Nat.le_refl _)).wellFormed
  have hstart := (c.tidy hV (Nat.zero_le _)).wellFormed
  calc (goal (c.state c.length)).constant
      = (goal (c.state c.length)).eval (c.state c.length).point :=
        (eval_point fun v hv => hgoal.nonbasic hend hv).symm
    _ = (goal (c.state 0)).eval (c.state c.length).point :=
        c.goal_eq hgoal (Nat.le_refl _) (Nat.zero_le _) hend.solves_point
    _ = (goal (c.state 0)).eval (c.state 0).point := by rw [c.point_end hV]
    _ = (goal (c.state 0)).constant := eval_point fun v hv => hgoal.nonbasic hstart hv

/-- The goal comes back to its value, so it never falls. -/
theorem constant_eq (hV : Numbered V) (hgoal : Goal goal) (hi : i ≤ c.length) :
    (goal (c.state i)).constant = (goal (c.state 0)).constant := by
  apply le_antisymm (c.constant_le hV hgoal (Nat.zero_le i) hi)
  rw [← c.constant_end hV hgoal]
  exact c.constant_le hV hgoal hi (Nat.le_refl _)

/-- What enters cannot rise, or the goal would fall. -/
theorem point_eq (hV : Numbered V) (hgoal : Goal goal) (hi : i ≤ c.length) :
    (c.state i).point = (c.state 0).point := by
  induction i with
  | zero => rfl
  | succ i ih =>
    have h := c.descends i hi
    obtain ⟨y, -, hpoint, hvalue⟩ := h.point_eq_ray hV hgoal
    rw [c.constant_eq hV hgoal hi, c.constant_eq hV hgoal (Nat.le_of_lt hi)] at hvalue
    have hzero : (goal (c.state i)).coeff (c.entry i) * y = 0 := by linarith
    have hy : y = 0 := (mul_eq_zero.1 hzero).resolve_left (ne_of_lt h.picks.lowers)
    rw [hpoint, hy, ray_zero, ih (Nat.le_of_lt hi)]

/-- A row that is there at one place and not at another has the constant zero. -/
theorem constant_eq_zero (hV : Numbered V) (hgoal : Goal goal) (hi : i ≤ c.length)
    (hj : j ≤ c.length) {f : LinearForm Rat} (hf : (c.state i).row? v = some f)
    (hv : (c.state j).row? v = none) : f.constant = 0 := by
  rw [← point_of_basic hf, c.point_eq hV hgoal hi, ← c.point_eq hV hgoal hj,
    point_of_nonbasic hv]

/-! ## The contradiction -/

/-- Letting what enters at `i` rise lowers the goal, so in every other tableau of the cycle some
term of the goal falls. -/
theorem exists_falling (hV : Numbered V) (hgoal : Goal goal) (hi : i < c.length)
    (hj : j ≤ c.length) : ∃ v, (c.state j).row? v = none ∧
      (goal (c.state j)).coeff v * (c.state i).ray (c.entry i) 1 v < 0 := by
  have hwf := (c.descends i hi).tidy.wellFormed
  have hwf' := (c.tidy hV hj).wellFormed
  have hi' := Nat.le_of_lt hi
  set σ := (c.state i).ray (c.entry i) 1 with hσ
  have hfalls : (goal (c.state j)).eval σ < (goal (c.state j)).eval (c.state j).point :=
    calc (goal (c.state j)).eval σ
        = (goal (c.state i)).eval σ := (c.goal_eq hgoal hi' hj (hwf.solves_ray _ _)).symm
      _ = (goal (c.state i)).constant + (goal (c.state i)).coeff (c.entry i) * 1 :=
          eval_ray fun v hv => hgoal.nonbasic hwf hv
      _ < (goal (c.state i)).constant := by linarith [(c.descends i hi).picks.lowers]
      _ = (goal (c.state j)).constant := by
          rw [c.constant_eq hV hgoal hi', c.constant_eq hV hgoal hj]
      _ = (goal (c.state j)).eval (c.state j).point :=
          (eval_point fun v hv => hgoal.nonbasic hwf' hv).symm
  obtain ⟨v, hv, hterm⟩ := exists_term_lt hfalls
  have hnone := hgoal.nonbasic hwf' hv
  rw [point_of_nonbasic hnone, mul_zero] at hterm
  exact ⟨v, hnone, hterm⟩

/-- There is no cycle. -/
theorem impossible (c : Cycle V goal) (hV : Numbered V) (hgoal : Goal goal) : False := by
  obtain ⟨m, hm, hhighest⟩ := c.exists_highest
  obtain ⟨l, hl, hexit⟩ := c.exists_exit hm
  have henters := c.descends m hm
  have hleaves := c.descends l hl
  have hml := Nat.le_of_lt hm
  have hll := Nat.le_of_lt hl
  obtain ⟨v, hopen, hterm⟩ := c.exists_falling hV hgoal hl hml
  obtain ⟨row, hrow, hneg, hfirst⟩ := hleaves.picks.first
  rw [hexit] at hrow hfirst
  have hdistinct : ∀ w, V w → w ≠ c.entry m → w.id ≤ (c.entry m).id → w.id < (c.entry m).id :=
    fun w hw hne hle =>
      lt_of_le_of_ne hle fun hid => hne (hV w _ hw (hleaves.tidy.within.row hrow).1 hid)
  cases hb : (c.state l).row? v with
  | none =>
    -- only the variable that takes the place of the highest one moves without a row
    by_cases hv : v = c.entry l
    · subst hv
      rw [ray_self hb, mul_one] at hterm
      have hhigh := henters.picks.lowest _ hleaves.picks.mayEnter hterm
      have hne : c.entry l ≠ c.entry m := by
        rw [← hexit]
        exact hleaves.entry_ne_exit
      obtain ⟨hin, hvars⟩ := hleaves.tidy.within.row hrow
      have hlow := hdistinct _ (hvars _ (mem_vars_of_coeff (ne_of_lt hneg))) hne (hhighest l hl)
      omega
    · rw [ray_of_nonbasic hb hv, mul_zero] at hterm
      exact lt_irrefl _ hterm
  | some f =>
    have hzero := c.constant_eq_zero hV hgoal hll hml hb hopen
    rw [ray_of_basic hb, hzero, zero_add, mul_one] at hterm
    by_cases hv : v = c.entry m
    · -- the highest variable falls where it leaves and lowers the goal where it enters
      subst hv
      cases hrow.symm.trans hb
      exact absurd (mul_pos_of_neg_of_neg henters.picks.lowers hneg) (not_lt.2 (le_of_lt hterm))
    · obtain ⟨k, hk, hkv⟩ := c.exists_entry hll hml (by rw [hb]; exact Option.some_ne_none f) hopen
      have hmay : v.mayEnter = true := hkv ▸ (c.descends k hk).picks.mayEnter
      have hlow := hdistinct v (hleaves.tidy.within.row hb).1 hv (hkv ▸ hhighest k hk)
      rcases lt_or_ge ((goal (c.state m)).coeff v) 0 with hcoeff | hcoeff
      · -- it should have entered in the place of the highest one
        have hhigh := henters.picks.lowest v hmay hcoeff
        omega
      · -- it falls, from zero like the highest one, and should have left in its place
        have hfall : f.coeff (c.entry l) < 0 := by
          by_contra hrise
          exact absurd hterm (not_lt.2 (mul_nonneg hcoeff (not_lt.1 hrise)))
        have hsame := c.constant_eq_zero hV hgoal hll hml hrow henters.entry_nonbasic
        have hbefore := hfirst v f hb (Variable.isRestricted_of_mayEnter hmay) hfall
        rw [hsame, hzero] at hbefore
        rcases hbefore with hlt | ⟨-, hhigh⟩
        · simp at hlt
        · have hhigh : (c.entry m).id ≤ v.id := hhigh
          omega

end Cycle

end Tableau

end SoftSimplex
