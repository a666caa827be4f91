import SoftSimplex.Proofs.Passes
import SoftSimplex.Proofs.Rays

/-!
# The rule of lowest numbers

The two primal passes look for the entering variable in different places, one in the candidates and
one in the artificial objective, but follow one rule: the lowest variable enters that may do so and
lowers the goal, and among the restricted rows that reach zero first the lowest leaves. An exchange
by the rule moves the point along the ray of the entering variable.
-/

namespace SoftSimplex

open LinearForm

theorem Variable.isRestricted_of_mayEnter {v : Variable} (h : v.mayEnter = true) :
    v.isRestricted = true := by
  unfold mayEnter at h
  unfold isRestricted
  cases hrole : v.role <;> simp [hrole] at h ⊢

namespace Tableau

variable {V : Variable → Prop} {goal : Tableau Rat → LinearForm Rat} {t t' : Tableau Rat}
variable {entry exit v : Variable}

/-- The exchange that the rule picks in order to lower `g`. Free rows never leave, and what may not
enter, such as a dummy, does not. -/
structure Picks (t : Tableau Rat) (g : LinearForm Rat) (entry exit : Variable) : Prop where
  mayEnter : entry.mayEnter = true
  lowers : g.coeff entry < 0
  lowest : ∀ v, v.mayEnter = true → g.coeff v < 0 → entry.id ≤ v.id
  restricted : exit.isRestricted = true
  first : ∃ row, t.row? exit = some row ∧ row.coeff entry < 0 ∧
    ∀ b f, t.row? b = some f → b.isRestricted = true → f.coeff entry < 0 →
      Ratio.Before (exit, -row.constant / row.coeff entry) (b, -f.constant / f.coeff entry)

/-! ## Goals -/

/-- A form in the variables without rows, which has the same values in every basis. -/
structure Goal (goal : Tableau Rat → LinearForm Rat) : Prop where
  nonbasic : ∀ {t v}, t.WellFormed → v ∈ (goal t).vars → t.row? v = none
  recast : ∀ {t t' σ}, t'.Recast t → t.Solves σ → (goal t').eval σ = (goal t).eval σ

theorem goal_objective : Goal Tableau.objective where
  nonbasic := fun h hv => h.objective_open hv
  recast := fun h hσ => h.objective _ hσ

def artificialGoal (t : Tableau Rat) : LinearForm Rat := t.artificial.getD 0

theorem artificialGoal_eq {g : LinearForm Rat} (h : t.artificial = some g) :
    t.artificialGoal = g := by
  unfold artificialGoal
  rw [h]
  rfl

theorem goal_artificialGoal : Goal artificialGoal where
  nonbasic := by
    intro t v h hv
    unfold artificialGoal at hv
    cases ha : t.artificial with
    | none =>
      rw [ha] at hv
      cases hv
    | some g =>
      rw [ha] at hv
      exact h.artificial_open ha hv
  recast := by
    intro t t' σ h hσ
    have hmap : ∀ u : Tableau Rat,
        u.artificialGoal.eval σ = (u.artificial.map (·.eval σ)).getD 0 := by
      intro u
      unfold artificialGoal
      cases u.artificial with
      | none => exact (by simp : (0 : LinearForm Rat).eval σ = 0)
      | some g => rfl
    rw [hmap, hmap, h.artificial σ hσ]

/-! ## Steps that follow the rule -/

structure Descends (V : Variable → Prop) (goal : Tableau Rat → LinearForm Rat)
    (t t' : Tableau Rat) (entry exit : Variable) : Prop where
  tidy : t.Tidy V
  feasible : t.Feasible
  picks : t.Picks (goal t) entry exit
  exchange : t.exchange entry exit = .ok t'

/-- A step that lets the lowest variable enter that may do so and lowers `g` follows the rule. -/
theorem Indexed.descend_picks (h : t.Indexed) {g : LinearForm Rat} {chosen : Option Variable}
    (hentry : ∀ entry, chosen = some entry → entry.mayEnter = true ∧ g.coeff entry < 0 ∧
      ∀ v, v.mayEnter = true → g.coeff v < 0 → entry.id ≤ v.id) :
    (t.descend chosen).Meets
      (fun u => ∃ entry exit, t.Picks g entry exit ∧ t.exchange entry exit = .ok u)
      (fun _ => True) fun _ _ => True := by
  apply (h.descend_meets chosen).mono _ (fun _ _ => trivial) fun _ _ _ => trivial
  rintro u ⟨entry, exit, he, hx, hex⟩
  obtain ⟨hmay, hneg, hlow⟩ := hentry entry he
  obtain ⟨hr, hfirst⟩ := h.tightest?_eq_some hx
  exact ⟨entry, exit, ⟨hmay, hneg, hlow, hr, hfirst⟩, hex⟩

theorem Tidy.objectiveStep_picks (h : t.Tidy V) :
    t.objectiveStep.Meets
      (fun u => ∃ entry exit, t.Picks t.objective entry exit ∧ t.exchange entry exit = .ok u)
      (fun _ => True) fun _ _ => True := by
  rw [h.orderly.objectiveStep_eq]
  apply h.wellFormed.indexed.descend_picks
  intro entry hentry
  have hp := profitable_iff.1 ((h.scouted entry).1 (List.mem_of_head? hentry))
  refine ⟨hp.1, hp.2, fun v hv hneg => ?_⟩
  exact Candidates.id_le_of_head? hentry ((h.scouted v).2 (profitable_iff.2 ⟨hv, hneg⟩))

theorem Tidy.artificialStep_picks (hV : Numbered V) (h : t.Tidy V) :
    t.artificialStep.Meets
      (fun u => ∃ entry exit, t.Picks t.artificialGoal entry exit ∧
        t.exchange entry exit = .ok u)
      (fun _ => True) fun _ _ => True := by
  rw [h.orderly.artificialStep_eq hV]
  apply h.wellFormed.indexed.descend_picks
  intro entry hentry
  have hmem := Variable.mem_of_lowest? hentry
  cases ha : t.artificial with
  | none =>
    unfold artificialEntries at hmem
    rw [ha] at hmem
    cases hmem
  | some g =>
    rw [artificialGoal_eq ha]
    obtain ⟨hmay, hneg⟩ := (mem_artificialEntries ha).1 hmem
    refine ⟨hmay, hneg, fun v hv hlow => ?_⟩
    exact Variable.id_le_of_lowest? hentry ((mem_artificialEntries ha).2 ⟨hv, hlow⟩)

namespace Descends

variable (h : Descends V goal t t' entry exit)

include h

/-! ## Which variables have rows -/

theorem exists_row : ∃ row, t.row? exit = some row ∧ entry ∈ row.vars ∧ row.coeff entry < 0 := by
  obtain ⟨row, hrow, hneg, -⟩ := h.picks.first
  exact ⟨row, hrow, mem_vars_of_coeff (ne_of_lt hneg), hneg⟩

theorem entry_nonbasic : t.row? entry = none := by
  obtain ⟨row, hrow, hmem, -⟩ := h.exists_row
  exact h.tidy.wellFormed.row_open hrow hmem

theorem entry_ne_exit : entry ≠ exit := by
  obtain ⟨row, hrow, hmem, -⟩ := h.exists_row
  exact h.tidy.wellFormed.ne_of_mem hrow hmem hrow

theorem entry_basic : t'.row? entry ≠ none := by
  obtain ⟨row, hrow, -⟩ := h.exists_row
  rw [h.tidy.wellFormed.row?_exchange hrow h.exchange, if_pos rfl]
  exact Option.some_ne_none _

/-- Only the entering variable gains a row. -/
theorem nonbasic (hv : v ≠ entry) (hnone : t.row? v = none) : t'.row? v = none := by
  obtain ⟨row, hrow, -⟩ := h.exists_row
  rw [h.tidy.wellFormed.row?_exchange hrow h.exchange, if_neg hv, hnone]
  split <;> rfl

/-- Only the leaving variable loses its row. -/
theorem basic (hv : v ≠ exit) (hsome : t.row? v ≠ none) : t'.row? v ≠ none := by
  obtain ⟨row, hrow, -⟩ := h.exists_row
  rw [h.tidy.wellFormed.row?_exchange hrow h.exchange, if_neg hv]
  split
  · exact Option.some_ne_none _
  · exact mt Option.map_eq_none_iff.1 hsome

/-! ## How the point moves -/

theorem recast : t'.Recast t := h.tidy.wellFormed.recast_exchange h.tidy.trim h.exchange

theorem tidy_after (hV : Numbered V) : t'.Tidy V := h.tidy.exchange hV h.exchange

theorem feasible_after : t'.Feasible := by
  obtain ⟨row, hrow, hneg, hfirst⟩ := h.picks.first
  exact h.feasible.exchange_falling h.tidy.wellFormed hrow h.picks.restricted hneg
    (fun b f hf hb hc => (hfirst b f hf hb hc).le) h.exchange

/-- The entering variable rises, and the goal falls with it at its coefficient. -/
theorem point_eq_ray (hV : Numbered V) (hgoal : Goal goal) :
    ∃ y, 0 ≤ y ∧ t'.point = t.ray entry y ∧
      (goal t').constant = (goal t).constant + (goal t).coeff entry * y := by
  have hwf := h.tidy.wellFormed
  have hwf' := (h.tidy_after hV).wellFormed
  have hsolves : t.Solves t'.point := (h.recast.solves _).1 hwf'.solves_point
  have hpoint : t'.point = t.ray entry (t'.point entry) := by
    apply hwf.eq_of_nonbasic hsolves (hwf.solves_ray _ _)
    intro v hv
    by_cases hve : v = entry
    · rw [hve, ray_self h.entry_nonbasic]
    · rw [ray_of_nonbasic hv hve, point_of_nonbasic (h.nonbasic hve hv)]
  refine ⟨t'.point entry, ?_, hpoint, ?_⟩
  · exact h.feasible_after.point_nonneg (Variable.isRestricted_of_mayEnter h.picks.mayEnter)
  · calc (goal t').constant
        = (goal t').eval t'.point := (eval_point fun v hv => hgoal.nonbasic hwf' hv).symm
      _ = (goal t).eval t'.point := hgoal.recast h.recast hsolves
      _ = (goal t).eval (t.ray entry (t'.point entry)) := by rw [← hpoint]
      _ = _ := eval_ray fun v hv => hgoal.nonbasic hwf hv

end Descends

end Tableau

end SoftSimplex
