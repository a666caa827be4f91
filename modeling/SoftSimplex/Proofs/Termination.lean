import Mathlib.Data.Finset.Powerset
import SoftSimplex.Proofs.Cycles
import SoftSimplex.Proofs.Requests

/-!
# Primal passes end

A pass that follows the rule of lowest numbers never returns to the same basic variables, for that
would close a cycle. The numbers of the basic variables are among those drawn, so that the pass is
over after as many exchanges as there are sets of such numbers, if not sooner.
-/

namespace SoftSimplex

variable {α : Type}

/-! ## The states of a pass -/

def Step.next? : Step α → Option (Tableau α)
  | .swapped t _ => some t
  | _ => none

theorem Step.Meets.next {next goal : Tableau α → Prop} {stuck : Tableau α → Failure → Prop}
    {x : Step α} (h : x.Meets next goal stuck) {u : Tableau α} (hu : x.next? = some u) :
    next u := by
  cases x with
  | swapped t w =>
    cases hu
    exact h
  | done t => cases hu
  | failed t f => cases hu

namespace Tableau

/-- The tableau after `n` exchanges, if a pass makes as many. -/
def after (step : Tableau α → Step α) : Nat → Tableau α → Option (Tableau α)
  | 0, t => some t
  | n + 1, t => (after step n t).bind fun u => (step u).next?

variable {step : Tableau α → Step α} {t u u' : Tableau α} {n m : Nat}

theorem after_succ_eq_some :
    after step (n + 1) t = some u' ↔ ∃ u, after step n t = some u ∧ (step u).next? = some u' :=
  Option.bind_eq_some_iff

theorem after_of_first (h : (step t).next? = some u) : after step (n + 1) t = after step n u := by
  induction n with
  | zero => exact h
  | succ n ih => rw [after, ih, after]

theorem exists_after_of_le (h : after step n t = some u) (hle : m ≤ n) :
    ∃ w, after step m t = some w := by
  induction n, hle using Nat.le_induction generalizing u with
  | base => exact ⟨u, h⟩
  | succ n _ ih =>
    obtain ⟨w, hw, -⟩ := after_succ_eq_some.1 h
    exact ih hw

theorem after_add (h : after step n t = some u) (m : Nat) :
    after step (n + m) t = after step m u := by
  induction m with
  | zero => exact h
  | succ m ih => rw [← Nat.add_assoc, after, ih, after]

theorem after_eq_none (hlast : (step t).next? = none) (n : Nat) : after step (n + 1) t = none := by
  cases hu : after step (n + 1) t with
  | none => rfl
  | some u =>
    obtain ⟨w, hw⟩ := exists_after_of_le hu (Nat.le_add_left 1 n)
    exact absurd (hlast.symm.trans hw) nofun

/-- The tableau after `n` exchanges, or the first one if a pass makes fewer. -/
def state (step : Tableau α → Step α) (t : Tableau α) (n : Nat) : Tableau α :=
  (after step n t).getD t

theorem state_of_after (h : after step n t = some u) : state step t n = u := by
  unfold state
  rw [h]
  rfl

theorem after_eq_state (h : after step n t = some u) (hle : m ≤ n) :
    after step m t = some (state step t m) := by
  obtain ⟨w, hw⟩ := exists_after_of_le h hle
  rw [state_of_after hw, hw]

/-- A pass that exceeds its budget has made one exchange more. -/
theorem exists_after_of_iterate (h : iterate step n t = none) :
    ∃ u, after step (n + 1) t = some u := by
  induction n, t using iterate.induct step with
  | case1 n t t' hs =>
    unfold iterate at h
    simp [hs] at h
  | case2 n t t' f hs =>
    unfold iterate at h
    simp [hs] at h
  | case3 t t' w hs =>
    refine ⟨t', ?_⟩
    rw [after_of_first (by rw [hs]; rfl)]
    rfl
  | case4 t t' w hs n ih =>
    unfold iterate at h
    simp only [hs, Option.map_eq_none_iff] at h
    obtain ⟨u, hu⟩ := ih h
    exact ⟨u, by rw [after_of_first (by rw [hs]; rfl), hu]⟩

/-- What the steps keep holds of every tableau that a pass goes through. -/
theorem after_meets {I goal : Tableau α → Prop} {stuck : Tableau α → Failure → Prop}
    (hstep : ∀ u, I u → (step u).Meets I goal stuck) (ht : I t) (hu : after step n t = some u) :
    I u := by
  induction n generalizing u with
  | zero =>
    cases hu
    exact ht
  | succ n ih =>
    obtain ⟨v, hv, hnext⟩ := after_succ_eq_some.1 hu
    exact (hstep v (ih hv)).next hnext

theorem exists_after_of_swap {p : Pass α} {w : Swap} (h : iterate step n t = some p)
    (hw : w ∈ p.swaps) :
    ∃ i u u', after step i t = some u ∧ step u = .swapped u' w := by
  induction n, t using iterate.induct step generalizing p with
  | case1 n t t' hs =>
    unfold iterate at h
    simp only [hs, Option.some.injEq] at h
    subst h
    cases hw
  | case2 n t t' f hs =>
    unfold iterate at h
    simp only [hs, Option.some.injEq] at h
    subst h
    cases hw
  | case3 t t' w' hs =>
    unfold iterate at h
    simp [hs] at h
  | case4 t t' w' hs n ih =>
    unfold iterate at h
    simp only [hs, Option.map_eq_some_iff] at h
    obtain ⟨q, hq, rfl⟩ := h
    rcases List.mem_cons.1 hw with rfl | hw
    · exact ⟨0, t, t', rfl, hs⟩
    · obtain ⟨i, u, u', hu, hu'⟩ := ih hq hw
      exact ⟨i + 1, u, u', by rw [after_of_first (by rw [hs]; rfl), hu], hu'⟩

end Tableau

namespace Tableau

variable {V : Variable → Prop} {goal : Tableau Rat → LinearForm Rat}
variable {step : Tableau Rat → Step Rat} {t u u' : Tableau Rat} {i j n : Nat}

/-- Whatever a pass exchanges, the rule picked. -/
def Follows (V : Variable → Prop) (goal : Tableau Rat → LinearForm Rat)
    (step : Tableau Rat → Step Rat) : Prop :=
  ∀ u u', u.Tidy V → (step u).next? = some u' →
    ∃ entry exit, u.Picks (goal u) entry exit ∧ u.exchange entry exit = .ok u'

theorem follows_objectiveStep : Follows V objective objectiveStep :=
  fun _ _ hu hnext => hu.objectiveStep_picks.next hnext

theorem follows_artificialStep (hV : Numbered V) : Follows V artificialGoal artificialStep :=
  fun _ _ hu hnext => (hu.artificialStep_picks hV).next hnext

/-- What becomes of a pass from `t`: it ends within `n` exchanges, each of them picked by the rule,
and the basic variables are never again what they were. -/
structure Settles (step : Tableau Rat → Step Rat) (goal : Tableau Rat → LinearForm Rat) (n : Nat)
    (t : Tableau Rat) : Prop where
  ends : ∃ p, iterate step n t = some p
  picks : ∀ i u u', after step i t = some u → after step (i + 1) t = some u' →
    ∃ entry exit, u.Picks (goal u) entry exit ∧ u.exchange entry exit = .ok u'
  noReturn : ∀ i j u u', i < j → after step i t = some u → after step j t = some u' →
    ∃ v, u.isBasic v ≠ u'.isBasic v

/-! ## Sets of numbers -/

def basis (t : Tableau Rat) : Finset Nat := (t.rows.keys.map Variable.id).toFinset

theorem mem_basis {k : Nat} : k ∈ t.basis ↔ ∃ v, t.isBasic v = true ∧ v.id = k := by
  unfold basis isBasic
  simp only [List.mem_toFinset, List.mem_map, Table.contains_iff]

theorem Over.basic (h : t.Over V) {v : Variable} (hv : t.isBasic v = true) : V v := by
  obtain ⟨f, hf⟩ := isBasic_iff.1 hv
  exact (h.row hf).1

/-- The numbers determine the basic variables. -/
theorem isBasic_eq_of_basis_eq (hV : Numbered V) (h : t.Over V) (hu : u.Over V)
    (he : t.basis = u.basis) (v : Variable) : t.isBasic v = u.isBasic v := by
  have hsub : ∀ {x y : Tableau Rat}, x.Over V → y.Over V → x.basis = y.basis →
      x.isBasic v = true → y.isBasic v = true := by
    intro x y hx hy hxy hv
    obtain ⟨w, hw, hid⟩ := mem_basis.1 (hxy ▸ mem_basis.2 ⟨v, hv, rfl⟩)
    rwa [← hV w v (hy.basic hw) (hx.basic hv) hid]
  rw [Bool.eq_iff_iff]
  exact ⟨hsub h hu he, hsub hu h he.symm⟩

/-- With `k` numbers drawn there are `2 ^ k` sets of them, too few for the states of a longer pass
that never returns to the same basic variables. -/
theorem exists_iterate_of_noReturn (hV : Numbered V) {k : Nat} (hdrawn : ∀ v, V v → v.id < k)
    (hover : ∀ m w, after step m t = some w → w.Over V)
    (hnoReturn : ∀ i j w w', i < j → after step i t = some w → after step j t = some w' →
      ∃ v, w.isBasic v ≠ w'.isBasic v) :
    ∃ p, iterate step (2 ^ k) t = some p := by
  rw [← Option.isSome_iff_exists, Option.isSome_iff_ne_none]
  intro hnone
  obtain ⟨w, hw⟩ := exists_after_of_iterate hnone
  have hstate : ∀ m ∈ Finset.range (2 ^ k + 1), after step m t = some (state step t m) :=
    fun m hm => after_eq_state hw (Nat.le_of_lt (Finset.mem_range.1 hm))
  have hmaps : ∀ m ∈ Finset.range (2 ^ k + 1),
      (state step t m).basis ∈ (Finset.range k).powerset := by
    intro m hm
    rw [Finset.mem_powerset]
    intro x hx
    obtain ⟨v, hv, rfl⟩ := mem_basis.1 hx
    exact Finset.mem_range.2 (hdrawn v ((hover m _ (hstate m hm)).basic hv))
  have hcard : (Finset.range k).powerset.card < (Finset.range (2 ^ k + 1)).card := by
    rw [Finset.card_powerset, Finset.card_range, Finset.card_range]
    exact Nat.lt_succ_self _
  obtain ⟨i, hi, j, hj, hne, hbasis⟩ := Finset.exists_ne_map_eq_of_card_lt_of_maps_to hcard hmaps
  have hsame := isBasic_eq_of_basis_eq hV (hover i _ (hstate i hi)) (hover j _ (hstate j hj)) hbasis
  rcases lt_or_gt_of_ne hne with hij | hji
  · obtain ⟨v, hv⟩ := hnoReturn i j _ _ hij (hstate i hi) (hstate j hj)
    exact hv (hsame v)
  · obtain ⟨v, hv⟩ := hnoReturn j i _ _ hji (hstate j hj) (hstate i hi)
    exact hv (hsame v).symm

/-! ## Passes that follow the rule -/

section Following

variable (hV : Numbered V) (hgoal : Goal goal) (hstep : Follows V goal step)
  (ht : t.Tidy V) (hf : t.Feasible)

include hV hstep ht hf

theorem tidy_after (hu : after step n t = some u) : u.Tidy V ∧ u.Feasible := by
  induction n generalizing u with
  | zero =>
    cases hu
    exact ⟨ht, hf⟩
  | succ n ih =>
    obtain ⟨w, hw, hnext⟩ := after_succ_eq_some.1 hu
    obtain ⟨hwt, hwf⟩ := ih hw
    obtain ⟨entry, exit, hpicks, he⟩ := hstep w u hwt hnext
    have hdescends : Descends V goal w u entry exit := ⟨hwt, hwf, hpicks, he⟩
    exact ⟨hdescends.tidy_after hV, hdescends.feasible_after⟩

theorem descends_after (hu : after step n t = some u) (hu' : after step (n + 1) t = some u') :
    ∃ entry exit, Descends V goal u u' entry exit := by
  obtain ⟨hut, huf⟩ := tidy_after hV hstep ht hf hu
  obtain ⟨w, hw, hnext⟩ := after_succ_eq_some.1 hu'
  cases hu.symm.trans hw
  obtain ⟨entry, exit, hpicks, he⟩ := hstep u u' hut hnext
  exact ⟨entry, exit, hut, huf, hpicks, he⟩

include hgoal

/-- Two states with the same basic variables would close a cycle. -/
theorem exists_isBasic_ne (hij : i < j) (hu : after step i t = some u)
    (hu' : after step j t = some u') : ∃ v, u.isBasic v ≠ u'.isBasic v := by
  by_contra hsame
  simp only [not_exists, not_not] at hsame
  have hmoves : ∀ k, ∃ entry exit, k < j - i →
      Descends V goal (state step t (i + k)) (state step t (i + (k + 1))) entry exit := by
    intro k
    by_cases hk : k < j - i
    · obtain ⟨entry, exit, h⟩ := descends_after hV hstep ht hf
        (after_eq_state hu' (by omega : i + k ≤ j)) (after_eq_state hu' (by omega : i + k + 1 ≤ j))
      exact ⟨entry, exit, fun _ => h⟩
    · exact ⟨⟨0, .free⟩, ⟨0, .free⟩, fun h => absurd h hk⟩
  choose entry exit hdescends using hmoves
  have hfirst : state step t (i + 0) = u := state_of_after hu
  have hlast : state step t (i + (j - i)) = u' := by
    rw [Nat.add_sub_cancel' (Nat.le_of_lt hij)]
    exact state_of_after hu'
  let c : Cycle V goal :=
    { length := j - i
      state := fun k => state step t (i + k)
      entry := entry
      exit := exit
      positive := by omega
      descends := hdescends
      closes := fun v => by 
        rw [hfirst, hlast, ← isBasic_eq_false_iff, ← isBasic_eq_false_iff, hsame v] }
  exact c.impossible hV hgoal

theorem exists_iterate {k : Nat} (hdrawn : ∀ v, V v → v.id < k) :
    ∃ p, iterate step (2 ^ k) t = some p :=
  exists_iterate_of_noReturn hV hdrawn
    (fun _ _ hu => (tidy_after hV hstep ht hf hu).1.within)
    fun _ _ _ _ hij hu hu' => exists_isBasic_ne hV hgoal hstep ht hf hij hu hu'

theorem settles {k : Nat} (hdrawn : ∀ v, V v → v.id < k) : t.Settles step goal (2 ^ k) where
  ends := exists_iterate hV hgoal hstep ht hf hdrawn
  picks := fun i u u' hu hu' => by
    obtain ⟨entry, exit, h⟩ := descends_after hV hstep ht hf hu hu'
    exact ⟨entry, exit, h.picks, h.exchange⟩
  noReturn := fun i j u u' hij hu hu' => exists_isBasic_ne hV hgoal hstep ht hf hij hu hu'

end Following

end Tableau

namespace Solver

open Tableau

variable {vs : List Variable} {s : Solver Rat}

/-- Both primal passes end wherever no repair has failed: minimising does, and so does the first
phase of every constraint. All their exchanges are those of the rule of lowest numbers, and they
never return to the same basic variables. -/
theorem passes_settle (h : Reached (fun _ _ o => o.Repaired) vs s) :
    (∃ o, s.solve (2 ^ s.supply.drawn) = some o) ∧
    s.tableau.Settles objectiveStep objective (2 ^ s.supply.drawn) ∧
    ∀ c, (∀ v ∈ c.form.vars, v ∈ vs) →
      ((s.prepare c).1.beginFirstPhase (s.prepare c).2).tableau.Settles artificialStep
        artificialGoal (2 ^ ((s.prepare c).1.supply.drawn + 1)) := by
  obtain ⟨V, hsound⟩ := h.sound
  have hf := h.feasible fun _ _ _ hok => hok
  have hissued := hsound.books.issued
  have hobjective : s.tableau.Settles objectiveStep objective (2 ^ s.supply.drawn) :=
    settles hissued.numbered goal_objective follows_objectiveStep hsound.stands.tidy hf
      hissued.drawn
  refine ⟨?_, hobjective, fun c hc => ?_⟩
  · obtain ⟨p, hp⟩ := hobjective.ends
    exact ⟨s.afterPass p, Option.map_eq_some_iff.2 ⟨p, hp, rfl⟩⟩
  · have hpending := hsound.prepare hc
    obtain ⟨htidy, -, -, hstart⟩ := hpending.beginFirstPhase
    have hnext := hpending.books.issued.next .slack
    exact settles hnext.numbered goal_artificialGoal (follows_artificialStep hnext.numbered) htidy
      (hstart (hf.of_rows fun b => row?_addCosts _ _ _ _)) hnext.drawn

/-- Two widths, of which the first has to be zero. Of the two exchanges that minimising makes the
first lowers nothing, and yet the second does not take it back. -/
theorem passes_settle_of_widths :
    ∃ y u u', replay (fun _ _ o => o.isRepaired) 9
      [.newVariable true, .newVariable true,
        .add (.compare (.var ⟨0, .bounded⟩) .atMost (.const 0)),
        .add ((Constraint.compare (.var ⟨1, .bounded⟩) .atLeast (.const 40)).withStrength .weak),
        .add ((Constraint.compare
          ((LinearForm.var ⟨0, .bounded⟩).addScaled (.var ⟨1, .bounded⟩) 1) .atLeast
          (.const 0)).withStrength .medium)] ([], new) = some y ∧
      y.2.supply.drawn = 7 ∧
      after objectiveStep 1 y.2.tableau = some u ∧ after objectiveStep 2 y.2.tableau = some u' ∧
      u.objective.constant = y.2.tableau.objective.constant ∧
      (∃ o, y.2.solve (2 ^ 7) = some o) ∧ (∃ v, y.2.tableau.isBasic v ≠ u'.isBasic v) ∧
      ((y.2.prepare (.compare (.var ⟨0, .bounded⟩) .atLeast (.const 120))).1.beginFirstPhase
        (y.2.prepare (.compare (.var ⟨0, .bounded⟩) .atLeast (.const 120))).2).tableau.Settles
          artificialStep artificialGoal
          (2 ^ ((y.2.prepare
            (.compare (.var ⟨0, .bounded⟩) .atLeast (.const 120))).1.supply.drawn + 1)) := by
  have hrun : (replay (fun _ _ o => o.isRepaired) 9
      [.newVariable true, .newVariable true,
        .add (.compare (.var ⟨0, .bounded⟩) .atMost (.const 0)),
        .add ((Constraint.compare (.var ⟨1, .bounded⟩) .atLeast (.const 40)).withStrength .weak),
        .add ((Constraint.compare
          ((LinearForm.var ⟨0, .bounded⟩).addScaled (.var ⟨1, .bounded⟩) 1) .atLeast
          (.const 0)).withStrength .medium)] ([], new)).any (fun y =>
      decide (y.1 = [⟨0, .bounded⟩, ⟨1, .bounded⟩]) && decide (y.2.supply.drawn = 7) &&
      (after objectiveStep 1 y.2.tableau).any (fun u =>
        decide (u.objective.constant = y.2.tableau.objective.constant)) &&
      (after objectiveStep 2 y.2.tableau).isSome) = true := by
    decide +kernel
  obtain ⟨y, hy, hcheck⟩ := (Option.any_eq_true _ _).1 hrun
  simp only [Bool.and_eq_true, decide_eq_true_eq, Option.any_eq_true] at hcheck
  obtain ⟨⟨⟨hvs, hdrawn⟩, u, hu, hsame⟩, hsecond⟩ := hcheck
  obtain ⟨u', hu'⟩ := Option.isSome_iff_exists.1 hsecond
  have hreached : Reached (fun _ _ o => o.Repaired) y.1 y.2 :=
    Reached.replay (fun _ _ _ htest => Outcome.repaired_of_isRepaired htest) (.start {}) hy
  have hwithin : ∀ v ∈ (Constraint.compare (LinearForm.var (⟨0, .bounded⟩ : Variable)) .atLeast
      (.const (120 : Rat))).form.vars, v ∈ y.1 := by
    rw [hvs]
    decide +kernel
  obtain ⟨hsolve, hobjective, hphase⟩ := passes_settle hreached
  rw [hdrawn] at hsolve
  exact ⟨y, u, u', hy, hdrawn, hu, hu', hsame, hsolve,
    hobjective.noReturn 0 2 _ _ (by decide) rfl hu', hphase _ hwithin⟩

end Solver

end SoftSimplex
