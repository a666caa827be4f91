import SoftSimplex.Proofs.AutoSolve
import SoftSimplex.Proofs.RequiredValues
import SoftSimplex.Proofs.Shapes
import SoftSimplex.Proofs.Termination

/-!
# When a repair ends

The dual pass takes the row that was queued last, whatever its number, so nothing keeps it from
undoing what it has done: it can come back to a tableau that it has been at, and then it never ends.
That is the only way not to end, since there are finitely many tableaus to come by. From an optimum
the objective rises with every exchange whose entering variable costs something, so that a circle
consists of exchanges that cost nothing; where every exchange has its price, the pass ends as soon as
the primal ones.
-/

namespace SoftSimplex

open LinearForm

namespace Tableau

/-! ## Passes that come back -/

section Any

variable {α : Type} {step : Tableau α → Step α} {t u : Tableau α} {n : Nat}

/-- A pass that ends makes no exchange beyond its budget. -/
theorem after_of_iterate {p : Pass α} (h : iterate step n t = some p) :
    after step (n + 1) t = none := by
  induction n, t using iterate.induct step generalizing p with
  | case1 n t t' hs => exact after_eq_none (by rw [hs]; rfl) n
  | case2 n t t' f hs => exact after_eq_none (by rw [hs]; rfl) n
  | case3 t t' w hs =>
    unfold iterate at h
    simp [hs] at h
  | case4 t t' w hs n ih =>
    unfold iterate at h
    simp only [hs, Option.map_eq_some_iff] at h
    obtain ⟨q, hq, -⟩ := h
    rw [after_of_first (by rw [hs]; rfl)]
    exact ih hq

/-- The pass from `t` comes back to a tableau that it has been at. -/
def Circles (step : Tableau α → Step α) (t : Tableau α) : Prop :=
  ∃ i j u, i < j ∧ after step i t = some u ∧ after step j t = some u

/-- A pass that comes back goes on for ever. -/
theorem Circles.exists_after (h : Circles step t) (n : Nat) : ∃ u, after step n t = some u := by
  obtain ⟨i, j, u, hij, hi, hj⟩ := h
  induction n using Nat.strong_induction_on with
  | h n ih =>
    by_cases hn : n ≤ j
    · exact exists_after_of_le hj hn
    · obtain ⟨m, rfl⟩ := Nat.exists_eq_add_of_lt (not_le.1 hn)
      -- from the second visit on it does what it did from the first
      obtain ⟨w, hw⟩ := ih (i + (m + 1)) (by omega)
      rw [after_add hi] at hw
      exact ⟨w, by rw [Nat.add_assoc, after_add hj, hw]⟩

theorem Circles.iterate (h : Circles step t) (n : Nat) : iterate step n t = none := by
  obtain ⟨u, hu⟩ := h.exists_after (n + 1)
  cases hp : Tableau.iterate step n t with
  | none => rfl
  | some p =>
    rw [after_of_iterate hp] at hu
    cases hu

/-- With finitely many tableaus to come by, a pass ends unless it comes back. -/
theorem exists_iterate_iff (hfin : {u | ∃ n, after step n t = some u}.Finite) :
    (∃ n p, iterate step n t = some p) ↔ ¬Circles step t := by
  constructor
  · rintro ⟨n, p, hp⟩ hc
    rw [hc.iterate n] at hp
    cases hp
  · intro hc
    by_contra hnever
    have hgoes : ∀ n, after step n t = some (state step t n) := by
      intro n
      cases hp : iterate step n t with
      | none =>
        obtain ⟨u, hu⟩ := exists_after_of_iterate hp
        exact after_eq_state hu (Nat.le_succ n)
      | some p => exact absurd ⟨n, p, hp⟩ hnever
    have hmaps : Set.MapsTo (state step t) Set.univ {u | ∃ n, after step n t = some u} :=
      fun n _ => ⟨n, hgoes n⟩
    obtain ⟨i, -, j, -, hne, hsame⟩ := Set.infinite_univ.exists_ne_map_eq_of_mapsTo hmaps hfin
    rcases lt_or_gt_of_ne hne with hij | hji
    · exact hc ⟨i, j, _, hij, hgoes i, hsame ▸ hgoes j⟩
    · exact hc ⟨j, i, _, hji, hgoes j, hsame ▸ hgoes i⟩

end Any

/-! ## The dual pass -/

variable {V : Variable → Prop} {t u u' : Tableau Rat} {i j n : Nat}

theorem Tidy.keeps_after (hV : Numbered V) (h : t.Tidy V)
    (hu : after repairStep n t = some u) : Keeps V t u := by
  have hstep : ∀ u, Keeps V t u →
      u.repairStep.Meets (Keeps V t) (Keeps V t) fun u' _ => Keeps V t u' := by
    intro u hu
    apply (hu.tidy.repairStep_meets hV).mono
    · exact fun _ hu' => hu.trans hu'
    · exact fun _ hu' => hu.trans hu'
    · exact fun _ _ hu' => hu.trans hu'.1
  exact after_meets hstep h.keeps_refl hu

/-- A repair ends unless it comes back to a tableau that it has been at. -/
theorem Tidy.repair_ends_iff (hV : Numbered V) {k : Nat} (hdrawn : ∀ v, V v → v.id < k)
    (h : t.Tidy V) : (∃ n p, t.repair n = some p) ↔ ¬Circles repairStep t := by
  apply exists_iterate_iff ((finite_keeps hV hdrawn t).subset _)
  rintro u ⟨n, hu⟩
  exact h.keeps_after hV hu

/-- From an optimum an exchange of a repair leads to an optimum and does not lower the objective. If
it does not raise it either, it leaves it alone. -/
theorem Optimal.repairStep_next (ho : u.Optimal) (h : u.Tidy V)
    (hnext : u.repairStep.next? = some u') :
    u'.Optimal ∧ u.objective.constant ≤ u'.objective.constant ∧
      (u'.objective.constant = u.objective.constant → u'.objective = u.objective) := by
  obtain ⟨q, exit, row, entry, hq, -, hrow, -, hset, hx, he⟩ :=
    h.wellFormed.repairStep_meets.next hnext
  have hqueue := h.wellFormed.withQueue hq
  have hkept : ({ u with queue := q } : Tableau Rat).Optimal := ho.of_objective rfl
  obtain ⟨hmay, hmem, hpos, -⟩ := cheapest?_eq_some hx
  have hne : entry ≠ exit := h.wellFormed.ne_of_mem hrow hmem hrow
  have hneg : row.constant < 0 := by
    rw [Bool.eq_false_iff, Ne, isSettled_iff] at hset
    by_contra hnn
    exact hset fun g hg => Option.some.inj (hrow.symm.trans hg) ▸ not_lt.1 hnn
  have hobjective : u'.objective =
      ({ u with queue := q } : Tableau Rat).objective.substitute entry (row.exchange exit entry) :=
    objective_exchange hrow he
  have hconstant : u'.objective.constant =
      u.objective.constant + -row.constant / row.coeff entry * u.objective.coeff entry := by
    rw [hobjective, constant_substitute, constant_exchange hne hmem]
  have hrise : 0 < -row.constant / row.coeff entry := div_pos (neg_pos.2 hneg) hpos
  refine ⟨hkept.exchange_cheapest hqueue hrow hx he, ?_, fun hsame => ?_⟩
  · have hcost := mul_nonneg hrise.le (ho entry hmay)
    linarith
  · have hfree : -row.constant / row.coeff entry * u.objective.coeff entry = 0 := by linarith
    have hzero := (mul_eq_zero.1 hfree).resolve_left hrise.ne'
    rw [hobjective, substitute_of_not_mem fun hm => h.trim.objective entry hm hzero]

theorem Optimal.after_repair (hV : Numbered V) (ho : t.Optimal) (h : t.Tidy V)
    (hu : after repairStep n t = some u) :
    u.Optimal ∧ t.objective.constant ≤ u.objective.constant := by
  induction n generalizing u with
  | zero =>
    cases hu
    exact ⟨ho, le_rfl⟩
  | succ n ih =>
    obtain ⟨w, hw, hnext⟩ := after_succ_eq_some.1 hu
    obtain ⟨hwo, hle⟩ := ih hw
    obtain ⟨huo, hle', -⟩ := hwo.repairStep_next (h.keeps_after hV hw).tidy hnext
    exact ⟨huo, hle.trans hle'⟩

/-- Every exchange of the repair changes the objective. -/
def Priced (t : Tableau Rat) : Prop :=
  ∀ i u u', after repairStep i t = some u → after repairStep (i + 1) t = some u' →
    u'.objective ≠ u.objective

/-- A repair of a single exchange needs looking at once. -/
theorem priced_of_single (hsingle : after repairStep 2 t = none)
    (hfirst : ∀ u, after repairStep 1 t = some u → u.objective ≠ t.objective) : t.Priced := by
  intro i u u' hu hu'
  rcases Nat.eq_zero_or_pos i with rfl | hi
  · cases hu
    exact hfirst u' hu'
  · obtain ⟨w, hw⟩ := exists_after_of_le hu' (Nat.succ_le_succ hi)
    rw [hsingle] at hw
    cases hw

/-- The objective has risen in between, so the basic variables are not the same again. -/
theorem Optimal.exists_isBasic_ne (hV : Numbered V) (ho : t.Optimal) (h : t.Tidy V)
    (hpriced : t.Priced) (hij : i < j) (hu : after repairStep i t = some u)
    (hu' : after repairStep j t = some u') : ∃ v, u.isBasic v ≠ u'.isBasic v := by
  by_contra hsame
  simp only [not_exists, not_not] at hsame
  have hkeeps := h.keeps_after hV hu
  have hkeeps' := h.keeps_after hV hu'
  have hlevel : u'.objective.constant = u.objective.constant :=
    (hkeeps.rearranges hkeeps' fun v => (hsame v).symm).objective.constant
  obtain ⟨w, hw⟩ := exists_after_of_le hu' (Nat.succ_le_of_lt hij)
  obtain ⟨x, hx, hnext⟩ := after_succ_eq_some.1 hw
  obtain rfl := Option.some.inj (hu.symm.trans hx)
  obtain ⟨huo, -⟩ := ho.after_repair hV h hu
  obtain ⟨hwo, hrise, hflat⟩ := huo.repairStep_next hkeeps.tidy hnext
  obtain ⟨m, rfl⟩ := Nat.exists_eq_add_of_le (Nat.succ_le_of_lt hij)
  rw [after_add hw] at hu'
  obtain ⟨-, hrest⟩ := hwo.after_repair hV (h.keeps_after hV hw).tidy hu'
  exact hpriced i u w hu hw (hflat (le_antisymm (hlevel ▸ hrest) hrise))

theorem Optimal.exists_repair (hV : Numbered V) {k : Nat} (hdrawn : ∀ v, V v → v.id < k)
    (ho : t.Optimal) (h : t.Tidy V) (hpriced : t.Priced) : ∃ p, t.repair (2 ^ k) = some p :=
  exists_iterate_of_noReturn hV hdrawn (fun _ _ hw => (h.keeps_after hV hw).tidy.within)
    fun _ _ _ _ hij hw hw' => ho.exists_isBasic_ne hV h hpriced hij hw hw'

end Tableau

namespace Solver

open Tableau

variable {allowed : Solver Rat → Request Rat → Outcome Rat Reply → Prop}
variable {vs : List Variable} {s : Solver Rat} {id : ConstraintId} {r : Record Rat} {n : Nat}

/-- A change of a constant is over when the repair is. -/
theorem updateConstant_ends_iff (hr : s.record? id = some r) (k : Rat) :
    (∃ o, s.updateConstant n id k = some o) ↔
      r.constraint.constantFor k = r.constraint.form.constant ∨
        ∃ p, (s.shifted id r k).tableau.repair n = some p := by
  unfold updateConstant restore repair
  simp only [hr]
  split
  · next hsame =>
    rw [Scalar.negligible_rat, sub_eq_zero] at hsame
    exact iff_of_true ⟨_, rfl⟩ (.inl hsame)
  · next hmoved =>
    rw [Scalar.negligible_rat, sub_eq_zero] at hmoved
    simp only [← Option.isSome_iff_exists, Option.isSome_map, hmoved, false_or]
    rfl

/-- A change of a constant is over after finitely many exchanges unless the repair comes back to a
tableau that it has been at, and then it is never over. From an optimum it is over as soon as a
primal pass would be, provided that every exchange has its price. -/
theorem updateConstant_ends (h : Reached allowed vs s) (hr : s.record? id = some r) (k : Rat) :
    ((∃ n o, s.updateConstant n id k = some o) ↔
      (r.constraint.constantFor k = r.constraint.form.constant ∨
        ¬(s.shifted id r k).tableau.Circles repairStep)) ∧
    (s.tableau.Optimal → (s.shifted id r k).tableau.Priced →
      ∃ o, s.updateConstant (2 ^ s.supply.drawn) id k = some o) := by
  obtain ⟨V, hsound⟩ := h.sound
  have htidy := (hsound.shift hr k).stands.tidy
  have hissued := hsound.books.issued
  constructor
  · simp only [updateConstant_ends_iff hr, exists_or, exists_const,
      htidy.repair_ends_iff hissued.numbered hissued.drawn]
  · intro hopt hpriced
    obtain ⟨-, hobjective, -⟩ := Tableau.shiftConstant_frame s.tableau r.marker
      (r.constraint.constantFor k - r.constraint.form.constant)
    have hshifted : (s.shifted id r k).tableau.Optimal := hopt.of_objective hobjective
    exact (updateConstant_ends_iff hr k).2
      (.inr (hshifted.exists_repair hissued.numbered hissued.drawn htidy hpriced))

/-- A width between 60 and 200 that would rather be 100. To have it at most 80 takes an exchange, and
missing the preference is its price. -/
theorem updateConstant_ends_of_width :
    ∃ y r o, replay (fun _ _ o => o.isRepaired) 9
      [.newVariable false, .add (.compare (.var ⟨0, .free⟩) .atLeast (.const 60)),
        .add (.compare (.var ⟨0, .free⟩) .atMost (.const 200)),
        .add ((Constraint.compare (.var ⟨0, .free⟩) .equal (.const 100)).withStrength .weak),
        .solve] ([], new) = some y ∧
      y.2.record? ⟨1⟩ = some r ∧ r.constraint.constantFor 80 ≠ r.constraint.form.constant ∧
      ¬(y.2.shifted ⟨1⟩ r 80).tableau.Circles repairStep ∧
      (y.2.shifted ⟨1⟩ r 80).tableau.Priced ∧
      y.2.updateConstant (2 ^ y.2.supply.drawn) ⟨1⟩ 80 = some o := by
  have hrun : (replay (fun _ _ o => o.isRepaired) 9
      [.newVariable false, .add (.compare (.var ⟨0, .free⟩) .atLeast (.const 60)),
        .add (.compare (.var ⟨0, .free⟩) .atMost (.const 200)),
        .add ((Constraint.compare (.var ⟨0, .free⟩) .equal (.const 100)).withStrength .weak),
        .solve] ([], new)).any (fun y =>
      decide (y.2.tableau.candidates.members = []) && (y.2.record? ⟨1⟩).any fun r =>
        decide (r.constraint.constantFor 80 ≠ r.constraint.form.constant) &&
        decide (after repairStep 2 (y.2.shifted ⟨1⟩ r 80).tableau = none) &&
        (after repairStep 1 (y.2.shifted ⟨1⟩ r 80).tableau).any fun u =>
          decide (u.objective ≠ (y.2.shifted ⟨1⟩ r 80).tableau.objective)) = true := by
    decide +kernel
  obtain ⟨y, hy, hcheck⟩ := (Option.any_eq_true _ _).1 hrun
  simp only [Bool.and_eq_true, decide_eq_true_eq, Option.any_eq_true] at hcheck
  obtain ⟨hnone, r, hr, ⟨hmoved, hsingle⟩, u, hu, hrise⟩ := hcheck
  have hreached : Reached (fun _ _ o => o.Repaired) y.1 y.2 :=
    Reached.replay (fun _ _ _ htest => Outcome.repaired_of_isRepaired htest) (.start {}) hy
  obtain ⟨V, hsound⟩ := hreached.sound
  have hopt := hsound.stands.tidy.scouted.optimal_iff.2 hnone
  have hpriced : (y.2.shifted ⟨1⟩ r 80).tableau.Priced :=
    priced_of_single hsingle fun w hw => Option.some.inj (hu.symm.trans hw) ▸ hrise
  obtain ⟨hends, hprice⟩ := updateConstant_ends hreached hr 80
  obtain ⟨o, ho⟩ := hprice hopt hpriced
  exact ⟨y, r, o, hy, hr, hmoved, (hends.1 ⟨_, o, ho⟩).resolve_left hmoved, hpriced, ho⟩

/-- Not every change is over. Three bounds on four widths, nothing preferred, so that every tableau
is an optimum: the first bound is raised by 2, and after nine exchanges the repair is where it was
after three, though there are widths that meet the bounds. -/
theorem updateConstant_circles :
    ∃ y r, replay (fun _ _ o => o.isRepaired) 9
      [.newVariable true, .newVariable true, .newVariable true, .newVariable true,
        .add (.compare ((LinearForm.const 0).addTerms [(⟨0, .bounded⟩, -2), (⟨1, .bounded⟩, 1),
          (⟨2, .bounded⟩, 2), (⟨3, .bounded⟩, 2)]) .atLeast (.const 0)),
        .add (.compare ((LinearForm.const 0).addTerms [(⟨0, .bounded⟩, 2), (⟨1, .bounded⟩, -2),
          (⟨2, .bounded⟩, -2), (⟨3, .bounded⟩, 2)]) .atLeast (.const (-1))),
        .add (.compare ((LinearForm.const 0).addTerms [(⟨0, .bounded⟩, 1), (⟨1, .bounded⟩, 2)])
          .atLeast (.const (-1)))] ([], new) = some y ∧
      y.2.record? ⟨0⟩ = some r ∧ y.2.tableau.Optimal ∧
      (y.2.shifted ⟨0⟩ r 2).Satisfiable y.1 ∧
      (y.2.shifted ⟨0⟩ r 2).tableau.Circles repairStep ∧
      ∀ n, y.2.updateConstant n ⟨0⟩ 2 = none := by
  have hrun : (replay (fun _ _ o => o.isRepaired) 9
      [.newVariable true, .newVariable true, .newVariable true, .newVariable true,
        .add (.compare ((LinearForm.const 0).addTerms [(⟨0, .bounded⟩, -2), (⟨1, .bounded⟩, 1),
          (⟨2, .bounded⟩, 2), (⟨3, .bounded⟩, 2)]) .atLeast (.const 0)),
        .add (.compare ((LinearForm.const 0).addTerms [(⟨0, .bounded⟩, 2), (⟨1, .bounded⟩, -2),
          (⟨2, .bounded⟩, -2), (⟨3, .bounded⟩, 2)]) .atLeast (.const (-1))),
        .add (.compare ((LinearForm.const 0).addTerms [(⟨0, .bounded⟩, 1), (⟨1, .bounded⟩, 2)])
          .atLeast (.const (-1)))] ([], new)).any (fun y =>
      decide (y.2.tableau.candidates.members = []) && (y.2.record? ⟨0⟩).any fun r =>
        decide (r.constraint.constantFor 2 ≠ r.constraint.form.constant) &&
        decide (∀ v ∈ y.1, v.role = .bounded →
          0 ≤ (Pi.single ⟨3, .bounded⟩ 1 : Assignment Rat) v) &&
        decide ((y.2.shifted ⟨0⟩ r 2).RequiredHold (Pi.single ⟨3, .bounded⟩ 1)) &&
        (after repairStep 3 (y.2.shifted ⟨0⟩ r 2).tableau).any fun u =>
          decide (after repairStep 9 (y.2.shifted ⟨0⟩ r 2).tableau = some u)) = true := by
    decide +kernel
  obtain ⟨y, hy, hcheck⟩ := (Option.any_eq_true _ _).1 hrun
  simp only [Bool.and_eq_true, decide_eq_true_eq, Option.any_eq_true] at hcheck
  obtain ⟨hnone, r, hr, ⟨⟨hmoved, hnonneg⟩, hhold⟩, u, hthird, hninth⟩ := hcheck
  have hreached : Reached (fun _ _ o => o.Repaired) y.1 y.2 :=
    Reached.replay (fun _ _ _ htest => Outcome.repaired_of_isRepaired htest) (.start {}) hy
  obtain ⟨V, hsound⟩ := hreached.sound
  have hcircles : (y.2.shifted ⟨0⟩ r 2).tableau.Circles repairStep :=
    ⟨3, 9, u, by decide, hthird, hninth⟩
  refine ⟨y, r, hy, hr, hsound.stands.tidy.scouted.optimal_iff.2 hnone, ⟨_, hnonneg, hhold⟩,
    hcircles, fun n => ?_⟩
  rw [← Option.not_isSome_iff_eq_none, Option.isSome_iff_exists, updateConstant_ends_iff hr]
  rintro (hsame | ⟨p, hp⟩)
  · exact hmoved hsame
  · exact absurd (hp.symm.trans (hcircles.iterate n)) nofun

end Solver

end SoftSimplex
