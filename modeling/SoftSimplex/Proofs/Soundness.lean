import SoftSimplex.Proofs.Books
import SoftSimplex.Proofs.Standing

/-!
# Books and tableau agree

A solver is sound if its books are in order and its tableau stands for the balance of all records,
with the cost of their errors as the objective. Taking a constraint out keeps that: its errors
and its marker carry the equation, so that they, and nothing else, can go with it.
-/

namespace SoftSimplex

namespace Solver

variable {V : Variable → Prop} {vs : List Variable} {s : Solver Rat} {id : ConstraintId}
variable {r : Record Rat}

/-- The tableau stands for the books. -/
structure Sound (V : Variable → Prop) (vs : List Variable) (s : Solver Rat) : Prop where
  books : s.Books V vs
  stands : s.tableau.Stands V s.Balanced s.penalty

theorem sound_start (settings : Settings) : (ofSettings settings).Sound (fun _ => False) [] := by
  refine ⟨books_start settings, Tableau.stands_empty.congr ?_ fun _ => rfl⟩
  intro σ
  refine iff_of_true trivial ?_
  intro i q hq
  cases hq

/-- Nothing is asked of the settings. -/
theorem Sound.of_frame (h : s.Sound V vs) {s' : Solver Rat} (hsupply : s'.supply = s.supply)
    (htableau : s'.tableau = s.tableau) (hrecords : s'.records = s.records)
    (hmarkers : s'.markers = s.markers) (hnext : s'.nextId = s.nextId) : s'.Sound V vs := by
  refine ⟨h.books.of_frame hsupply hrecords hmarkers hnext, ?_⟩
  rw [htableau]
  apply h.stands.congr
  · intro σ
    apply forall₂_congr
    intro i q
    rw [record?_congr hrecords]
  · intro σ
    unfold penalty
    rw [hrecords]

/-- A pass changes nothing but the basis. -/
theorem Sound.keeps (h : s.Sound V vs) {t : Tableau Rat} (hk : Tableau.Keeps V s.tableau t) :
    ({ s with tableau := t } : Solver Rat).Sound V vs :=
  ⟨h.books.of_frame rfl rfl rfl rfl, h.stands.keeps hk⟩

theorem Sound.reset (h : s.Sound V vs) : s.reset.solver.Sound V vs := by
  refine ⟨h.books.reset, Tableau.stands_empty.congr ?_ fun _ => rfl⟩
  intro σ
  refine iff_of_true trivial ?_
  intro i q hq
  cases hq

theorem Sound.newVariable (h : s.Sound V vs) (bounded : Bool) :
    (s.newVariable bounded).2.Sound (fun v => V v ∨ v = (s.newVariable bounded).1)
      (vs ++ [(s.newVariable bounded).1]) :=
  ⟨h.books.newVariable bounded, h.stands.mono fun _ hv => .inl hv⟩

/-- A variable that no record knows is nowhere in the tableau. -/
theorem Sound.absent (h : s.Sound V vs) {v : Variable} (hown : ∀ i q, s.record? i = some q → v ∉ q.own)
    (hform : ∀ i q, s.record? i = some q → v ∉ q.constraint.form.vars) : s.tableau.Absent v := by
  have hloose : ∀ σ k, s.tableau.Solves σ → s.tableau.Solves (Function.update σ v k) := by
    intro σ k hσ
    rw [h.stands.solves] at hσ ⊢
    intro i q hq
    exact ((h.books.proper hq).balanced_update_foreign (hown i q hq) (hform i q hq) k).2 (hσ i q hq)
  obtain ⟨hnone, hrows⟩ := h.stands.tidy.wellFormed.nowhere_of_loose h.stands.tidy.trim hloose
  refine ⟨hnone, hrows, fun hm => ?_, fun hg => ?_⟩
  · -- moving the variable changes no penalty, so the objective has no use for it
    have hpoint := h.stands.tidy.wellFormed.solves_point
    obtain ⟨K, hK⟩ := h.stands.measures
    have h₁ := hK _ hpoint
    have h₂ := hK _ (hloose _ (s.tableau.point v + 1) hpoint)
    rw [penalty_update hown, Tableau.eval_update] at h₂
    apply h.stands.tidy.trim.objective v hm
    linarith
  · rw [h.stands.settled] at hg
    cases hg

/-! ## Taking a constraint out -/

/-- An own variable is nothing to the other records, and its own record determines it. -/
theorem Books.separable (h : s.Books V vs) (hr : s.record? id = some r) :
    Tableau.Separable r.own (s.BalancedBut id) r.Balanced where
  ignored := fun _ hv _ k => h.balancedBut_update_iff hr hv k
  determined := fun _ hv σ => (h.proper hr).determined hv σ

theorem Books.errors_nodup (h : s.Books V vs) (hr : s.record? id = some r) : r.errors.Nodup := by
  obtain ⟨-, he, -⟩ | ⟨-, e, hne, -, ⟨-, -, he⟩ | ⟨-, -, he⟩⟩ := (h.fits hr).shape
  · simp [he]
  · simp [he]
  · simp [he, hne.symm]

/-- What the other records cost. -/
theorem Books.penalty_strike (h : s.Books V vs) (hr : s.record? id = some r) {v : Variable}
    (hv : v ∈ r.own) (σ : Assignment Rat) (k : Rat) :
    (s.strike id r).penalty (Function.update σ v k) = (s.strike id r).penalty σ := by
  apply penalty_update
  intro i q hq hvq
  obtain ⟨hi, hq⟩ := (record?_erase_iff rfl).1 hq
  exact hi (h.apart hq hr hvq hv)

/-- Striking a constraint out takes away what its errors cost. -/
theorem Books.strike_releases (h : s.Books V vs) (hr : s.record? id = some r)
    (ht : s.tableau.Releases V (s.BalancedBut id) r.Balanced s.penalty) :
    (s.strike id r).tableau.Releases V (s.BalancedBut id) r.Balanced
      (s.strike id r).penalty := by
  have hown : ∀ e ∈ r.errors, e ∈ r.own := fun e he => Record.error_mem_own he
  have hcost : ∀ σ, (s.strike id r).penalty σ + r.constraint.weight * (r.errors.map σ).sum =
      s.penalty σ := by
    intro σ
    rw [penalty_erase (s.strike id r) hr rfl]
    exact sub_add_cancel _ _
  apply (h.separable hr).waive h.issued.numbered (h.errors_nodup hr) hown
    fun e he => h.own hr e (hown e he)
  · exact fun v hv σ k => h.penalty_strike hr hv σ k
  · exact ht.imp (fun h => h.congr (fun _ => Iff.rfl) hcost)
      fun h => h.congr (fun _ => Iff.rfl) hcost

theorem feasible_foldl_waive {t : Tableau Rat} (ht : t.Feasible) (w : Rat) (es : List Variable) :
    (es.foldl (Tableau.waive w) t).Feasible := by
  induction es generalizing t with
  | nil => exact ht
  | cons e es ih =>
    apply ih
    exact (ht.of_rows fun c => Tableau.row?_addCost t e c _).removeRow e

/-- Whether or not the equation of a constraint is in the tableau, retracting the constraint leaves
the others. -/
theorem Books.retract (h : s.Books V vs) (hr : s.record? id = some r)
    (ht : s.tableau.Releases V (s.BalancedBut id) r.Balanced s.penalty) :
    (s.retract id).answer = .ok () ∧ (s.retract id).solver.Sound V vs ∧
      (s.retract id).solver.records = s.records.erase id ∧
      (s.tableau.Feasible → (s.retract id).solver.tableau.Feasible) := by
  have hs := h.separable hr
  have hstrike := h.strike_releases hr ht
  have hfeasible : s.tableau.Feasible → (s.strike id r).tableau.Feasible :=
    fun hf => feasible_foldl_waive hf r.constraint.weight r.errors
  have hm := r.marker_mem_own
  have hC := fun σ k => h.penalty_strike hr hm σ k
  have hsound : ∀ {t : Tableau Rat}, t.Stands V (s.BalancedBut id) (s.strike id r).penalty →
      ({ s.strike id r with tableau := t } : Solver Rat).Sound V vs := by
    intro t hst
    refine ⟨(h.strike hr).of_frame rfl rfl rfl rfl, hst.congr (fun σ => ?_) fun σ => rfl⟩
    exact (balanced_erase_iff _ id rfl).symm
  unfold Solver.retract
  simp only [hr]
  cases hx : (s.strike id r).exitFor? r.marker with
  | none =>
    refine ⟨rfl, hsound ?_, rfl, fun hf => (hfeasible hf).removeRow _⟩
    apply hs.removeRow_of_unlisted hstrike hm hC
    intro hbasic
    unfold exitFor? at hx
    rw [hbasic] at hx
    simpa using hx
  | some exit =>
    have hev : (s.strike id r).tableau.eviction? r.marker = some exit := by
      unfold exitFor? at hx
      split at hx
      · cases hx
      · exact hx
    obtain ⟨t', he, hst⟩ := hs.evict h.issued.numbered hstrike hm hC hev
    simp only [he]
    refine ⟨trivial, hsound hst, rfl, fun hf => ?_⟩
    exact (hfeasible hf).exchange_evict hstrike.tidy.wellFormed hstrike.tidy.trim hev he

end Solver

end SoftSimplex
