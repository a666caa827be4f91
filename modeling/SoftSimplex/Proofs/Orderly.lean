import SoftSimplex.Proofs.CandidateCache

/-!
# What holds of a tableau whatever the arithmetic

`Orderly V` gathers what every operation keeps without asking anything of the numbers: the tableau
is well formed, speaks of variables in `V` only, and its candidates are up to date. There is one
law for each operation.
-/

namespace SoftSimplex

variable {α : Type} [Scalar α]

namespace Tableau

structure Orderly (V : Variable → Prop) (t : Tableau α) : Prop where
  wellFormed : t.WellFormed
  within : t.Over V
  scouted : t.Scouted

variable {V : Variable → Prop} {t t' : Tableau α}

theorem orderly_empty : (∅ : Tableau α).Orderly V :=
  ⟨wellFormed_empty, over_empty, scouted_empty⟩

theorem Orderly.mono {W : Variable → Prop} (h : t.Orderly V) (hVW : ∀ v, V v → W v) :
    t.Orderly W :=
  ⟨h.wellFormed, h.within.mono hVW, h.scouted⟩

theorem Orderly.removeRow (h : t.Orderly V) (b : Variable) : (t.removeRow b).Orderly V :=
  ⟨h.wellFormed.removeRow b, h.within.removeRow b,
    (scouted_iff_of_frame (candidates_removeRow t b) (objective_removeRow t b)).2 h.scouted⟩

theorem Orderly.insertRow (h : t.Orderly V) {b : Variable} (hb : t.Absent b) (hbV : V b)
    {f : LinearForm α} (hvars : ∀ v ∈ f.vars, V v ∧ v ≠ b ∧ t.row? v = none) :
    (t.insertRow b f).Orderly V :=
  ⟨h.wellFormed.insertRow hb fun v hv => (hvars v hv).2,
    h.within.insertRow hbV fun v hv => (hvars v hv).1, (scouted_iff_of_frame rfl rfl).2 h.scouted⟩

theorem Orderly.removeColumn (hV : Numbered V) (h : t.Orderly V) {v : Variable} (hv : V v) :
    (t.removeColumn v).Orderly V :=
  ⟨h.wellFormed.removeColumn v, h.within.removeColumn h.wellFormed.indexed v,
    h.scouted.removeColumn hV h.within hv⟩

theorem Orderly.discard (hV : Numbered V) (h : t.Orderly V) {v : Variable} (hv : V v) :
    (t.discard v).Orderly V :=
  (h.removeRow v).removeColumn hV hv

theorem Orderly.addCost (hV : Numbered V) (h : t.Orderly V) {v : Variable} (hv : V v) (c : α) :
    (t.addCost v c).Orderly V :=
  ⟨h.wellFormed.addCost v c, h.within.addCost hv c, h.scouted.addCost hV h.within hv c⟩

theorem Orderly.waive (hV : Numbered V) (h : t.Orderly V) {v : Variable} (hv : V v) (c : α) :
    (t.waive c v).Orderly V :=
  (h.addCost hV hv (-c)).removeRow v

/-- Solving an equation in nonbasic variables for one of them. -/
theorem Orderly.insertSolved (hV : Numbered V) (h : t.Orderly V) {v : Variable}
    {f : LinearForm α} (hv : v ∈ f.vars) (hvars : ∀ w ∈ f.vars, V w ∧ t.row? w = none) :
    ((t.substitute v (f.isolate v)).insertRow v (f.isolate v)).Orderly V := by
  have ht := h.wellFormed.indexed
  have hrow : ∀ w ∈ (f.isolate v).vars, w ≠ v ∧ w ∈ f.vars := by
    intro w hw
    refine ⟨?_, LinearForm.mem_vars_of_isolate hw⟩
    rintro rfl
    exact LinearForm.not_mem_vars_isolate f w hw
  have hopen : ∀ w ∈ (f.isolate v).vars, w ≠ v ∧ t.row? w = none :=
    fun w hw => ⟨(hrow w hw).1, (hvars w (hrow w hw).2).2⟩
  have hover : ∀ w ∈ (f.isolate v).vars, V w := fun w hw => (hvars w (hrow w hw).2).1
  refine ⟨h.wellFormed.substitute_insertRow (hvars v hv).2 hopen,
    (h.within.substitute ht (hvars v hv).1 hover).insertRow (hvars v hv).1 hover, ?_⟩
  have hs := h.scouted.substitute hV h.within ht (hvars v hv).1 hover
  exact (scouted_iff_of_frame rfl rfl).2 hs

theorem Orderly.exchange (hV : Numbered V) (h : t.Orderly V) {entry exit : Variable}
    (he : t.exchange entry exit = .ok t') : t'.Orderly V :=
  ⟨h.wellFormed.exchange he, h.within.exchange h.wellFormed.indexed he,
    h.scouted.exchange hV h.within h.wellFormed.indexed he⟩

theorem Orderly.shiftConstant (h : t.Orderly V) {m : Variable} (hm : m.isRestricted = true)
    (δ : α) : (t.shiftConstant m δ).Orderly V := by
  obtain ⟨-, hobj, -, hcand⟩ := shiftConstant_frame t m δ
  exact ⟨h.wellFormed.shiftConstant hm δ, h.within.shiftConstant m δ,
    (scouted_iff_of_frame hcand hobj).2 h.scouted⟩

theorem Orderly.withQueue (h : t.Orderly V) {q : Roster Variable}
    (hq : ∀ b ∈ q.keys, b ∈ t.queue.keys) : ({ t with queue := q } : Tableau α).Orderly V :=
  ⟨h.wellFormed.withQueue hq, h.within.withQueue q, (scouted_iff_of_frame rfl rfl).2 h.scouted⟩

theorem Orderly.withArtificial (h : t.Orderly V) {a : Option (LinearForm α)}
    (ha : ∀ g, a = some g → ∀ v ∈ g.vars, V v ∧ t.row? v = none) :
    ({ t with artificial := a } : Tableau α).Orderly V :=
  ⟨h.wellFormed.withArtificial fun hg hv => (ha _ hg _ hv).2,
    h.within.withArtificial fun hg v hv => (ha _ hg v hv).1,
    (scouted_iff_of_frame rfl rfl).2 h.scouted⟩

end Tableau

end SoftSimplex
