import SoftSimplex.Proofs.WellFormed

/-!
# Which variables occur where

`Over V` confines the variables of a tableau to `V`; `FreeApart` says that free variables occur
in the rows of free variables only. Both are kept by every exchange that a pass makes. When a
free variable gives up its row to a marker, `FreeApart` fails until that row is dropped.
-/

namespace SoftSimplex

variable {α : Type}

theorem Variable.isRestricted_iff {v : Variable} : v.isRestricted = true ↔ v.role ≠ .free :=
  bne_iff_ne

namespace Tableau

/-! ## Confinement -/

structure Over (V : Variable → Prop) (t : Tableau α) : Prop where
  row : ∀ {b f}, t.row? b = some f → V b ∧ ∀ v ∈ f.vars, V v
  objective : ∀ v ∈ t.objective.vars, V v
  artificial : ∀ {g}, t.artificial = some g → ∀ v ∈ g.vars, V v
  candidates : ∀ v ∈ t.candidates.members, V v

variable {V : Variable → Prop} {t : Tableau α}

theorem over_empty [Scalar α] : (∅ : Tableau α).Over V where
  row := by
    intro b f hf
    cases hf
  objective := by
    intro v hv
    cases hv
  artificial := by
    intro g hg
    cases hg
  candidates := by
    intro v hv
    cases hv

theorem Over.mono {W : Variable → Prop} (h : t.Over V) (hVW : ∀ v, V v → W v) : t.Over W where
  row := fun hf => ⟨hVW _ (h.row hf).1, fun v hv => hVW v ((h.row hf).2 v hv)⟩
  objective := fun v hv => hVW v (h.objective v hv)
  artificial := fun hg v hv => hVW v (h.artificial hg v hv)
  candidates := fun v hv => hVW v (h.candidates v hv)

/-- A variable outside `V` occurs nowhere. -/
theorem Over.absent (h : t.Over V) {v : Variable} (hv : ¬V v) : t.Absent v where
  nonbasic := by
    cases hb : t.row? v with
    | none => rfl
    | some f => exact absurd (h.row hb).1 hv
  rows := fun hb hm => hv ((h.row hb).2 v hm)
  objective := fun hm => hv (h.objective v hm)
  artificial := fun hg hm => hv (h.artificial hg v hm)

theorem Over.withCandidates (h : t.Over V) {c : Candidates} (hc : ∀ v ∈ c.members, V v) :
    ({ t with candidates := c } : Tableau α).Over V :=
  ⟨h.row, h.objective, h.artificial, hc⟩

theorem Over.withQueue (h : t.Over V) (q : Roster Variable) :
    ({ t with queue := q } : Tableau α).Over V :=
  ⟨h.row, h.objective, h.artificial, h.candidates⟩

theorem Over.withArtificial (h : t.Over V) {a : Option (LinearForm α)}
    (ha : ∀ {g}, a = some g → ∀ v ∈ g.vars, V v) :
    ({ t with artificial := a } : Tableau α).Over V :=
  ⟨h.row, h.objective, ha, h.candidates⟩

theorem Over.removeRow (h : t.Over V) (b : Variable) : (t.removeRow b).Over V where
  row := fun hf => h.row (row?_of_removeRow hf).2
  objective := by simpa using h.objective
  artificial := by
    intro g hg
    rw [artificial_removeRow] at hg
    exact h.artificial hg
  candidates := by simpa using h.candidates

theorem Over.insertRow (h : t.Over V) {b : Variable} {f : LinearForm α} (hb : V b)
    (hf : ∀ v ∈ f.vars, V v) : (t.insertRow b f).Over V where
  row := by
    intro c g hg
    rw [row?_insertRow] at hg
    split at hg
    · cases hg
      next hc => exact ⟨hc ▸ hb, hf⟩
    · exact h.row hg
  objective := h.objective
  artificial := h.artificial
  candidates := h.candidates

theorem Over.removeColumn (h : t.Over V) (ht : t.Indexed) (v : Variable) :
    (t.removeColumn v).Over V where
  row := by
    intro b f hf
    rw [ht.row?_removeColumn, Option.map_eq_some_iff] at hf
    obtain ⟨f', hf', rfl⟩ := hf
    exact ⟨(h.row hf').1, fun w hw => (h.row hf').2 w (LinearForm.mem_vars_erase.1 hw).2⟩
  objective := fun w hw => h.objective w (LinearForm.mem_vars_erase.1 hw).2
  artificial := by
    intro g hg w hw
    obtain ⟨g', hg', rfl⟩ := Option.map_eq_some_iff.1 hg
    exact h.artificial hg' w (LinearForm.mem_vars_erase.1 hw).2
  candidates := fun w hw => h.candidates w (List.mem_filter.1 hw).1

variable [Scalar α]

theorem Over.refresh (h : t.Over V) {v : Variable} (hv : V v) : (t.refresh v).Over V := by
  apply h.withCandidates
  intro w hw
  split at hw
  · rcases Candidates.mem_place hw with rfl | hw
    · exact hv
    · exact h.candidates w hw
  · exact h.candidates w (List.mem_filter.1 hw).1

theorem Over.refreshAll (h : t.Over V) {vs : List Variable} (hvs : ∀ v ∈ vs, V v) :
    (t.refreshAll vs).Over V := by
  induction vs generalizing t with
  | nil => exact h
  | cons v vs ih =>
    obtain ⟨hv, hvs⟩ := List.forall_mem_cons.1 hvs
    exact ih (h.refresh hv) hvs

theorem Over.accumulate (h : t.Over V) {f : LinearForm α} (hf : ∀ w ∈ f.vars, V w)
    {v : Variable} (hv : V v) (c : α) : ∀ w ∈ (t.accumulate f v c).vars, V w := by
  intro w hw
  rcases mem_vars_of_accumulate hw with hw | ⟨-, rfl⟩ | ⟨g, hg, hw⟩
  · exact hf w hw
  · exact hv
  · exact (h.row hg).2 w hw

theorem Over.addCost (h : t.Over V) {v : Variable} (hv : V v) (c : α) :
    (t.addCost v c).Over V := by
  unfold Tableau.addCost
  apply Over.refreshAll
  · exact ⟨h.row, h.accumulate h.objective hv c, h.artificial, h.candidates⟩
  · intro w hw
    cases hrow : t.row? v with
    | some row =>
      simp only [hrow] at hw
      exact (h.row hrow).2 w hw
    | none =>
      simp only [hrow, List.mem_singleton] at hw
      exact hw ▸ hv

theorem Over.substituteForms (h : t.Over V) (ht : t.Indexed) {v : Variable} {g : LinearForm α}
    (hg : ∀ w ∈ g.vars, V w) : (t.substituteForms v g).Over V := by
  have hform : ∀ {f : LinearForm α}, (∀ w ∈ f.vars, V w) →
      ∀ w ∈ (f.substitute v g).vars, V w := by
    intro f hf w hw
    rcases LinearForm.mem_vars_of_substitute hw with ⟨-, hw⟩ | ⟨-, hw⟩
    · exact hg w hw
    · exact hf w hw
  refine ⟨?_, ?_, ?_, ?_⟩
  · intro b f hf
    have hf : (t.substituteRows v g).row? b = some f := hf
    rw [← row?_substitute_eq, ht.row?_substitute, Option.map_eq_some_iff] at hf
    obtain ⟨f', hf', rfl⟩ := hf
    exact ⟨(h.row hf').1, hform (h.row hf').2⟩
  · apply hform
    simpa [substituteRows] using h.objective
  · intro f hf
    obtain ⟨f', hf', rfl⟩ := Option.map_eq_some_iff.1 hf
    simp only [substituteRows, artificial_foldl_substituteRow] at hf'
    exact hform (h.artificial hf')
  · simpa [Tableau.substituteForms, substituteRows] using h.candidates

theorem Over.substitute (h : t.Over V) (ht : t.Indexed) {v : Variable} {g : LinearForm α}
    (hv : V v) (hg : ∀ w ∈ g.vars, V w) : (t.substitute v g).Over V :=
  (h.substituteForms ht hg).refreshAll (List.forall_mem_cons.2 ⟨hv, hg⟩)

theorem Over.exchange (h : t.Over V) (ht : t.Indexed) {t' : Tableau α}
    {entry exit : Variable} (he : t.exchange entry exit = .ok t') : t'.Over V := by
  obtain ⟨row, hrow, hmem, rfl⟩ := exchange_eq_ok.1 he
  have hentry : V entry := (h.row hrow).2 entry hmem
  have hsolved : ∀ w ∈ (row.exchange exit entry).vars, V w := by
    intro w hw
    rcases (LinearForm.mem_vars_of_exchange hw).2 with rfl | hw
    · exact (h.row hrow).1
    · exact (h.row hrow).2 w hw
  exact ((h.removeRow exit).substitute (ht.removeRow exit) hentry hsolved).insertRow hentry hsolved

theorem Over.shiftConstant (h : t.Over V) (m : Variable) (δ : α) :
    (t.shiftConstant m δ).Over V := by
  obtain ⟨-, hobj, hart, hcand⟩ := shiftConstant_frame t m δ
  refine ⟨?_, hobj ▸ h.objective, hart ▸ h.artificial, hcand ▸ h.candidates⟩
  intro b f hb
  rcases row?_shiftConstant t m δ b with h' | ⟨k, h'⟩
  · exact h.row (h' ▸ hb)
  · rw [h', Option.map_eq_some_iff] at hb
    obtain ⟨f', hf', rfl⟩ := hb
    rw [LinearForm.vars_shift]
    exact h.row hf'

/-! ## Free variables -/

/-- Free variables occur in the rows of free variables only. -/
def FreeApart (t : Tableau α) : Prop :=
  ∀ ⦃b f v⦄, t.row? b = some f → v ∈ f.vars → b.isRestricted = true → v.isRestricted = true

theorem freeApart_empty : (∅ : Tableau α).FreeApart := by
  intro b f v hf
  cases hf

omit [Scalar α] in
theorem FreeApart.of_rows {t' : Tableau α} (h : t.FreeApart)
    (hrow : ∀ c, t'.row? c = t.row? c) : t'.FreeApart := by
  intro b f v hb
  rw [hrow] at hb
  exact h hb

omit [Scalar α] in
theorem FreeApart.removeRow (h : t.FreeApart) (b : Variable) : (t.removeRow b).FreeApart :=
  fun _ _ _ hf => h (row?_of_removeRow hf).2

omit [Scalar α] in
theorem FreeApart.insertRow (h : t.FreeApart) {b : Variable} {f : LinearForm α}
    (hf : b.isRestricted = true → ∀ v ∈ f.vars, v.isRestricted = true) :
    (t.insertRow b f).FreeApart := by
  intro c g v hg hv hc
  rw [row?_insertRow] at hg
  split at hg
  · next hcb =>
    cases hg
    exact hf (hcb ▸ hc) v hv
  · exact h hg hv hc

omit [Scalar α] in
theorem FreeApart.removeColumn (h : t.FreeApart) (ht : t.Indexed) (v : Variable) :
    (t.removeColumn v).FreeApart := by
  intro b f w hf hw
  rw [ht.row?_removeColumn, Option.map_eq_some_iff] at hf
  obtain ⟨f', hf', rfl⟩ := hf
  exact h hf' (LinearForm.mem_vars_erase.1 hw).2

theorem FreeApart.substitute (h : t.FreeApart) (ht : t.Indexed) {v : Variable}
    {g : LinearForm α} (hg : v.isRestricted = true → ∀ w ∈ g.vars, w.isRestricted = true) :
    (t.substitute v g).FreeApart := by
  intro b f w hf hw hb
  rw [ht.row?_substitute, Option.map_eq_some_iff] at hf
  obtain ⟨f', hf', rfl⟩ := hf
  rcases LinearForm.mem_vars_of_substitute hw with ⟨hv, hw⟩ | ⟨-, hw⟩
  · exact hg (h hf' hv hb) w hw
  · exact h hf' hw hb

/-- An exchange that takes out a restricted variable brings in a restricted one. -/
theorem FreeApart.exchange (h : t.FreeApart) (ht : t.Indexed) {t' : Tableau α}
    {entry exit : Variable} (hexit : exit.isRestricted = true)
    (he : t.exchange entry exit = .ok t') : t'.FreeApart := by
  obtain ⟨row, hrow, hmem, rfl⟩ := exchange_eq_ok.1 he
  have hsolved : entry.isRestricted = true →
      ∀ w ∈ (row.exchange exit entry).vars, w.isRestricted = true := by
    intro _ w hw
    rcases (LinearForm.mem_vars_of_exchange hw).2 with rfl | hw
    · exact hexit
    · exact h hrow hw hexit
  exact ((h.removeRow exit).substitute (ht.removeRow exit) hsolved).insertRow hsolved

/-- Where only free rows mention the variable that enters, it may take over a free row for the
moment in which it is taken out. -/
theorem FreeApart.exchange_removeRow (h : t.FreeApart) (ht : t.WellFormed) {t' : Tableau α}
    {entry exit : Variable}
    (hfree : ∀ {b f}, t.row? b = some f → b.isRestricted = true → entry ∉ f.vars)
    (he : t.exchange entry exit = .ok t') : (t'.removeRow entry).FreeApart := by
  obtain ⟨row, hrow, -, -⟩ := exchange_eq_ok.1 he
  intro b f w hf hw hb
  obtain ⟨hne, hf⟩ := row?_of_removeRow hf
  rw [ht.row?_exchange hrow he, if_neg hne] at hf
  split at hf
  · cases hf
  · obtain ⟨f', hf', rfl⟩ := Option.map_eq_some_iff.1 hf
    rcases LinearForm.mem_vars_of_substitute hw with ⟨hm, -⟩ | ⟨-, hw⟩
    · exact absurd hm (hfree hf' hb)
    · exact h hf' hw hb

theorem FreeApart.shiftConstant (h : t.FreeApart) (m : Variable) (δ : α) :
    (t.shiftConstant m δ).FreeApart := by
  intro b f v hb hv
  rcases row?_shiftConstant t m δ b with h' | ⟨k, h'⟩
  · exact h (h' ▸ hb) hv
  · rw [h', Option.map_eq_some_iff] at hb
    obtain ⟨f', hf', rfl⟩ := hb
    exact h hf' hv

end Tableau

end SoftSimplex
