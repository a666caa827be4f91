import SoftSimplex.Proofs.TableauView
import SoftSimplex.Tableau.Primal
import SoftSimplex.Tableau.Dual

/-!
# Well-formed tableaus

A tableau is well formed if its index is exact, no basic variable occurs in a row or in an
objective, and only restricted basic variables are queued. Every operation keeps that, whatever
the arithmetic. `Over V` confines the variables of a tableau to `V`, and `FreeApart` says that
free variables occur in the rows of free variables only.
-/

namespace SoftSimplex

variable {α : Type}

namespace LinearForm

theorem mem_vars_of_isolate [Scalar α] {f : LinearForm α} {v w : Variable}
    (h : w ∈ (f.isolate v).vars) : w ∈ f.vars := by
  unfold isolate at h
  cases hf : f.terms.get? v with
  | some c =>
    simp only [hf, vars_scale] at h
    exact (mem_vars_erase.1 h).2
  | none => simpa [hf] using h

theorem mem_vars_of_exchange [Scalar α] {f : LinearForm α} {old new w : Variable}
    (h : w ∈ (f.exchange old new).vars) : w ≠ new ∧ (w = old ∨ w ∈ f.vars) := by
  refine ⟨?_, mem_vars_addTerm (mem_vars_of_isolate h)⟩
  rintro rfl
  exact not_mem_vars_isolate _ w h

theorem mem_vars_of_substitute [Scalar α] {f g : LinearForm α} {v w : Variable}
    (h : w ∈ (f.substitute v g).vars) : v ∈ f.vars ∧ w ∈ g.vars ∨ w ≠ v ∧ w ∈ f.vars := by
  unfold substitute at h
  cases hf : f.terms.get? v with
  | some c =>
    simp only [hf] at h
    rcases mem_vars_addScaled h with hw | hw
    · exact .inl ⟨mem_vars_iff.2 ⟨c, hf⟩, hw⟩
    · exact .inr (mem_vars_erase.1 hw)
  | none =>
    simp only [hf] at h
    refine .inr ⟨?_, h⟩
    rintro rfl
    rw [mem_vars_iff, hf] at h
    simp at h

end LinearForm

namespace Tableau

structure WellFormed (t : Tableau α) : Prop where
  indexed : t.Indexed
  row_open : ∀ {b f v}, t.row? b = some f → v ∈ f.vars → t.row? v = none
  objective_open : ∀ {v}, v ∈ t.objective.vars → t.row? v = none
  artificial_open : ∀ {g v}, t.artificial = some g → v ∈ g.vars → t.row? v = none
  queued : ∀ {b}, b ∈ t.queue.keys → b.isRestricted = true ∧ ∃ f, t.row? b = some f

/-- No row and no objective has anything to do with `v`. -/
structure Absent (t : Tableau α) (v : Variable) : Prop where
  nonbasic : t.row? v = none
  rows : ∀ {b f}, t.row? b = some f → v ∉ f.vars
  objective : v ∉ t.objective.vars
  artificial : ∀ {g}, t.artificial = some g → v ∉ g.vars

theorem WellFormed.ne_of_mem {t : Tableau α} (h : t.WellFormed) {b c v : Variable}
    {f g : LinearForm α} (hf : t.row? b = some f) (hv : v ∈ f.vars) (hc : t.row? c = some g) :
    v ≠ c := by
  rintro rfl
  rw [h.row_open hf hv] at hc
  cases hc

theorem WellFormed.withQueue {t : Tableau α} (h : t.WellFormed) {q : Roster Variable}
    (hq : ∀ b ∈ q.keys, b ∈ t.queue.keys) : ({ t with queue := q } : Tableau α).WellFormed :=
  ⟨⟨h.indexed.mirrors, h.indexed.full⟩, h.row_open, h.objective_open, h.artificial_open,
    fun hb => h.queued (hq _ hb)⟩

theorem WellFormed.withCandidates {t : Tableau α} (h : t.WellFormed) (c : Candidates) :
    ({ t with candidates := c } : Tableau α).WellFormed :=
  ⟨⟨h.indexed.mirrors, h.indexed.full⟩, h.row_open, h.objective_open, h.artificial_open,
    h.queued⟩

theorem WellFormed.withArtificial {t : Tableau α} (h : t.WellFormed)
    {a : Option (LinearForm α)} (ha : ∀ {g v}, a = some g → v ∈ g.vars → t.row? v = none) :
    ({ t with artificial := a } : Tableau α).WellFormed :=
  ⟨⟨h.indexed.mirrors, h.indexed.full⟩, h.row_open, h.objective_open, ha, h.queued⟩

theorem WellFormed.withObjective {t : Tableau α} (h : t.WellFormed) {f : LinearForm α}
    (hf : ∀ {v}, v ∈ f.vars → t.row? v = none) :
    ({ t with objective := f } : Tableau α).WellFormed :=
  ⟨⟨h.indexed.mirrors, h.indexed.full⟩, h.row_open, hf, h.artificial_open, h.queued⟩

theorem wellFormed_empty [Scalar α] : (∅ : Tableau α).WellFormed where
  indexed := by
    refine ⟨?_, ?_⟩
    · intro v b
      constructor
      · intro h
        cases h
      · rintro ⟨f, hf, -⟩
        cases hf
    · intro v col hcol
      cases hcol
  row_open := by
    intro b f v hf
    cases hf
  objective_open := fun _ => rfl
  artificial_open := by
    intro g v hg
    cases hg
  queued := by
    intro b hb
    cases hb

theorem WellFormed.removeRow {t : Tableau α} (h : t.WellFormed) (b : Variable) :
    (t.removeRow b).WellFormed where
  indexed := h.indexed.removeRow b
  row_open := by
    intro c f v hc hv
    obtain ⟨-, hc⟩ := row?_of_removeRow hc
    rw [row?_removeRow, h.row_open hc hv]
    simp
  objective_open := by
    intro v hv
    rw [objective_removeRow] at hv
    rw [row?_removeRow, h.objective_open hv]
    simp
  artificial_open := by
    intro g v hg hv
    rw [artificial_removeRow] at hg
    rw [row?_removeRow, h.artificial_open hg hv]
    simp
  queued := by
    intro q hq
    obtain ⟨hq, hne⟩ := mem_queue_removeRow.1 hq
    obtain ⟨hr, f, hf⟩ := h.queued hq
    have hqb : q ≠ b := by
      rintro rfl
      rw [hne rfl] at hf
      cases hf
    exact ⟨hr, f, by rw [row?_removeRow, if_neg hqb, hf]⟩

/-- A basic variable occurs nowhere once its row is gone. -/
theorem WellFormed.absent_removeRow {t : Tableau α} (h : t.WellFormed) {b : Variable}
    {f : LinearForm α} (hb : t.row? b = some f) : (t.removeRow b).Absent b where
  nonbasic := row?_removeRow_self t b
  rows := by
    intro c g hc hm
    rw [h.row_open (row?_of_removeRow hc).2 hm] at hb
    cases hb
  objective := by
    intro hm
    rw [objective_removeRow] at hm
    rw [h.objective_open hm] at hb
    cases hb
  artificial := by
    intro g hg hm
    rw [artificial_removeRow] at hg
    rw [h.artificial_open hg hm] at hb
    cases hb

theorem WellFormed.insertRow {t : Tableau α} (h : t.WellFormed) {b : Variable}
    (hb : t.Absent b) {f : LinearForm α} (hf : ∀ v ∈ f.vars, v ≠ b ∧ t.row? v = none) :
    (t.insertRow b f).WellFormed where
  indexed := h.indexed.insertRow hb.nonbasic f
  row_open := by
    intro c g v hc hv
    rw [row?_insertRow] at hc ⊢
    split at hc
    · cases hc
      obtain ⟨hne, hv⟩ := hf v hv
      rw [if_neg hne, hv]
    · have hne : v ≠ b := by
        rintro rfl
        exact hb.rows hc hv
      rw [if_neg hne, h.row_open hc hv]
  objective_open := by
    intro v hv
    have hne : v ≠ b := by
      rintro rfl
      exact hb.objective hv
    rw [row?_insertRow, if_neg hne]
    exact h.objective_open hv
  artificial_open := by
    intro g v hg hv
    have hne : v ≠ b := by
      rintro rfl
      exact hb.artificial hg hv
    rw [row?_insertRow, if_neg hne]
    exact h.artificial_open hg hv
  queued := by
    intro q hq
    obtain ⟨hr, g, hg⟩ := h.queued hq
    refine ⟨hr, ?_⟩
    rw [row?_insertRow]
    split
    · exact ⟨f, rfl⟩
    · exact ⟨g, hg⟩

theorem WellFormed.removeColumn {t : Tableau α} (h : t.WellFormed) (v : Variable) :
    (t.removeColumn v).WellFormed where
  indexed := h.indexed.removeColumn v
  row_open := by
    intro b f w hb hw
    rw [h.indexed.row?_removeColumn, Option.map_eq_some_iff] at hb
    obtain ⟨f', hf', rfl⟩ := hb
    rw [h.indexed.row?_removeColumn, h.row_open hf' (LinearForm.mem_vars_erase.1 hw).2]
    rfl
  objective_open := by
    intro w hw
    rw [h.indexed.row?_removeColumn, h.objective_open (LinearForm.mem_vars_erase.1 hw).2]
    rfl
  artificial_open := by
    intro g w hg hw
    obtain ⟨g', hg', rfl⟩ := Option.map_eq_some_iff.1 hg
    rw [h.indexed.row?_removeColumn, h.artificial_open hg' (LinearForm.mem_vars_erase.1 hw).2]
    rfl
  queued := by
    intro q hq
    obtain ⟨hr, f, hf⟩ := h.queued hq
    exact ⟨hr, f.erase v, by rw [h.indexed.row?_removeColumn, hf]; rfl⟩

variable [Scalar α]

theorem WellFormed.refreshAll {t : Tableau α} (h : t.WellFormed) (vs : List Variable) :
    (t.refreshAll vs).WellFormed := by
  rw [refreshAll_eq]
  exact h.withCandidates _

/-- What replaces a variable in a form, if the variable is basic, is its row. -/
theorem mem_vars_of_accumulate {t : Tableau α} {f : LinearForm α} {v w : Variable} {c : α}
    (h : w ∈ (t.accumulate f v c).vars) :
    w ∈ f.vars ∨ t.row? v = none ∧ w = v ∨ ∃ g, t.row? v = some g ∧ w ∈ g.vars := by
  unfold accumulate at h
  cases hv : t.row? v with
  | some g =>
    simp only [hv] at h
    rcases LinearForm.mem_vars_addScaled h with hw | hw
    · exact .inr (.inr ⟨g, rfl, hw⟩)
    · exact .inl hw
  | none =>
    simp only [hv] at h
    rcases LinearForm.mem_vars_addTerm h with hw | hw
    · exact .inr (.inl ⟨rfl, hw⟩)
    · exact .inl hw

theorem WellFormed.accumulate_open {t : Tableau α} (h : t.WellFormed) {f : LinearForm α}
    (hf : ∀ {w}, w ∈ f.vars → t.row? w = none) {v w : Variable} {c : α}
    (hw : w ∈ (t.accumulate f v c).vars) : t.row? w = none := by
  rcases mem_vars_of_accumulate hw with hw | ⟨hv, rfl⟩ | ⟨g, hg, hw⟩
  · exact hf hw
  · exact hv
  · exact h.row_open hg hw

theorem WellFormed.addCost {t : Tableau α} (h : t.WellFormed) (v : Variable) (c : α) :
    (t.addCost v c).WellFormed := by
  unfold Tableau.addCost
  apply WellFormed.refreshAll
  exact h.withObjective (h.accumulate_open h.objective_open)

section Substitute

variable {t : Tableau α} {v : Variable} {g : LinearForm α}

/-- A nonbasic variable may be replaced by a form in other nonbasic ones, and is gone then. -/
theorem WellFormed.substitute (h : t.WellFormed) (hg : ∀ w ∈ g.vars, w ≠ v ∧ t.row? w = none) :
    (t.substitute v g).WellFormed where
  indexed := h.indexed.substitute v g
  row_open := by
    intro b f w hb hw
    rw [h.indexed.row?_substitute, Option.map_eq_some_iff] at hb
    obtain ⟨f', hf', rfl⟩ := hb
    rw [h.indexed.row?_substitute, Option.map_eq_none_iff]
    rcases LinearForm.mem_vars_of_substitute hw with ⟨-, hw⟩ | ⟨-, hw⟩
    · exact (hg w hw).2
    · exact h.row_open hf' hw
  objective_open := by
    intro w hw
    rw [objective_substitute] at hw
    rw [h.indexed.row?_substitute, Option.map_eq_none_iff]
    rcases LinearForm.mem_vars_of_substitute hw with ⟨-, hw⟩ | ⟨-, hw⟩
    · exact (hg w hw).2
    · exact h.objective_open hw
  artificial_open := by
    intro f w hf hw
    rw [artificial_substitute, Option.map_eq_some_iff] at hf
    obtain ⟨f', hf', rfl⟩ := hf
    rw [h.indexed.row?_substitute, Option.map_eq_none_iff]
    rcases LinearForm.mem_vars_of_substitute hw with ⟨-, hw⟩ | ⟨-, hw⟩
    · exact (hg w hw).2
    · exact h.artificial_open hf' hw
  queued := by
    intro q hq
    rcases mem_queue_substitute.1 hq with hq | ⟨-, hr, f, hf, -⟩
    · obtain ⟨hr, f, hf⟩ := h.queued hq
      exact ⟨hr, f.substitute v g, by rw [h.indexed.row?_substitute, hf]; rfl⟩
    · exact ⟨hr, f, hf⟩

theorem WellFormed.absent_substitute (h : t.WellFormed) (hv : t.row? v = none)
    (hg : v ∉ g.vars) : (t.substitute v g).Absent v where
  nonbasic := by rw [h.indexed.row?_substitute, hv]; rfl
  rows := by
    intro b f hb hm
    rw [h.indexed.row?_substitute, Option.map_eq_some_iff] at hb
    obtain ⟨f', -, rfl⟩ := hb
    rcases LinearForm.mem_vars_of_substitute hm with ⟨-, hm⟩ | ⟨hne, -⟩
    · exact hg hm
    · exact hne rfl
  objective := by
    intro hm
    rw [objective_substitute] at hm
    rcases LinearForm.mem_vars_of_substitute hm with ⟨-, hm⟩ | ⟨hne, -⟩
    · exact hg hm
    · exact hne rfl
  artificial := by
    intro f hf hm
    rw [artificial_substitute, Option.map_eq_some_iff] at hf
    obtain ⟨f', -, rfl⟩ := hf
    rcases LinearForm.mem_vars_of_substitute hm with ⟨-, hm⟩ | ⟨hne, -⟩
    · exact hg hm
    · exact hne rfl

/-- Solving for a nonbasic variable and making it basic. -/
theorem WellFormed.substitute_insertRow (h : t.WellFormed) (hv : t.row? v = none)
    (hg : ∀ w ∈ g.vars, w ≠ v ∧ t.row? w = none) :
    ((t.substitute v g).insertRow v g).WellFormed := by
  apply (h.substitute hg).insertRow (h.absent_substitute hv fun hm => (hg v hm).1 rfl)
  intro w hw
  obtain ⟨hne, hw⟩ := hg w hw
  exact ⟨hne, by rw [h.indexed.row?_substitute, hw]; rfl⟩

end Substitute

section Exchange

variable {t t' : Tableau α} {entry exit : Variable}

/-- The rows after an exchange. -/
theorem WellFormed.row?_exchange (h : t.WellFormed) {row : LinearForm α}
    (hrow : t.row? exit = some row) (he : t.exchange entry exit = .ok t') (c : Variable) :
    t'.row? c = if c = entry then some (row.exchange exit entry)
      else if c = exit then none
      else (t.row? c).map (·.substitute entry (row.exchange exit entry)) := by
  obtain ⟨row', hrow', -, rfl⟩ := exchange_eq_ok.1 he
  cases hrow.symm.trans hrow'
  rw [row?_insertRow, (h.indexed.removeRow exit).row?_substitute, row?_removeRow]
  by_cases hc : c = exit <;> simp [hc]

theorem WellFormed.exchange (h : t.WellFormed) (he : t.exchange entry exit = .ok t') :
    t'.WellFormed := by
  obtain ⟨row, hrow, hmem, rfl⟩ := exchange_eq_ok.1 he
  have hopen := h.row_open hrow hmem
  apply (h.removeRow exit).substitute_insertRow
  · rw [row?_removeRow, hopen]
    simp
  · intro w hw
    obtain ⟨hne, rfl | hw⟩ := LinearForm.mem_vars_of_exchange hw
    · exact ⟨hne, row?_removeRow_self t w⟩
    · refine ⟨hne, ?_⟩
      rw [row?_removeRow, h.row_open hrow hw]
      simp

end Exchange

theorem WellFormed.shiftConstant {t : Tableau α} (h : t.WellFormed) {m : Variable}
    (hm : m.isRestricted = true) (δ : α) : (t.shiftConstant m δ).WellFormed := by
  obtain ⟨-, hobj, hart, -⟩ := shiftConstant_frame t m δ
  have hnone : ∀ {v}, t.row? v = none → (t.shiftConstant m δ).row? v = none := by
    intro v hv
    rcases row?_shiftConstant t m δ v with h' | ⟨k, h'⟩ <;> rw [h', hv]
    rfl
  have hsome : ∀ {b f}, (t.shiftConstant m δ).row? b = some f →
      ∃ f', t.row? b = some f' ∧ f.vars = f'.vars := by
    intro b f hb
    rcases row?_shiftConstant t m δ b with h' | ⟨k, h'⟩
    · exact ⟨f, h' ▸ hb, rfl⟩
    · rw [h', Option.map_eq_some_iff] at hb
      obtain ⟨f', hf', rfl⟩ := hb
      exact ⟨f', hf', LinearForm.vars_shift f' k⟩
  refine ⟨h.indexed.shiftConstant m δ, ?_, ?_, ?_, ?_⟩
  · intro b f v hb hv
    obtain ⟨f', hf', hvars⟩ := hsome hb
    exact hnone (h.row_open hf' (hvars ▸ hv))
  · intro v hv
    exact hnone (h.objective_open (hobj ▸ hv))
  · intro g v hg hv
    exact hnone (h.artificial_open (hart ▸ hg) hv)
  · intro q hq
    have hqueue : q ∈ t.queue.keys ∨ (t.shiftConstant m δ).Sunk q := by
      cases hb : t.row? m with
      | some row => exact ((mem_queue_shiftConstant_of_basic hb hm).1 hq).imp_right And.right
      | none => exact ((mem_queue_shiftConstant_of_nonbasic hb).1 hq).imp_right And.right
    rcases hqueue with hq | ⟨hr, f, hf, -⟩
    · obtain ⟨hr, f, hf⟩ := h.queued hq
      refine ⟨hr, ?_⟩
      rcases row?_shiftConstant t m δ q with h' | ⟨k, h'⟩ <;> rw [h', hf]
      · exact ⟨f, rfl⟩
      · exact ⟨f.shift k, rfl⟩
    · exact ⟨hr, f, hf⟩

end Tableau

end SoftSimplex
