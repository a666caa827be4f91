import SoftSimplex.Proofs.Solutions
import SoftSimplex.Proofs.Waiting

/-!
# Restricted rows stay nonnegative

`Feasible` says that no restricted row is negative, and `Watched` that those that are wait in the
queue. An exchange moves every row along the entering variable's column; each kind of choice by
ratio keeps rows from becoming negative for a reason of its own. A repair makes what is watched
feasible.
-/

namespace SoftSimplex

open LinearForm

namespace Tableau

variable {t t' : Tableau Rat} {entry exit : Variable}

def Feasible (t : Tableau Rat) : Prop :=
  ∀ ⦃b f⦄, t.row? b = some f → b.isRestricted = true → 0 ≤ f.constant

/-- Every restricted row that is negative is queued. -/
def Watched (t : Tableau Rat) : Prop := ∀ ⦃b⦄, t.Sunk b → b ∈ t.queue.keys

theorem sunk_iff {b : Variable} :
    t.Sunk b ↔ b.isRestricted = true ∧ ∃ f, t.row? b = some f ∧ f.constant < 0 := by
  unfold Sunk
  simp only [Scalar.isNeg_rat]

theorem feasible_iff : t.Feasible ↔ ∀ b, ¬t.Sunk b := by
  constructor
  · intro h b hb
    obtain ⟨hr, f, hf, hneg⟩ := sunk_iff.1 hb
    exact absurd (h hf hr) (not_le.2 hneg)
  · intro h b f hf hr
    by_contra hneg
    exact h b (sunk_iff.2 ⟨hr, f, hf, not_le.1 hneg⟩)

theorem feasible_empty : (∅ : Tableau Rat).Feasible := by
  intro b f hf
  cases hf

theorem Feasible.of_rows (h : t.Feasible) (hrow : ∀ c, t'.row? c = t.row? c) : t'.Feasible := by
  intro b f hb
  rw [hrow] at hb
  exact h hb

theorem Feasible.removeRow (h : t.Feasible) (b : Variable) : (t.removeRow b).Feasible :=
  fun _ _ hf => h (row?_of_removeRow hf).2

theorem Feasible.insertRow (h : t.Feasible) {b : Variable} {f : LinearForm Rat}
    (hf : 0 ≤ f.constant) : (t.insertRow b f).Feasible := by
  intro c g hg hr
  rw [row?_insertRow] at hg
  split at hg
  · cases hg
    exact hf
  · exact h hg hr

theorem Feasible.removeColumn (h : t.Feasible) (ht : t.Indexed) (v : Variable) :
    (t.removeColumn v).Feasible := by
  intro b f hf hr
  rw [ht.row?_removeColumn, Option.map_eq_some_iff] at hf
  obtain ⟨f', hf', rfl⟩ := hf
  show 0 ≤ f'.constant
  exact h hf' hr

theorem Feasible.point_nonneg (h : t.Feasible) {v : Variable} (hv : v.isRestricted = true) :
    0 ≤ t.point v := by
  cases hb : t.row? v with
  | none => rw [point_of_nonbasic hb]
  | some f =>
    rw [point_of_basic hb]
    exact h hb hv

/-! ## Exchanges -/

/-- The constants after an exchange: each row moves along the column of the entering variable,
by the value that this variable gets. -/
theorem WellFormed.constants_exchange (h : t.WellFormed) {row : LinearForm Rat}
    (hrow : t.row? exit = some row) (he : t.exchange entry exit = .ok t') {c : Variable}
    {g : LinearForm Rat} (hg : t'.row? c = some g) :
    c = entry ∧ g.constant = -row.constant / row.coeff entry ∨
      c ≠ exit ∧ ∃ f, t.row? c = some f ∧
        g.constant = f.constant + -row.constant / row.coeff entry * f.coeff entry := by
  obtain ⟨row', hrow', hmem, -⟩ := exchange_eq_ok.1 he
  cases hrow.symm.trans hrow'
  have hne := h.ne_of_mem hrow hmem hrow
  rw [h.row?_exchange hrow he] at hg
  split at hg
  · next hc =>
    cases hg
    exact .inl ⟨hc, constant_exchange hne hmem⟩
  · split at hg
    · cases hg
    · next hc =>
      obtain ⟨f, hf, rfl⟩ := Option.map_eq_some_iff.1 hg
      exact .inr ⟨hc, f, hf, by rw [constant_substitute, constant_exchange hne hmem]⟩

/-- Letting a variable rise to where the first restricted row reaches zero. -/
theorem Feasible.exchange_falling (hf : t.Feasible) (h : t.WellFormed) {row : LinearForm Rat}
    (hrow : t.row? exit = some row) (hr : exit.isRestricted = true) (hneg : row.coeff entry < 0)
    (hleast : ∀ b f, t.row? b = some f → b.isRestricted = true → f.coeff entry < 0 →
      -row.constant / row.coeff entry ≤ -f.constant / f.coeff entry)
    (he : t.exchange entry exit = .ok t') : t'.Feasible := by
  have hstep : 0 ≤ -row.constant / row.coeff entry :=
    div_nonneg_of_nonpos (by linarith [hf hrow hr]) (le_of_lt hneg)
  intro c g hg hc
  rcases h.constants_exchange hrow he hg with ⟨-, hk⟩ | ⟨-, f, hfc, hk⟩
  · rw [hk]
    exact hstep
  · rw [hk]
    rcases lt_or_ge (f.coeff entry) 0 with hfall | hrise
    · have hle := hleast c f hfc hc hfall
      rw [le_div_iff_of_neg hfall] at hle
      linarith
    · have hnn := hf hfc hc
      have hmul := mul_nonneg hstep hrise
      linarith

theorem Feasible.exchange_tightest (hf : t.Feasible) (h : t.WellFormed)
    (hx : t.tightest? entry = some exit) (he : t.exchange entry exit = .ok t') :
    t'.Feasible := by
  obtain ⟨hr, row, hrow, hneg, hbefore⟩ := h.indexed.tightest?_eq_some hx
  apply hf.exchange_falling h hrow hr hneg _ he
  intro b f hb hbr hc
  exact (hbefore b f hb hbr hc).le

/-- A row of constant zero gives way without moving anything. -/
theorem Feasible.exchange_degenerate (hf : t.Feasible) (h : t.WellFormed) {row : LinearForm Rat}
    (hrow : t.row? exit = some row) (hzero : row.constant = 0)
    (he : t.exchange entry exit = .ok t') : t'.Feasible := by
  intro c g hg hc
  rcases h.constants_exchange hrow he hg with ⟨-, hk⟩ | ⟨-, f, hfc, hk⟩
  · rw [hk, hzero]
    simp
  · rw [hk, hzero]
    have hnn := hf hfc hc
    simpa using hnn

/-- A marker that takes over a row and is dropped with it leaves no negative row behind. -/
theorem Feasible.exchange_evict (hf : t.Feasible) (h : t.WellFormed) (ht : t.Trim)
    (hx : t.eviction? entry = some exit) (he : t.exchange entry exit = .ok t') :
    (t'.removeRow entry).Feasible := by
  obtain ⟨row, hrow, hmem, hcases⟩ := h.indexed.eviction?_cases hx
  rcases hcases with ⟨hr, hneg, hleast⟩ | ⟨hr, hnn, hleast⟩ | ⟨-, hfree⟩
  · exact (hf.exchange_falling h hrow hr hneg hleast he).removeRow entry
  · -- every restricted row rises with the marker, which becomes negative
    have hpos : 0 < row.coeff entry := lt_of_le_of_ne hnn (Ne.symm (ht.row hrow entry hmem))
    intro c g hg hc
    obtain ⟨hne, hg⟩ := row?_of_removeRow hg
    rcases h.constants_exchange hrow he hg with ⟨hce, -⟩ | ⟨-, f, hfc, hk⟩
    · exact absurd hce hne
    · have hfnn := hf hfc hc
      rw [hk, neg_div]
      by_cases hm : entry ∈ f.vars
      · obtain ⟨hcnn, hle⟩ := hleast c f hfc hc hm
        have hcpos : 0 < f.coeff entry := lt_of_le_of_ne hcnn (Ne.symm (ht.row hfc entry hm))
        rw [le_div_iff₀ hcpos] at hle
        linarith
      · rw [coeff_of_not_mem hm]
        linarith
  · intro c g hg hc
    obtain ⟨hne, hg⟩ := row?_of_removeRow hg
    rcases h.constants_exchange hrow he hg with ⟨hce, -⟩ | ⟨-, f, hfc, hk⟩
    · exact absurd hce hne
    · rw [hk, coeff_of_not_mem (hfree c f hfc hc)]
      have hfnn := hf hfc hc
      linarith

/-! ## Repairs -/

/-- After constants moved, whatever they made negative is queued. -/
theorem Feasible.watched_shiftConstant (hf : t.Feasible) {m : Variable}
    (hm : m.isRestricted = true) (δ : Rat) : (t.shiftConstant m δ).Watched := by
  intro b hb
  rcases attends_shiftConstant hm δ hb with hq | ⟨-, hrow⟩
  · exact hq
  · exact absurd (hb.congr hrow.symm) (feasible_iff.1 hf b)

/-- Where nothing negative was overlooked and nothing waits any more, nothing is negative. -/
theorem Watched.feasible (hw : t.Watched) (h : Attends t t') (hq : t'.queue = ∅) : t'.Feasible := by
  rw [feasible_iff]
  intro b hb
  obtain ⟨hout, hrow⟩ := h.of_queue_empty hq hb
  exact hout (hw (hb.congr hrow.symm))

end Tableau

end SoftSimplex
