import SoftSimplex.Proofs.FormValue
import SoftSimplex.Proofs.WellFormed

/-!
# Choices by ratio

Over the rationals the running comparison finds the least candidate: by ratio, then by number.
From that, what each choice of a pass says about the rows it did not choose.
-/

namespace SoftSimplex

namespace Ratio

section Any

variable {α : Type} [Scalar α]

theorem bestFrom_mem (best : Variable × α) (cs : List (Variable × α)) :
    bestFrom best cs ∈ best :: cs := by
  induction cs generalizing best with
  | nil => exact List.mem_cons_self
  | cons c cs ih =>
    unfold bestFrom
    rcases List.mem_cons.1 (ih (if better c best then c else best)) with h | h
    · rw [h]
      split <;> simp
    · simp [h]

theorem best?_eq_none {cs : List (Variable × α)} : best? cs = none ↔ cs = [] := by
  cases cs <;> simp [best?]

theorem mem_of_best? {cs : List (Variable × α)} {v : Variable} (h : best? cs = some v) :
    ∃ x, (v, x) ∈ cs := by
  cases cs with
  | nil => cases h
  | cons c cs =>
    obtain rfl := Option.some.inj h
    exact ⟨(bestFrom c cs).2, bestFrom_mem c cs⟩

end Any

def Before (a b : Variable × Rat) : Prop := a.2 < b.2 ∨ a.2 = b.2 ∧ a.1.id ≤ b.1.id

theorem Before.refl (a : Variable × Rat) : Before a a := .inr ⟨rfl, Nat.le_refl _⟩

theorem Before.trans {a b c : Variable × Rat} (h₁ : Before a b) (h₂ : Before b c) :
    Before a c := by
  rcases h₁ with h₁ | ⟨h₁, i₁⟩
  · rcases h₂ with h₂ | ⟨h₂, -⟩
    · exact .inl (lt_trans h₁ h₂)
    · exact .inl (h₂ ▸ h₁)
  · rcases h₂ with h₂ | ⟨h₂, i₂⟩
    · exact .inl (h₁ ▸ h₂)
    · exact .inr ⟨h₁.trans h₂, Nat.le_trans i₁ i₂⟩

theorem Before.le {a b : Variable × Rat} (h : Before a b) : a.2 ≤ b.2 := by
  rcases h with h | ⟨h, -⟩
  · exact le_of_lt h
  · exact le_of_eq h

theorem before_of_better {a b : Variable × Rat} (h : better a b = true) : Before a b := by
  simp only [better, Bool.or_eq_true, Bool.and_eq_true, Scalar.lt_rat, Scalar.eq_rat,
    decide_eq_true_eq] at h
  rcases h with h | ⟨h, i⟩
  · exact .inl h
  · exact .inr ⟨h, Nat.le_of_lt i⟩

theorem before_of_not_better {a b : Variable × Rat} (h : better a b ≠ true) : Before b a := by
  simp only [better, ne_eq, Bool.or_eq_true, Bool.and_eq_true, Scalar.lt_rat, Scalar.eq_rat,
    decide_eq_true_eq, not_or, not_and, not_lt] at h
  rcases lt_or_eq_of_le h.1 with hlt | heq
  · exact .inl hlt
  · exact .inr ⟨heq, h.2 heq.symm⟩

theorem bestFrom_before (best : Variable × Rat) (cs : List (Variable × Rat)) :
    ∀ c ∈ best :: cs, Before (bestFrom best cs) c := by
  induction cs generalizing best with
  | nil =>
    intro c hc
    rw [List.mem_singleton] at hc
    exact hc ▸ Before.refl best
  | cons d cs ih =>
    intro c hc
    unfold bestFrom
    by_cases hb : better d best = true
    · rw [if_pos hb]
      rcases List.mem_cons.1 hc with rfl | hc
      · exact (ih d d List.mem_cons_self).trans (before_of_better hb)
      · exact ih d c hc
    · rw [if_neg hb]
      rcases List.mem_cons.1 hc with rfl | hc
      · exact ih c c List.mem_cons_self
      · rcases List.mem_cons.1 hc with rfl | hc
        · exact (ih best best List.mem_cons_self).trans (before_of_not_better hb)
        · exact ih best c (List.mem_cons_of_mem _ hc)

/-- The best candidate comes before all others. -/
theorem best?_before {cs : List (Variable × Rat)} {v : Variable} (h : best? cs = some v) :
    ∃ x, (v, x) ∈ cs ∧ ∀ c ∈ cs, Before (v, x) c := by
  cases cs with
  | nil => cases h
  | cons c cs =>
    obtain rfl := Option.some.inj h
    exact ⟨(bestFrom c cs).2, bestFrom_mem c cs, bestFrom_before c cs⟩

end Ratio

namespace Variable

theorem lowest?_eq_none {vs : List Variable} : lowest? vs = none ↔ vs = [] := by
  cases vs with
  | nil => simp [lowest?]
  | cons v vs =>
    constructor
    · intro h
      unfold lowest? at h
      split at h
      · split at h <;> cases h
      · cases h
    · intro h
      cases h

theorem mem_of_lowest? {vs : List Variable} {v : Variable} (h : lowest? vs = some v) :
    v ∈ vs := by
  induction vs with
  | nil => cases h
  | cons u us ih =>
    simp only [lowest?] at h
    cases hl : lowest? us with
    | none =>
      simp only [hl, Option.some.injEq] at h
      simp [h]
    | some w =>
      simp only [hl] at h
      split at h
      · exact List.mem_cons_of_mem _ (ih (hl.trans h))
      · simp only [Option.some.injEq] at h
        simp [h]

theorem id_le_of_lowest? {vs : List Variable} {v w : Variable} (h : lowest? vs = some v)
    (hw : w ∈ vs) : v.id ≤ w.id := by
  induction vs generalizing v with
  | nil => cases hw
  | cons u us ih =>
    simp only [lowest?] at h
    cases hl : lowest? us with
    | none =>
      simp only [hl, Option.some.injEq] at h
      rw [lowest?_eq_none.1 hl, List.mem_singleton] at hw
      rw [hw, h]
    | some x =>
      simp only [hl] at h
      split at h
      · next hlt =>
        cases h
        rcases List.mem_cons.1 hw with rfl | hw
        · exact Nat.le_of_lt hlt
        · exact ih hl hw
      · next hge =>
        cases h
        rcases List.mem_cons.1 hw with rfl | hw
        · exact Nat.le_refl _
        · exact Nat.le_trans (Nat.not_lt.1 hge) (ih hl hw)

end Variable

namespace Tableau

/-! ## Whatever the arithmetic

A choice is made among rows and terms that are there, and all but the last kind of eviction among
restricted rows.
-/

section Any

variable {α : Type} [Scalar α] {t : Tableau α}

theorem Indexed.row_of_tightest? (h : t.Indexed) {entry exit : Variable}
    (hx : t.tightest? entry = some exit) :
    exit.isRestricted = true ∧ ∃ row, t.row? exit = some row ∧ entry ∈ row.vars := by
  obtain ⟨x, hmem⟩ := Ratio.mem_of_best? hx
  obtain ⟨b, hb, hx⟩ := List.mem_filterMap.1 hmem
  split at hx
  · next hr =>
    obtain ⟨f, -, hx⟩ := Option.bind_eq_some_iff.1 hx
    split at hx <;> cases hx
    exact ⟨hr, h.mem_column.1 hb⟩
  · cases hx

/-- A restricted row that sinks as `entry` rises limits it, so some row limits it most. -/
theorem Indexed.exists_tightest_of_row (h : t.Indexed) {entry b : Variable} {row : LinearForm α}
    (hb : b.isRestricted = true) (hrow : t.row? b = some row) (hmem : entry ∈ row.vars)
    (hsinks : Scalar.isNonneg (row.coeff entry) = false) :
    ∃ exit, t.tightest? entry = some exit := by
  rw [← Option.ne_none_iff_exists']
  intro hnone
  have hlimit : (b, -row.constant / row.coeff entry) ∈ t.limits entry := by
    refine List.mem_filterMap.2 ⟨b, h.mem_column.2 ⟨row, hrow, hmem⟩, ?_⟩
    simp [hb, hrow, hsinks]
  rw [Ratio.best?_eq_none.1 hnone] at hlimit
  cases hlimit

theorem of_cheapest? {row : LinearForm α} {entry : Variable}
    (h : t.cheapest? row = some entry) :
    entry ∈ row.vars ∧ Scalar.isNonpos (row.coeff entry) = false := by
  obtain ⟨x, hmem⟩ := Ratio.mem_of_best? h
  obtain ⟨e, he, hx⟩ := List.mem_filterMap.1 hmem
  split at hx
  · cases hx
  · next htest =>
    cases hx
    rw [Bool.not_eq_true, Bool.or_eq_false_iff] at htest
    rw [LinearForm.coeff_of_get? (Table.get?_eq_some_iff.2 he)]
    exact ⟨List.mem_map_of_mem he, htest.1⟩

omit [Scalar α] in
/-- Candidates with a ratio are listed restricted rows, whatever else is asked of them. -/
theorem listed_of_mem {m b : Variable} {x : α} {test : LinearForm α → Bool}
    {ratio : LinearForm α → α}
    (hx : (b, x) ∈ (t.column m).filterMap fun b => (t.row? b).bind fun row =>
      if b.isRestricted && test row then some (b, ratio row) else none) :
    b ∈ t.column m ∧ b.isRestricted = true := by
  obtain ⟨c, hc, hx⟩ := List.mem_filterMap.1 hx
  obtain ⟨f, -, hx⟩ := Option.bind_eq_some_iff.1 hx
  split at hx
  · next htest =>
    cases hx
    exact ⟨hc, (Bool.and_eq_true _ _ ▸ htest).1⟩
  · cases hx

theorem Indexed.row_of_eviction? (h : t.Indexed) {m exit : Variable}
    (hx : t.eviction? m = some exit) :
    ∃ row, t.row? exit = some row ∧ m ∈ row.vars ∧
      (exit.isRestricted = true ∨
        ∀ b f, t.row? b = some f → b.isRestricted = true → m ∉ f.vars) := by
  have hlisted : exit ∈ t.column m ∧ exit.isRestricted = true →
      ∃ row, t.row? exit = some row ∧ m ∈ row.vars ∧ exit.isRestricted = true := by
    rintro ⟨hcol, hr⟩
    obtain ⟨row, hrow, hm⟩ := h.mem_column.1 hcol
    exact ⟨row, hrow, hm, hr⟩
  unfold eviction? at hx
  rcases Option.or_eq_some_iff.1 hx with hs | ⟨hs, hx⟩
  · obtain ⟨x, hmem⟩ := Ratio.mem_of_best? hs
    obtain ⟨row, hrow, hm, hr⟩ := hlisted (listed_of_mem hmem)
    exact ⟨row, hrow, hm, .inl hr⟩
  · rcases Option.or_eq_some_iff.1 hx with hp | ⟨hp, hx⟩
    · obtain ⟨x, hmem⟩ := Ratio.mem_of_best? hp
      obtain ⟨row, hrow, hm, hr⟩ := hlisted (listed_of_mem hmem)
      exact ⟨row, hrow, hm, .inl hr⟩
    · obtain ⟨hcol, -⟩ := List.mem_filter.1 (Variable.mem_of_lowest? hx)
      obtain ⟨row, hrow, hm⟩ := h.mem_column.1 hcol
      refine ⟨row, hrow, hm, .inr fun b f hf hr hmem => ?_⟩
      -- a restricted row either sinks or does not, so one of the first two choices had it
      have hb := h.mem_column.2 ⟨f, hf, hmem⟩
      rw [Ratio.best?_eq_none, List.eq_nil_iff_forall_not_mem] at hs hp
      cases hneg : Scalar.isNeg (f.coeff m) with
      | true =>
        refine hs (b, -f.constant / f.coeff m) (List.mem_filterMap.2 ⟨b, hb, ?_⟩)
        simp [hf, hr, hneg]
      | false =>
        refine hp (b, f.constant / f.coeff m) (List.mem_filterMap.2 ⟨b, hb, ?_⟩)
        simp [hf, hr, hneg]

end Any

variable {t : Tableau Rat}

/-! ## The row that limits most -/

/-- The listed restricted rows that fall as `entry` rises. -/
theorem mem_limits {entry b : Variable} {x : Rat} :
    (b, x) ∈ t.limits entry ↔ b ∈ t.column entry ∧ b.isRestricted = true ∧
      ∃ f, t.row? b = some f ∧ f.coeff entry < 0 ∧ x = -f.constant / f.coeff entry := by
  unfold limits
  rw [List.mem_filterMap]
  constructor
  · rintro ⟨c, hcol, hc⟩
    split at hc
    · next hr =>
      obtain ⟨f, hf, hx⟩ := Option.bind_eq_some_iff.1 hc
      split at hx
      · cases hx
      · next hneg =>
        rw [Scalar.isNonneg_rat, not_le] at hneg
        cases hx
        exact ⟨hcol, hr, f, hf, hneg, rfl⟩
    · cases hc
  · rintro ⟨hcol, hr, f, hf, hneg, rfl⟩
    refine ⟨b, hcol, ?_⟩
    rw [if_pos hr, hf]
    show (if Scalar.isNonneg (f.coeff entry) = true then none
      else some (b, -f.constant / f.coeff entry)) = _
    rw [if_neg (by rw [Scalar.isNonneg_rat]; exact not_le.2 hneg)]

theorem Indexed.mem_limits (h : t.Indexed) {entry b : Variable} {x : Rat} :
    (b, x) ∈ t.limits entry ↔ b.isRestricted = true ∧
      ∃ f, t.row? b = some f ∧ f.coeff entry < 0 ∧ x = -f.constant / f.coeff entry := by
  rw [Tableau.mem_limits]
  refine and_iff_right_of_imp ?_
  rintro ⟨-, f, hf, hneg, -⟩
  exact h.mem_column.2 ⟨f, hf, LinearForm.mem_vars_of_coeff (ne_of_lt hneg)⟩

/-- The row chosen falls as `entry` rises, and reaches zero before every other restricted row
that falls. -/
theorem Indexed.tightest?_eq_some (h : t.Indexed) {entry exit : Variable}
    (hx : t.tightest? entry = some exit) :
    exit.isRestricted = true ∧ ∃ row, t.row? exit = some row ∧ row.coeff entry < 0 ∧
      ∀ b f, t.row? b = some f → b.isRestricted = true → f.coeff entry < 0 →
        Ratio.Before (exit, -row.constant / row.coeff entry) (b, -f.constant / f.coeff entry) := by
  obtain ⟨x, hmem, hbefore⟩ := Ratio.best?_before hx
  obtain ⟨hr, row, hrow, hneg, rfl⟩ := h.mem_limits.1 hmem
  refine ⟨hr, row, hrow, hneg, ?_⟩
  intro b f hf hb hc
  exact hbefore _ (h.mem_limits.2 ⟨hb, f, hf, hc, rfl⟩)

theorem Indexed.tightest?_eq_none (h : t.Indexed) {entry : Variable} :
    t.tightest? entry = none ↔
      ∀ b f, t.row? b = some f → b.isRestricted = true → 0 ≤ f.coeff entry := by
  unfold tightest?
  rw [Ratio.best?_eq_none]
  constructor
  · intro hnil b f hf hb
    by_contra hneg
    have hmem := h.mem_limits.2 ⟨hb, f, hf, not_le.1 hneg, rfl⟩
    rw [hnil] at hmem
    cases hmem
  · intro hall
    rw [List.eq_nil_iff_forall_not_mem]
    rintro ⟨b, x⟩ hmem
    obtain ⟨hb, f, hf, hneg, -⟩ := h.mem_limits.1 hmem
    exact absurd (hall b f hf hb) (not_le.2 hneg)

/-! ## The variable that raises a row at the least cost -/

theorem mem_raisers {row : LinearForm Rat} {v : Variable} {x : Rat} :
    (v, x) ∈ t.raisers row ↔ v.mayEnter = true ∧ v ∈ row.vars ∧ 0 < row.coeff v ∧
      x = t.objective.coeff v / row.coeff v := by
  unfold raisers
  rw [List.mem_filterMap]
  constructor
  · rintro ⟨⟨w, c⟩, hwc, hx⟩
    split at hx
    · cases hx
    · next hc =>
      simp only [Bool.or_eq_true, Scalar.isNonpos_rat, Bool.not_eq_true', not_or, not_le,
        Bool.not_eq_false] at hc
      cases hx
      have hget : row.terms.get? w = some c := Table.get?_eq_some_iff.2 hwc
      have hcoeff := LinearForm.coeff_of_get? hget
      refine ⟨hc.2, LinearForm.mem_vars_iff.2 ⟨c, hget⟩, hcoeff ▸ hc.1, ?_⟩
      rw [hcoeff]
  · rintro ⟨hv, hmem, hpos, rfl⟩
    refine ⟨(v, row.coeff v), Table.get?_eq_some_iff.1 (LinearForm.get?_of_mem hmem), ?_⟩
    rw [if_neg]
    simp only [Bool.or_eq_true, Scalar.isNonpos_rat, Bool.not_eq_true', not_or, not_le,
      Bool.not_eq_false]
    exact ⟨hpos, hv⟩

theorem cheapest?_eq_some {row : LinearForm Rat} {entry : Variable}
    (h : t.cheapest? row = some entry) :
    entry.mayEnter = true ∧ entry ∈ row.vars ∧ 0 < row.coeff entry ∧
      ∀ v, v.mayEnter = true → v ∈ row.vars → 0 < row.coeff v →
        Ratio.Before (entry, t.objective.coeff entry / row.coeff entry)
          (v, t.objective.coeff v / row.coeff v) := by
  obtain ⟨x, hmem, hbefore⟩ := Ratio.best?_before h
  obtain ⟨hv, hrow, hpos, rfl⟩ := mem_raisers.1 hmem
  exact ⟨hv, hrow, hpos, fun v h₁ h₂ h₃ => hbefore _ (mem_raisers.2 ⟨h₁, h₂, h₃, rfl⟩)⟩

theorem cheapest?_eq_none {row : LinearForm Rat} :
    t.cheapest? row = none ↔
      ∀ v, v.mayEnter = true → v ∈ row.vars → row.coeff v ≤ 0 := by
  unfold cheapest?
  rw [Ratio.best?_eq_none]
  constructor
  · intro hnil v hv hmem
    by_contra hpos
    have hr := mem_raisers (t := t).2 ⟨hv, hmem, not_le.1 hpos, rfl⟩
    rw [hnil] at hr
    cases hr
  · intro hall
    rw [List.eq_nil_iff_forall_not_mem]
    rintro ⟨v, x⟩ hmem
    obtain ⟨hv, hrow, hpos, -⟩ := mem_raisers.1 hmem
    exact absurd (hall v hv hrow) (not_le.2 hpos)

/-! ## The row that gives way to a marker -/

/-- The rows that sink are those that limit. -/
theorem sinking_eq_limits (m : Variable) : t.sinking m = t.limits m := by
  have htest : ∀ c : Rat, Scalar.isNeg c = !Scalar.isNonneg c := fun c => by
    rw [Bool.eq_iff_iff, Bool.not_eq_true', ← Bool.not_eq_true, Scalar.isNeg_rat,
      Scalar.isNonneg_rat, not_le]
  unfold sinking
  simp only [limits_eq, htest]

theorem Indexed.mem_sinking (h : t.Indexed) {m b : Variable} {x : Rat} :
    (b, x) ∈ t.sinking m ↔ b.isRestricted = true ∧
      ∃ f, t.row? b = some f ∧ f.coeff m < 0 ∧ x = -f.constant / f.coeff m := by
  rw [sinking_eq_limits, h.mem_limits]

/-- The listed restricted rows that do not fall as the marker rises. -/
theorem mem_rising {m b : Variable} {x : Rat} :
    (b, x) ∈ t.rising m ↔ b ∈ t.column m ∧ b.isRestricted = true ∧
      ∃ f, t.row? b = some f ∧ 0 ≤ f.coeff m ∧ x = f.constant / f.coeff m := by
  unfold rising
  rw [List.mem_filterMap]
  constructor
  · rintro ⟨c, hcol, hc⟩
    obtain ⟨f, hf, hx⟩ := Option.bind_eq_some_iff.1 hc
    split at hx
    · next hb =>
      simp only [Bool.and_eq_true, Bool.not_eq_true'] at hb
      cases hx
      have hnn : ¬f.coeff m < 0 := by
        intro hneg
        rw [(Scalar.isNeg_rat _).2 hneg] at hb
        exact Bool.noConfusion hb.2
      exact ⟨hcol, hb.1, f, hf, not_lt.1 hnn, rfl⟩
    · cases hx
  · rintro ⟨hcol, hr, f, hf, hnn, rfl⟩
    refine ⟨b, hcol, ?_⟩
    have hneg : Scalar.isNeg (f.coeff m) = false := by
      rw [← Bool.not_eq_true, Scalar.isNeg_rat]
      exact not_lt.2 hnn
    simp [hf, hr, hneg]

theorem Indexed.mem_rising (h : t.Indexed) {m b : Variable} {x : Rat} :
    (b, x) ∈ t.rising m ↔ b.isRestricted = true ∧
      ∃ f, t.row? b = some f ∧ m ∈ f.vars ∧ 0 ≤ f.coeff m ∧ x = f.constant / f.coeff m := by
  rw [Tableau.mem_rising]
  constructor
  · rintro ⟨hcol, hr, f, hf, hnn, hx⟩
    obtain ⟨f', hf', hmem⟩ := h.mem_column.1 hcol
    cases hf.symm.trans hf'
    exact ⟨hr, f, hf, hmem, hnn, hx⟩
  · rintro ⟨hr, f, hf, hmem, hnn, hx⟩
    exact ⟨h.mem_column.2 ⟨f, hf, hmem⟩, hr, f, hf, hnn, hx⟩

/-- The three ways in which a row is given up: a restricted one that falls as the marker rises;
if there is none, a restricted one that falls as the marker falls; else a free one. -/
theorem Indexed.eviction?_cases (h : t.Indexed) {m exit : Variable}
    (hx : t.eviction? m = some exit) :
    ∃ row, t.row? exit = some row ∧ m ∈ row.vars ∧
      ((exit.isRestricted = true ∧ row.coeff m < 0 ∧
          ∀ b f, t.row? b = some f → b.isRestricted = true → f.coeff m < 0 →
            -row.constant / row.coeff m ≤ -f.constant / f.coeff m) ∨
        (exit.isRestricted = true ∧ 0 ≤ row.coeff m ∧
          ∀ b f, t.row? b = some f → b.isRestricted = true → m ∈ f.vars →
            0 ≤ f.coeff m ∧ row.constant / row.coeff m ≤ f.constant / f.coeff m) ∨
        (exit.isRestricted = false ∧
          ∀ b f, t.row? b = some f → b.isRestricted = true → m ∉ f.vars)) := by
  unfold eviction? at hx
  cases hs : Ratio.best? (t.sinking m) with
  | some v =>
    rw [hs] at hx
    obtain rfl : v = exit := Option.some.inj hx
    obtain ⟨x, hmem, hbefore⟩ := Ratio.best?_before hs
    obtain ⟨hr, row, hrow, hneg, rfl⟩ := h.mem_sinking.1 hmem
    refine ⟨row, hrow, LinearForm.mem_vars_of_coeff (ne_of_lt hneg), .inl ⟨hr, hneg, ?_⟩⟩
    intro b f hf hb hc
    exact (hbefore _ (h.mem_sinking.2 ⟨hb, f, hf, hc, rfl⟩)).le
  | none =>
    have hnone : ∀ b f, t.row? b = some f → b.isRestricted = true → 0 ≤ f.coeff m := by
      intro b f hf hb
      by_contra hneg
      have hmem := h.mem_sinking.2 ⟨hb, f, hf, not_le.1 hneg, rfl⟩
      rw [Ratio.best?_eq_none.1 hs] at hmem
      cases hmem
    cases hp : Ratio.best? (t.rising m) with
    | some v =>
      rw [hs, hp] at hx
      obtain rfl : v = exit := Option.some.inj hx
      obtain ⟨x, hmem, hbefore⟩ := Ratio.best?_before hp
      obtain ⟨hr, row, hrow, hrm, hnn, rfl⟩ := h.mem_rising.1 hmem
      refine ⟨row, hrow, hrm, .inr (.inl ⟨hr, hnn, ?_⟩)⟩
      intro b f hf hb hm
      have hc := hnone b f hf hb
      exact ⟨hc, (hbefore _ (h.mem_rising.2 ⟨hb, f, hf, hm, hc, rfl⟩)).le⟩
    | none =>
      rw [hs, hp] at hx
      have hexit := Variable.mem_of_lowest? hx
      rw [List.mem_filter] at hexit
      obtain ⟨row, hrow, hrm⟩ := h.mem_column.1 hexit.1
      refine ⟨row, hrow, hrm, .inr (.inr ⟨?_, ?_⟩)⟩
      · have hfree := hexit.2
        simp only [Bool.and_eq_true, Bool.not_eq_true'] at hfree
        exact hfree.1
      · intro b f hf hb hm
        have hmem := h.mem_rising.2 ⟨hb, f, hf, hm, hnone b f hf hb, rfl⟩
        rw [Ratio.best?_eq_none.1 hp] at hmem
        cases hmem

/-- A row is found whenever some row mentions the marker. -/
theorem Indexed.eviction?_eq_none (h : t.Indexed) {m : Variable} (hx : t.eviction? m = none) :
    ∀ {b f}, t.row? b = some f → m ∉ f.vars := by
  intro b f hf hm
  unfold eviction? at hx
  rw [Option.or_eq_none_iff, Option.or_eq_none_iff, Ratio.best?_eq_none,
    Ratio.best?_eq_none] at hx
  obtain ⟨hs, hp, hl⟩ := hx
  cases hb : b.isRestricted with
  | true =>
    rcases lt_or_ge (f.coeff m) 0 with hneg | hnn
    · have hmem := h.mem_sinking.2 ⟨hb, f, hf, hneg, rfl⟩
      rw [hs] at hmem
      cases hmem
    · have hmem := h.mem_rising.2 ⟨hb, f, hf, hm, hnn, rfl⟩
      rw [hp] at hmem
      cases hmem
  | false =>
    have hmem : b ∈ (t.column m).filter fun b => !b.isRestricted && t.isBasic b := by
      rw [List.mem_filter]
      refine ⟨h.mem_column.2 ⟨f, hf, hm⟩, ?_⟩
      simp [hb, isBasic_iff.2 ⟨f, hf⟩]
    rw [Variable.lowest?_eq_none.1 hl] at hmem
    cases hmem

end Tableau

end SoftSimplex
