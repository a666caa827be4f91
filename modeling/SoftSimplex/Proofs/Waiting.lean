import Mathlib.Algebra.Order.Field.Basic
import SoftSimplex.Proofs.Steps

/-!
# What sinks waits for repair

The dual pass looks at the queue and nowhere else. `Attends t t'` says that nothing was overlooked
on the way from `t` to `t'`: a restricted row that is negative in `t'` waits there, or it is a row of
`t` that did not wait there either. A shift of constants attends to the rows that it moves, a step of
the dual pass to those that it changes, and hence so does a whole pass. After one that ends well
nothing waits, and what is then negative was so before. All that is asked of the arithmetic is that a
variable that raises a negative row does not become negative itself.
-/

namespace SoftSimplex

/-- What has to be added to a row to raise it to zero is not negative where the row is and the
coefficient is not. -/
def Scalar.Raises (α : Type) [Scalar α] : Prop :=
  ∀ a c : α, isNonneg a = false → isNonpos c = false → isNeg (a * (-1 / c)) = false

theorem Scalar.raises_rat : Raises Rat := by
  intro a c ha hc
  rw [← Bool.not_eq_true, isNonneg_rat, not_le] at ha
  rw [← Bool.not_eq_true, isNonpos_rat, not_le] at hc
  rw [← Bool.not_eq_true, isNeg_rat, not_lt]
  have hstep : -1 / c < 0 := div_neg_of_neg_of_pos (by norm_num) hc
  exact (mul_pos_of_neg_of_neg ha hstep).le

namespace Tableau

variable {α : Type} [Scalar α] {t t' t'' : Tableau α} {b : Variable}

theorem Sunk.congr (h : t.Sunk b) (hrow : t'.row? b = t.row? b) : t'.Sunk b := by
  unfold Sunk at h ⊢
  rw [hrow]
  exact h

theorem Sunk.not_settled (h : t.Sunk b) : t.isSettled b = false := by
  obtain ⟨-, f, hf, hneg⟩ := h
  unfold isSettled
  rw [hf]
  exact Scalar.isNonneg_of_isNeg hneg

/-- On the way from `t` to `t'` no row went negative without being queued, and none left the queue
negative. -/
def Attends (t t' : Tableau α) : Prop :=
  ∀ ⦃b⦄, t'.Sunk b → b ∈ t'.queue.keys ∨ b ∉ t.queue.keys ∧ t'.row? b = t.row? b

theorem Attends.refl (t : Tableau α) : Attends t t := by
  intro b _
  by_cases hq : b ∈ t.queue.keys
  · exact .inl hq
  · exact .inr ⟨hq, rfl⟩

theorem Attends.trans (h₁ : Attends t t') (h₂ : Attends t' t'') : Attends t t'' := by
  intro b hb
  rcases h₂ hb with hq | ⟨hq, hrow⟩
  · exact .inl hq
  · obtain ⟨hq', hrow'⟩ := (h₁ (hb.congr hrow.symm)).resolve_left hq
    exact .inr ⟨hq', hrow.trans hrow'⟩

/-- Where nothing waits any more, what is negative was so before and did not wait. -/
theorem Attends.of_queue_empty (h : Attends t t') (hq : t'.queue = ∅) (hb : t'.Sunk b) :
    b ∉ t.queue.keys ∧ t'.row? b = t.row? b := by
  apply (h hb).resolve_left
  rw [hq]
  intro hmem
  cases hmem

/-! ## Shifting constants -/

theorem attends_shiftConstant {m : Variable} (hm : m.isRestricted = true) (δ : α) :
    Attends t (t.shiftConstant m δ) := by
  intro b hb
  by_cases hq : b ∈ (t.shiftConstant m δ).queue.keys
  · exact .inl hq
  · refine .inr ?_
    cases hrow : t.row? m with
    | some row =>
      rw [mem_queue_shiftConstant_of_basic hrow hm, not_or] at hq
      have hne : b ≠ m := fun he => hq.2 ⟨he, hb⟩
      exact ⟨hq.1, by rw [row?_shiftConstant_of_basic hrow, if_neg hne]⟩
    | none =>
      rw [mem_queue_shiftConstant_of_nonbasic hrow, not_or] at hq
      have hout : b ∉ t.column m := fun hcol => hq.2 ⟨hcol, hb⟩
      exact ⟨hq.1, by rw [row?_shiftConstant_of_nonbasic hrow, if_neg hout]⟩

/-! ## Exchanging two variables -/

variable {entry exit : Variable}

/-- A row that is negative after an exchange waits, or is that of the entering variable, or does not
mention it and is as it was. -/
theorem WellFormed.attends_exchange (h : t.WellFormed) (he : t.exchange entry exit = .ok t')
    (hb : t'.Sunk b) (hne : b ≠ entry) :
    b ∈ t'.queue.keys ∨ b ≠ exit ∧ b ∉ t.queue.keys ∧ t'.row? b = t.row? b := by
  obtain ⟨row, hrow, hmem, hst⟩ := exchange_eq_ok.1 he
  have hafter := h.row?_exchange hrow he b
  rw [if_neg hne] at hafter
  obtain ⟨hr, g, hg, hneg⟩ := id hb
  have hexit : b ≠ exit := by
    rintro rfl
    rw [if_pos rfl, hg] at hafter
    cases hafter
  rw [if_neg hexit] at hafter
  by_cases hq : b ∈ t'.queue.keys
  · exact .inl hq
  · refine .inr ⟨hexit, ?_⟩
    rw [hst, queue_insertRow, mem_queue_substitute, mem_queue_removeRow, not_or] at hq
    obtain ⟨hout, hcol⟩ := hq
    refine ⟨fun hin => hout ⟨hin, fun hx => absurd hx hexit⟩, ?_⟩
    obtain ⟨f, hf, -⟩ := Option.map_eq_some_iff.1 (hafter.symm.trans hg)
    have hsub : ((t.removeRow exit).substitute entry (row.exchange exit entry)).row? b =
        t'.row? b := by
      rw [hst, row?_insertRow, if_neg hne]
    have hclear : entry ∉ f.vars := by
      intro hm
      have hf' : (t.removeRow exit).row? b = some f := by rw [row?_removeRow, if_neg hexit, hf]
      exact hcol ⟨(h.indexed.removeRow exit).mem_column.2 ⟨f, hf', hm⟩, hb.congr hsub⟩
    rw [hafter, hf, Option.map_some, LinearForm.substitute_of_not_mem hclear]

/-! ## The dual pass -/

theorem WellFormed.repairStep_attends (hα : Scalar.Raises α) (h : t.WellFormed) :
    t.repairStep.Meets (fun u => u.WellFormed ∧ Attends t u)
      (fun u => Attends t u ∧ u.queue = ∅) fun _ f => f = .fault .noRepair := by
  apply h.repairStep_meets.mono
  · rintro u ⟨q, exit, row, entry, hq, hkept, hrow, hr, hset, hx, he⟩
    have hwf := h.withQueue hq
    refine ⟨hwf.exchange he, fun b hb => ?_⟩
    have hne : b ≠ entry := by
      rintro rfl
      obtain ⟨-, g, hg, hneg⟩ := hb
      obtain ⟨hmem, hpos⟩ := of_cheapest? hx
      rw [hwf.row?_exchange hrow he, if_pos rfl, Option.some.injEq] at hg
      unfold isSettled at hset
      rw [hrow] at hset
      rw [← hg, LinearForm.constant_exchange_eq (h.ne_of_mem hrow hmem hrow) hmem,
        hα _ _ hset hpos] at hneg
      cases hneg
    rcases hwf.attends_exchange he hb hne with hin | ⟨hexit, hout, hsame⟩
    · exact .inl hin
    · refine .inr ⟨fun hin => hout ?_, hsame⟩
      exact hkept b hin (hb.congr hsame.symm).not_settled hexit
  · rintro u ⟨hall, rfl⟩
    refine ⟨fun b hb => .inr ⟨fun hin => ?_, rfl⟩, rfl⟩
    have hsunk : t.Sunk b := hb.congr rfl
    have hset := hall b hin
    rw [hsunk.not_settled] at hset
    cases hset
  · exact fun _ _ hu => hu.1

/-- A repair that ends well leaves no row waiting and overlooks none. -/
theorem WellFormed.repair_attends (hα : Scalar.Raises α) (h : t.WellFormed) {n : Nat} {p : Pass α}
    (hp : t.repair n = some p) :
    p.Meets (fun u => Attends t u ∧ u.queue = ∅) fun _ f => f = .fault .noRepair := by
  apply iterate_meets (I := fun u => u.WellFormed ∧ Attends t u) _ ⟨h, .refl t⟩ hp
  rintro u ⟨hu, ht⟩
  apply (hu.repairStep_attends hα).mono
  · exact fun _ hu' => ⟨hu'.1, ht.trans hu'.2⟩
  · exact fun _ hu' => ⟨ht.trans hu'.1, hu'.2⟩
  · exact fun _ _ hu' => hu'

end Tableau

end SoftSimplex
