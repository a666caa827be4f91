import Mathlib.Tactic.Tauto
import SoftSimplex.Proofs.Reports
import SoftSimplex.Tableau.Exchange

/-!
# The column index follows the rows

`Mirrors cs rows` says that the index lists a row under a variable exactly if the row mentions
it. The index is driven by change reports alone, so the first section replays a report: a row
that was indexed before an operation on its form is indexed after it. No law of arithmetic is
used anywhere in this module.
-/

namespace SoftSimplex

variable {α : Type}

namespace Columns

theorem mem_rowsOf {cs : Columns} {v b : Variable} :
    b ∈ cs.rowsOf v ↔ ∃ col, cs.get? v = some col ∧ b ∈ col.keys := by
  unfold rowsOf
  cases cs.get? v <;> simp

theorem rowsOf_nodup (cs : Columns) (v : Variable) : (cs.rowsOf v).Nodup := by
  unfold rowsOf
  cases cs.get? v with
  | some col => exact col.nodup
  | none => exact List.nodup_nil

theorem mem_rowsOf_swapErase {cs : Columns} {u v b : Variable} :
    b ∈ rowsOf (Table.swapErase cs u) v ↔ v ≠ u ∧ b ∈ cs.rowsOf v := by
  rw [mem_rowsOf, mem_rowsOf, Table.get?_swapErase]
  by_cases h : v = u <;> simp [h]

theorem mem_rowsOf_link {cs : Columns} {b c v w : Variable} :
    c ∈ (cs.link b v).rowsOf w ↔ w = v ∧ c = b ∨ c ∈ cs.rowsOf w := by
  rw [mem_rowsOf, mem_rowsOf, link, Table.get?_insert]
  by_cases h : w = v
  · subst h
    simp only [if_true, Option.some.injEq, true_and]
    cases hcol : cs.get? w with
    | some col => simp [Roster.mem_add]
    | none => simp [Roster.mem_add]
  · simp [h]

theorem mem_rowsOf_unlink {cs : Columns} {b c v w : Variable} :
    c ∈ (cs.unlink b v).rowsOf w ↔ ¬(w = v ∧ c = b) ∧ c ∈ cs.rowsOf w := by
  unfold unlink
  cases hcol : cs.get? v with
  | none =>
    constructor
    · intro hc
      refine ⟨?_, hc⟩
      rintro ⟨rfl, -⟩
      obtain ⟨col, hcol', -⟩ := mem_rowsOf.1 hc
      simp [hcol] at hcol'
    · exact And.right
  | some col =>
    have hkeys : ∀ c, c ∈ (Table.swapErase col b).keys ↔ c ≠ b ∧ c ∈ col.keys :=
      fun c => Table.mem_keys_swapErase
    by_cases he : (Table.swapErase col b).isEmpty = true
    · have hnone : ∀ c, c ≠ b → c ∉ col.keys := by
        intro c hne hc
        have hm := (hkeys c).2 ⟨hne, hc⟩
        rw [Table.isEmpty, List.isEmpty_iff] at he
        simp [Table.keys, he] at hm
      simp only [he, if_true, mem_rowsOf_swapErase]
      by_cases hw : w = v
      · subst hw
        simp only [ne_eq, not_true, false_and, true_and, false_iff, not_and]
        intro hc hmem
        obtain ⟨col', hcol', hmem⟩ := mem_rowsOf.1 hmem
        rw [hcol, Option.some.injEq] at hcol'
        exact hnone c hc (hcol' ▸ hmem)
      · simp [hw]
    · simp only [he, Bool.false_eq_true, if_false]
      rw [mem_rowsOf, mem_rowsOf, Table.get?_insert]
      by_cases hw : w = v
      · subst hw
        simp only [if_true, Option.some.injEq, exists_eq_left', hkeys, hcol, true_and, ne_eq]
      · simp [hw]

theorem mem_rowsOf_linkAll {cs : Columns} {b c w : Variable} {vs : List Variable} :
    c ∈ (cs.linkAll b vs).rowsOf w ↔ c = b ∧ w ∈ vs ∨ c ∈ cs.rowsOf w := by
  induction vs generalizing cs with
  | nil => simp [linkAll]
  | cons v vs ih =>
    have hcons : cs.linkAll b (v :: vs) = (cs.link b v).linkAll b vs := rfl
    rw [hcons, ih, mem_rowsOf_link, List.mem_cons]
    tauto

theorem mem_rowsOf_unlinkAll {cs : Columns} {b c w : Variable} {vs : List Variable} :
    c ∈ (cs.unlinkAll b vs).rowsOf w ↔ ¬(c = b ∧ w ∈ vs) ∧ c ∈ cs.rowsOf w := by
  induction vs generalizing cs with
  | nil => simp [unlinkAll]
  | cons v vs ih =>
    have hcons : cs.unlinkAll b (v :: vs) = (cs.unlink b v).unlinkAll b vs := rfl
    rw [hcons, ih, mem_rowsOf_unlink, List.mem_cons]
    tauto

theorem mem_rowsOf_followAll_of_ne {cs : Columns} {b c w : Variable}
    {log : List (Variable × Change)} (h : c ≠ b) :
    c ∈ (cs.followAll b log).rowsOf w ↔ c ∈ cs.rowsOf w := by
  induction log generalizing cs with
  | nil => rfl
  | cons e log ih =>
    have hcons : cs.followAll b (e :: log) = (cs.follow b e.1 e.2).followAll b log := rfl
    rw [hcons, ih]
    cases he : e.2 with
    | added => simp [follow, mem_rowsOf_link, h]
    | removed => simp [follow, mem_rowsOf_unlink, h]
    | updated => rfl
    | unchanged => rfl

/-! ## No empty columns -/

def Full (cs : Columns) : Prop := ∀ v col, cs.get? v = some col → col.keys ≠ []

theorem Full.swapErase {cs : Columns} (h : cs.Full) (u : Variable) :
    Full (Table.swapErase cs u) := by
  intro v col hcol
  rw [Table.get?_swapErase] at hcol
  split at hcol
  · cases hcol
  · exact h v col hcol

theorem Full.insert {cs : Columns} (h : cs.Full) {v : Variable} {col : Roster Variable}
    (hcol : col.keys ≠ []) : Full (Table.insert cs v col) := by
  intro w col' hcol'
  rw [Table.get?_insert] at hcol'
  split at hcol'
  · cases hcol'
    exact hcol
  · exact h w col' hcol'

theorem Full.link {cs : Columns} (h : cs.Full) (b v : Variable) : (cs.link b v).Full := by
  apply h.insert
  have hb : b ∈ (Roster.add ((cs.get? v).getD ∅) b).keys := Roster.mem_add.2 (.inl rfl)
  exact List.ne_nil_of_mem hb

theorem Full.unlink {cs : Columns} (h : cs.Full) (b v : Variable) : (cs.unlink b v).Full := by
  unfold Columns.unlink
  cases hcol : cs.get? v with
  | none => exact h
  | some col =>
    by_cases he : (Table.swapErase col b).isEmpty = true
    · simp only [he, if_true]
      exact h.swapErase v
    · simp only [he, Bool.false_eq_true, if_false]
      apply h.insert
      intro hnil
      rw [Table.keys, List.map_eq_nil_iff] at hnil
      exact he (by rw [Table.isEmpty, hnil]; rfl)

theorem Full.followAll {cs : Columns} (h : cs.Full) (b : Variable)
    (log : List (Variable × Change)) : (cs.followAll b log).Full := by
  induction log generalizing cs with
  | nil => exact h
  | cons e log ih =>
    have hstep : (cs.follow b e.1 e.2).Full := by
      cases e.2 with
      | added => exact h.link b e.1
      | removed => exact h.unlink b e.1
      | updated => exact h
      | unchanged => exact h
    exact ih hstep

theorem Full.linkAll {cs : Columns} (h : cs.Full) (b : Variable) (vs : List Variable) :
    (cs.linkAll b vs).Full := by
  induction vs generalizing cs with
  | nil => exact h
  | cons v vs ih => exact ih (h.link b v)

theorem Full.unlinkAll {cs : Columns} (h : cs.Full) (b : Variable) (vs : List Variable) :
    (cs.unlinkAll b vs).Full := by
  induction vs generalizing cs with
  | nil => exact h
  | cons v vs ih => exact ih (h.unlink b v)

/-! ## Replaying a report -/

/-- The row of `b` is listed under the variables of `f` and no others. -/
def Tracks (cs : Columns) (b : Variable) (f : LinearForm α) : Prop :=
  ∀ v, b ∈ cs.rowsOf v ↔ v ∈ f.vars

/-- What is listed under `b` moves with the log. -/
theorem mem_rowsOf_followAll {cs : Columns} {b w : Variable} {vs : Finset Variable}
    (h : ∀ v, b ∈ cs.rowsOf v ↔ v ∈ vs) (log : List (Variable × Change)) :
    b ∈ (cs.followAll b log).rowsOf w ↔ w ∈ Change.replay vs log := by
  induction log generalizing cs vs with
  | nil => exact h w
  | cons e log ih =>
    have hstep : ∀ v, b ∈ (cs.follow b e.1 e.2).rowsOf v ↔ v ∈ e.2.apply vs e.1 := by
      intro v
      cases e.2 with
      | added => simp [follow, Change.apply, mem_rowsOf_link, h v]
      | removed => simp [follow, Change.apply, mem_rowsOf_unlink, h v]
      | updated => exact h v
      | unchanged => exact h v
    exact ih hstep

theorem Tracks.followAll {cs : Columns} {b : Variable} {f g : LinearForm α}
    {log : List (Variable × Change)} (h : cs.Tracks b f) (hlog : LinearForm.Reports log f g) :
    (cs.followAll b log).Tracks b g := by
  intro v
  rw [mem_rowsOf_followAll (fun w => (h w).trans LinearForm.mem_varSet.symm), hlog.replay_eq,
    LinearForm.mem_varSet]

variable [Scalar α]

/-- The report of a substitution, replayed on an index that has already given up the column of
the variable that goes. -/
theorem Tracks.substitute {cs : Columns} {b v : Variable} {f : LinearForm α}
    (h : cs.Tracks b (f.erase v)) (hv : v ∈ f.vars) (g : LinearForm α) :
    (cs.followAll b (f.substituteChanges v g)).Tracks b (f.substitute v g) := by
  rw [LinearForm.substituteChanges_of_mem hv, LinearForm.substitute_of_mem hv]
  have hgone : (cs.unlink b v).Tracks b (f.erase v) := by
    intro w
    rw [mem_rowsOf_unlink, h w, LinearForm.mem_vars_erase]
    tauto
  exact hgone.followAll (.addScaled _ _ _)

/-! ## The whole index -/

/-- The index lists a row under a variable exactly if the row mentions it. -/
def Mirrors (cs : Columns) (rows : Variable → Option (LinearForm α)) : Prop :=
  ∀ v b, b ∈ cs.rowsOf v ↔ ∃ f, rows b = some f ∧ v ∈ f.vars

omit [Scalar α] in
theorem Mirrors.tracks {cs : Columns} {rows : Variable → Option (LinearForm α)}
    (h : cs.Mirrors rows) {b : Variable} {f : LinearForm α} (hb : rows b = some f) :
    cs.Tracks b f := by
  intro v
  rw [h v b, hb]
  simp

omit [Scalar α] in
/-- Only the row of `b` and its listing change. -/
theorem Mirrors.follow {cs : Columns} {rows rows' : Variable → Option (LinearForm α)}
    (h : cs.Mirrors rows) {b : Variable} {f : LinearForm α} {log : List (Variable × Change)}
    (hb : rows' b = some f) (hne : ∀ c, c ≠ b → rows' c = rows c)
    (hf : (cs.followAll b log).Tracks b f) : (cs.followAll b log).Mirrors rows' := by
  intro v c
  by_cases hc : c = b
  · subst hc
    rw [hf v, hb]
    simp
  · rw [mem_rowsOf_followAll_of_ne hc, h v c, hne c hc]

end Columns

end SoftSimplex
