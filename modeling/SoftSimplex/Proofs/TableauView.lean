import SoftSimplex.Proofs.ColumnIndex

/-!
# What the operations on a tableau do to its parts

One law for each operation and each part: the rows as a partial function, the index, the
objectives, the queue. `Indexed` is all that the laws for the rows ask of the tableau, and every
operation keeps it. Nothing here depends on the arithmetic.
-/

namespace SoftSimplex

variable {α : Type}

namespace Tableau

/-- The index is exact and has no empty columns. -/
structure Indexed (t : Tableau α) : Prop where
  mirrors : t.columns.Mirrors t.row?
  full : t.columns.Full

theorem Indexed.mem_column {t : Tableau α} (h : t.Indexed) {v b : Variable} :
    b ∈ t.column v ↔ ∃ f, t.row? b = some f ∧ v ∈ f.vars :=
  h.mirrors v b

/-- No column is kept for a variable that no row mentions. -/
theorem Indexed.no_column {t : Tableau α} (h : t.Indexed) {v : Variable}
    (hv : ∀ {b f}, t.row? b = some f → v ∉ f.vars) : t.columns.get? v = none := by
  cases hcol : t.columns.get? v with
  | none => rfl
  | some col =>
    obtain ⟨b, hb⟩ := List.exists_mem_of_ne_nil _ (h.full v col hcol)
    obtain ⟨f, hf, hm⟩ := h.mem_column.1 (Columns.mem_rowsOf.2 ⟨col, hcol, hb⟩)
    exact absurd hm (hv hf)

theorem Indexed.not_mem_of_not_mem_column {t : Tableau α} (h : t.Indexed) {v b : Variable}
    {f : LinearForm α} (hb : t.row? b = some f) (hv : b ∉ t.column v) : v ∉ f.vars :=
  fun hm => hv (h.mem_column.2 ⟨f, hb, hm⟩)

theorem column_nodup (t : Tableau α) (v : Variable) : (t.column v).Nodup :=
  Columns.rowsOf_nodup t.columns v

theorem isBasic_iff {t : Tableau α} {v : Variable} :
    t.isBasic v = true ↔ ∃ f, t.row? v = some f := by
  rw [isBasic, Table.contains_iff, Table.mem_keys_iff]
  rfl

theorem isBasic_eq_false_iff {t : Tableau α} {v : Variable} :
    t.isBasic v = false ↔ t.row? v = none := by
  rw [Bool.eq_false_iff, ne_eq, isBasic_iff, not_exists, Option.eq_none_iff_forall_ne_some]

theorem mem_rows_iff {t : Tableau α} {b : Variable} {f : LinearForm α} :
    (b, f) ∈ t.rows.entries ↔ t.row? b = some f :=
  Table.get?_eq_some_iff.symm

/-! ## Inserting and removing a row -/

theorem row?_insertRow (t : Tableau α) (b c : Variable) (f : LinearForm α) :
    (t.insertRow b f).row? c = if c = b then some f else t.row? c :=
  Table.get?_insert t.rows b c f

@[simp] theorem objective_insertRow (t : Tableau α) (b : Variable) (f : LinearForm α) :
    (t.insertRow b f).objective = t.objective := rfl

@[simp] theorem artificial_insertRow (t : Tableau α) (b : Variable) (f : LinearForm α) :
    (t.insertRow b f).artificial = t.artificial := rfl

@[simp] theorem queue_insertRow (t : Tableau α) (b : Variable) (f : LinearForm α) :
    (t.insertRow b f).queue = t.queue := rfl

theorem Indexed.insertRow {t : Tableau α} (h : t.Indexed) {b : Variable}
    (hb : t.row? b = none) (f : LinearForm α) : (t.insertRow b f).Indexed where
  mirrors := by
    intro v c
    show c ∈ (t.columns.linkAll b f.vars).rowsOf v ↔ _
    rw [Columns.mem_rowsOf_linkAll, h.mirrors v c, row?_insertRow]
    by_cases hc : c = b
    · subst hc
      simp [hb]
    · simp [hc]
  full := h.full.linkAll b f.vars

theorem row?_removeRow (t : Tableau α) (b c : Variable) :
    (t.removeRow b).row? c = if c = b then none else t.row? c := by
  unfold removeRow
  cases hb : t.row? b with
  | some f => exact Table.get?_swapErase t.rows b c
  | none =>
    by_cases hc : c = b
    · simp [hc, hb]
    · simp [hc]

theorem row?_removeRow_self (t : Tableau α) (b : Variable) : (t.removeRow b).row? b = none := by
  rw [row?_removeRow, if_pos rfl]

theorem row?_of_removeRow {t : Tableau α} {b c : Variable} {f : LinearForm α}
    (h : (t.removeRow b).row? c = some f) : c ≠ b ∧ t.row? c = some f := by
  rw [row?_removeRow] at h
  split at h
  · cases h
  · exact ⟨‹_›, h⟩

@[simp] theorem objective_removeRow (t : Tableau α) (b : Variable) :
    (t.removeRow b).objective = t.objective := by
  unfold removeRow
  cases t.row? b <;> rfl

@[simp] theorem artificial_removeRow (t : Tableau α) (b : Variable) :
    (t.removeRow b).artificial = t.artificial := by
  unfold removeRow
  cases t.row? b <;> rfl

@[simp] theorem candidates_removeRow (t : Tableau α) (b : Variable) :
    (t.removeRow b).candidates = t.candidates := by
  unfold removeRow
  cases t.row? b <;> rfl

theorem mem_queue_removeRow {t : Tableau α} {b q : Variable} :
    q ∈ (t.removeRow b).queue.keys ↔ q ∈ t.queue.keys ∧ (q = b → t.row? b = none) := by
  unfold removeRow
  cases hb : t.row? b with
  | some f =>
    show q ∈ (t.queue.swapErase b).keys ↔ _
    rw [Table.mem_keys_swapErase]
    simp [and_comm]
  | none => simp

theorem Indexed.removeRow {t : Tableau α} (h : t.Indexed) (b : Variable) :
    (t.removeRow b).Indexed := by
  have hrow := row?_removeRow t b
  unfold Tableau.removeRow at hrow ⊢
  cases hb : t.row? b with
  | none => exact h
  | some f =>
    simp only [hb] at hrow
    refine ⟨?_, h.full.unlinkAll b f.vars⟩
    intro v c
    show c ∈ (t.columns.unlinkAll b f.vars).rowsOf v ↔ _
    rw [Columns.mem_rowsOf_unlinkAll, h.mirrors v c, hrow c]
    by_cases hc : c = b
    · subst hc
      simp [hb]
    · simp [hc]

/-! ## Removing a column -/

/-- Changing several rows in turn changes each of them once. -/
theorem get?_foldl_modify {rows : Table Variable (LinearForm α)}
    (F : LinearForm α → LinearForm α) {bs : List Variable} (hbs : bs.Nodup) (c : Variable) :
    (bs.foldl (fun rs b => rs.modify b F) rows).get? c =
      if c ∈ bs then (rows.get? c).map F else rows.get? c := by
  induction bs generalizing rows with
  | nil => simp
  | cons b bs ih =>
    obtain ⟨hb, hbs⟩ := List.nodup_cons.1 hbs
    rw [List.foldl_cons, ih hbs, Table.get?_modify]
    by_cases hc : c = b
    · subst hc
      simp [hb]
    · simp [hc]

theorem erase_of_not_mem {f : LinearForm α} {v : Variable} (h : v ∉ f.vars) : f.erase v = f := by
  unfold LinearForm.erase
  rw [Table.swapErase_of_not_mem h]

theorem Indexed.row?_removeColumn {t : Tableau α} (h : t.Indexed) (v c : Variable) :
    (t.removeColumn v).row? c = (t.row? c).map (·.erase v) := by
  show ((t.column v).foldl (fun rs b => rs.modify b (·.erase v)) t.rows).get? c = _
  rw [get?_foldl_modify _ (t.column_nodup v)]
  split
  · rfl
  · next hc =>
    show t.row? c = _
    cases hrow : t.row? c with
    | none => rfl
    | some f => simp [erase_of_not_mem (h.not_mem_of_not_mem_column hrow hc)]

theorem Indexed.removeColumn {t : Tableau α} (h : t.Indexed) (v : Variable) :
    (t.removeColumn v).Indexed where
  mirrors := by
    intro w b
    show b ∈ Columns.rowsOf (Table.swapErase t.columns v) w ↔ _
    rw [Columns.mem_rowsOf_swapErase, h.mirrors w b, h.row?_removeColumn]
    cases t.row? b with
    | none => simp
    | some f => simp [LinearForm.mem_vars_erase]
  full := h.full.swapErase v

variable [Scalar α]

/-! ## The candidates and the objective -/

theorem refreshAll_cons (t : Tableau α) (v : Variable) (vs : List Variable) :
    t.refreshAll (v :: vs) = (t.refresh v).refreshAll vs := rfl

/-- Refreshing changes the candidates alone. -/
theorem refreshAll_eq (t : Tableau α) (vs : List Variable) :
    t.refreshAll vs = { t with candidates := (t.refreshAll vs).candidates } := by
  induction vs generalizing t with
  | nil => rfl
  | cons v vs ih =>
    rw [refreshAll_cons, ih]
    rfl

@[simp] theorem rows_refreshAll (t : Tableau α) (vs : List Variable) :
    (t.refreshAll vs).rows = t.rows := by
  rw [refreshAll_eq]

@[simp] theorem row?_refreshAll (t : Tableau α) (vs : List Variable) (c : Variable) :
    (t.refreshAll vs).row? c = t.row? c := by
  simp [row?]

@[simp] theorem objective_refreshAll (t : Tableau α) (vs : List Variable) :
    (t.refreshAll vs).objective = t.objective := by
  rw [refreshAll_eq]

@[simp] theorem artificial_refreshAll (t : Tableau α) (vs : List Variable) :
    (t.refreshAll vs).artificial = t.artificial := by
  rw [refreshAll_eq]

@[simp] theorem queue_refreshAll (t : Tableau α) (vs : List Variable) :
    (t.refreshAll vs).queue = t.queue := by
  rw [refreshAll_eq]

theorem Indexed.refreshAll {t : Tableau α} (h : t.Indexed) (vs : List Variable) :
    (t.refreshAll vs).Indexed := by
  rw [refreshAll_eq]
  exact ⟨h.mirrors, h.full⟩

@[simp] theorem row?_addCost (t : Tableau α) (v c : Variable) (w : α) :
    (t.addCost v w).row? c = t.row? c := by
  unfold addCost
  rw [row?_refreshAll]
  rfl

@[simp] theorem objective_addCost (t : Tableau α) (v : Variable) (w : α) :
    (t.addCost v w).objective = t.accumulate t.objective v w := by
  unfold addCost
  rw [objective_refreshAll]

@[simp] theorem artificial_addCost (t : Tableau α) (v : Variable) (w : α) :
    (t.addCost v w).artificial = t.artificial := by
  unfold addCost
  rw [artificial_refreshAll]

/-! ## The queue -/

@[simp] theorem row?_enqueue (t : Tableau α) (b c : Variable) :
    (t.enqueue b).row? c = t.row? c := by
  unfold enqueue
  split <;> rfl

@[simp] theorem columns_enqueue (t : Tableau α) (b : Variable) :
    (t.enqueue b).columns = t.columns := by
  unfold enqueue
  split <;> rfl

@[simp] theorem objective_enqueue (t : Tableau α) (b : Variable) :
    (t.enqueue b).objective = t.objective := by
  unfold enqueue
  split <;> rfl

@[simp] theorem artificial_enqueue (t : Tableau α) (b : Variable) :
    (t.enqueue b).artificial = t.artificial := by
  unfold enqueue
  split <;> rfl

@[simp] theorem candidates_enqueue (t : Tableau α) (b : Variable) :
    (t.enqueue b).candidates = t.candidates := by
  unfold enqueue
  split <;> rfl

def Sunk (t : Tableau α) (b : Variable) : Prop :=
  b.isRestricted = true ∧ ∃ f, t.row? b = some f ∧ Scalar.isNeg f.constant = true

theorem mem_queue_enqueue {t : Tableau α} {b q : Variable} :
    q ∈ (t.enqueue b).queue.keys ↔ q ∈ t.queue.keys ∨ q = b ∧ t.Sunk b := by
  have hsunk : (b.isRestricted && (t.row? b).any fun f => Scalar.isNeg f.constant) = true ↔
      t.Sunk b := by
    unfold Sunk
    rw [Bool.and_eq_true]
    cases t.row? b <;> simp
  unfold enqueue
  by_cases h : (b.isRestricted && (t.row? b).any fun f => Scalar.isNeg f.constant) = true
  · rw [if_pos h, Roster.mem_add]
    simp [hsunk.1 h, or_comm]
  · rw [if_neg h]
    simp [mt hsunk.2 h]

/-- Where each step changes one row and queues it if it has sunk, a sequence of steps queues the
rows that it visits and leaves sunk. -/
theorem mem_queue_foldl {step : Tableau α → Variable → Tableau α}
    (hframe : ∀ t b c, c ≠ b → (step t b).row? c = t.row? c)
    (hstep : ∀ t b q, q ∈ (step t b).queue.keys ↔
      q ∈ t.queue.keys ∨ q = b ∧ (step t b).Sunk b)
    {bs : List Variable} (hbs : bs.Nodup) (t : Tableau α) (q : Variable) :
    q ∈ (bs.foldl step t).queue.keys ↔
      q ∈ t.queue.keys ∨ q ∈ bs ∧ (bs.foldl step t).Sunk q := by
  induction bs generalizing t with
  | nil => simp
  | cons b bs ih =>
    obtain ⟨hb, hbs⟩ := List.nodup_cons.1 hbs
    have hlater : ∀ cs : List Variable, b ∉ cs → ∀ t, (cs.foldl step t).row? b = t.row? b := by
      intro cs
      induction cs with
      | nil => intro _ t; rfl
      | cons c cs ihc =>
        intro hcs t
        obtain ⟨hc, hcs⟩ := not_or.1 (mt List.mem_cons.2 hcs)
        rw [List.foldl_cons, ihc hcs, hframe t c b hc]
    have hsame : (bs.foldl step (step t b)).Sunk b ↔ (step t b).Sunk b := by
      unfold Sunk
      rw [hlater bs hb]
    rw [List.foldl_cons, ih hbs, hstep, List.mem_cons]
    constructor
    · rintro ((hq | ⟨rfl, hs⟩) | ⟨hq, hs⟩)
      · exact .inl hq
      · exact .inr ⟨.inl rfl, hsame.2 hs⟩
      · exact .inr ⟨.inr hq, hs⟩
    · rintro (hq | ⟨rfl | hq, hs⟩)
      · exact .inl (.inl hq)
      · exact .inl (.inr ⟨rfl, hsame.1 hs⟩)
      · exact .inr ⟨hq, hs⟩

/-! ## Substituting in one row -/

theorem row?_substituteRow (v : Variable) (g : LinearForm α) (t : Tableau α) (b c : Variable) :
    (substituteRow v g t b).row? c =
      if c = b then (t.row? b).map (·.substitute v g) else t.row? c := by
  unfold substituteRow
  cases hb : t.row? b with
  | some f =>
    simp only [row?_enqueue, Option.map_some]
    exact Table.get?_insert t.rows b c _
  | none =>
    by_cases hc : c = b
    · simp [hc, hb]
    · simp [hc]

@[simp] theorem objective_substituteRow (v : Variable) (g : LinearForm α) (t : Tableau α)
    (b : Variable) : (substituteRow v g t b).objective = t.objective := by
  unfold substituteRow
  cases t.row? b <;> simp

@[simp] theorem artificial_substituteRow (v : Variable) (g : LinearForm α) (t : Tableau α)
    (b : Variable) : (substituteRow v g t b).artificial = t.artificial := by
  unfold substituteRow
  cases t.row? b <;> simp

@[simp] theorem candidates_substituteRow (v : Variable) (g : LinearForm α) (t : Tableau α)
    (b : Variable) : (substituteRow v g t b).candidates = t.candidates := by
  unfold substituteRow
  cases t.row? b <;> simp

theorem mem_queue_substituteRow (v : Variable) (g : LinearForm α) (t : Tableau α)
    (b q : Variable) :
    q ∈ (substituteRow v g t b).queue.keys ↔
      q ∈ t.queue.keys ∨ q = b ∧ (substituteRow v g t b).Sunk b := by
  unfold substituteRow
  cases hb : t.row? b with
  | some f => simp [mem_queue_enqueue, Sunk]
  | none => simp [Sunk, hb]

theorem columns_substituteRow {v : Variable} {g f : LinearForm α} {t : Tableau α}
    {b : Variable} (hb : t.row? b = some f) :
    (substituteRow v g t b).columns = t.columns.followAll b (f.substituteChanges v g) := by
  unfold substituteRow
  simp [hb]

/-! ## Substituting in several rows -/

section Fold

variable {v : Variable} {g : LinearForm α} {bs : List Variable}

@[simp] theorem objective_foldl_substituteRow (t : Tableau α) :
    (bs.foldl (substituteRow v g) t).objective = t.objective := by
  induction bs generalizing t with
  | nil => rfl
  | cons b bs ih => rw [List.foldl_cons, ih, objective_substituteRow]

@[simp] theorem artificial_foldl_substituteRow (t : Tableau α) :
    (bs.foldl (substituteRow v g) t).artificial = t.artificial := by
  induction bs generalizing t with
  | nil => rfl
  | cons b bs ih => rw [List.foldl_cons, ih, artificial_substituteRow]

@[simp] theorem candidates_foldl_substituteRow (t : Tableau α) :
    (bs.foldl (substituteRow v g) t).candidates = t.candidates := by
  induction bs generalizing t with
  | nil => rfl
  | cons b bs ih => rw [List.foldl_cons, ih, candidates_substituteRow]

theorem row?_foldl_substituteRow (hbs : bs.Nodup) (t : Tableau α) (c : Variable) :
    (bs.foldl (substituteRow v g) t).row? c =
      if c ∈ bs then (t.row? c).map (·.substitute v g) else t.row? c := by
  induction bs generalizing t with
  | nil => simp
  | cons b bs ih =>
    obtain ⟨hb, hbs⟩ := List.nodup_cons.1 hbs
    rw [List.foldl_cons, ih hbs, row?_substituteRow]
    by_cases hc : c = b
    · subst hc
      simp [hb]
    · simp [hc]

/-- The rows still to be visited are indexed as if the variable were already erased from them. -/
theorem mirrors_foldl_substituteRow (hbs : bs.Nodup) {t : Tableau α}
    (hrow : ∀ b ∈ bs, ∃ f, t.row? b = some f ∧ v ∈ f.vars)
    (h : t.columns.Mirrors fun c => if c ∈ bs then (t.row? c).map (·.erase v) else t.row? c) :
    (bs.foldl (substituteRow v g) t).columns.Mirrors (bs.foldl (substituteRow v g) t).row? := by
  induction bs generalizing t with
  | nil => simpa using h
  | cons b bs ih =>
    obtain ⟨hb, hbs⟩ := List.nodup_cons.1 hbs
    obtain ⟨f, hf, hv⟩ := hrow b List.mem_cons_self
    have hne : ∀ c ∈ bs, c ≠ b := fun c hc h => hb (h ▸ hc)
    apply ih hbs
    · intro c hc
      rw [row?_substituteRow, if_neg (hne c hc)]
      exact hrow c (List.mem_cons_of_mem _ hc)
    · rw [columns_substituteRow hf]
      have htracks : t.columns.Tracks b (f.erase v) := h.tracks (by simp [hf])
      apply h.follow (f := f.substitute v g)
      · simp [hb, row?_substituteRow, hf]
      · intro c hc
        simp [row?_substituteRow, hc]
      · exact htracks.substitute hv g

theorem full_foldl_substituteRow {t : Tableau α} (h : t.columns.Full) :
    (bs.foldl (substituteRow v g) t).columns.Full := by
  induction bs generalizing t with
  | nil => exact h
  | cons b bs ih =>
    apply ih
    cases hb : t.row? b with
    | some f =>
      rw [columns_substituteRow hb]
      exact h.followAll b _
    | none => simpa [substituteRow, hb] using h

end Fold

/-! ## Substituting everywhere -/

def substituteRows (t : Tableau α) (v : Variable) (g : LinearForm α) : Tableau α :=
  (t.column v).foldl (substituteRow v g) { t with columns := t.columns.swapErase v }

/-- The tableau with `v` substituted in every form, the candidates still as they were. -/
def substituteForms (t : Tableau α) (v : Variable) (g : LinearForm α) : Tableau α :=
  { t.substituteRows v g with
    objective := (t.substituteRows v g).objective.substitute v g
    artificial := (t.substituteRows v g).artificial.map fun f => f.substitute v g }

theorem substitute_eq (t : Tableau α) (v : Variable) (g : LinearForm α) :
    t.substitute v g = (t.substituteForms v g).refreshAll (v :: g.vars) := rfl

theorem row?_substitute_eq (t : Tableau α) (v c : Variable) (g : LinearForm α) :
    (t.substitute v g).row? c = (t.substituteRows v g).row? c := by
  rw [substitute_eq, row?_refreshAll]
  rfl

@[simp] theorem objective_substitute (t : Tableau α) (v : Variable) (g : LinearForm α) :
    (t.substitute v g).objective = t.objective.substitute v g := by
  unfold substitute
  simp

@[simp] theorem artificial_substitute (t : Tableau α) (v : Variable) (g : LinearForm α) :
    (t.substitute v g).artificial = t.artificial.map (·.substitute v g) := by
  unfold substitute
  simp

theorem queue_substitute (t : Tableau α) (v : Variable) (g : LinearForm α) :
    (t.substitute v g).queue = (t.substituteRows v g).queue := by
  rw [substitute_eq, queue_refreshAll]
  rfl

theorem Indexed.row?_substitute {t : Tableau α} (h : t.Indexed) (v c : Variable)
    (g : LinearForm α) :
    (t.substitute v g).row? c = (t.row? c).map (·.substitute v g) := by
  rw [row?_substitute_eq]
  unfold substituteRows
  rw [row?_foldl_substituteRow (t.column_nodup v)]
  split
  · rfl
  · next hc =>
    show t.row? c = _
    cases hrow : t.row? c with
    | none => rfl
    | some f =>
      have hv : f.terms.get? v = none :=
        Table.get?_eq_none_iff.2 (h.not_mem_of_not_mem_column hrow hc)
      simp [LinearForm.substitute, hv]

theorem Indexed.substitute {t : Tableau α} (h : t.Indexed) (v : Variable) (g : LinearForm α) :
    (t.substitute v g).Indexed := by
  have hstart : Columns.Mirrors (Table.swapErase t.columns v) fun c =>
      if c ∈ t.column v then (t.row? c).map (·.erase v) else t.row? c := by
    intro w b
    rw [Columns.mem_rowsOf_swapErase, h.mirrors w b]
    by_cases hb : b ∈ t.column v
    · simp only [hb, if_true]
      cases t.row? b <;> simp [LinearForm.mem_vars_erase]
    · simp only [hb, if_false]
      constructor
      · exact And.right
      · rintro ⟨f, hf, hw⟩
        refine ⟨?_, f, hf, hw⟩
        rintro rfl
        exact h.not_mem_of_not_mem_column hf hb hw
  have hrows : (t.substituteRows v g).Indexed := by
    refine ⟨mirrors_foldl_substituteRow (t.column_nodup v) ?_ hstart,
      full_foldl_substituteRow (h.full.swapErase v)⟩
    intro b hb
    exact h.mem_column.1 hb
  rw [substitute_eq]
  apply Indexed.refreshAll
  exact ⟨hrows.mirrors, hrows.full⟩

/-- After a substitution the queue holds what it held and the rows that it made negative. -/
theorem mem_queue_substitute {t : Tableau α} {v q : Variable} {g : LinearForm α} :
    q ∈ (t.substitute v g).queue.keys ↔
      q ∈ t.queue.keys ∨ q ∈ t.column v ∧ (t.substitute v g).Sunk q := by
  have hsame : (t.substitute v g).Sunk q ↔ (t.substituteRows v g).Sunk q := by
    unfold Sunk
    rw [row?_substitute_eq]
  rw [hsame, queue_substitute]
  refine mem_queue_foldl ?_ (mem_queue_substituteRow v g) (t.column_nodup v) _ q
  intro t b c hc
  rw [row?_substituteRow, if_neg hc]

/-! ## Exchanging two variables -/

/-- What an exchange does, and when it is possible. -/
theorem exchange_eq_ok {t t' : Tableau α} {entry exit : Variable} :
    t.exchange entry exit = .ok t' ↔
      ∃ row, t.row? exit = some row ∧ entry ∈ row.vars ∧
        t' = ((t.removeRow exit).substitute entry (row.exchange exit entry)).insertRow entry
          (row.exchange exit entry) := by
  unfold exchange
  cases hrow : t.row? exit with
  | none => simp
  | some row =>
    by_cases hc : row.contains entry = true
    · simp [hc, LinearForm.contains_iff.1 hc, eq_comm]
    · simp [hc, mt LinearForm.contains_iff.2 hc]

/-- An exchange is possible if the row of the one mentions the other. -/
theorem exchange_ok_of_mem {t : Tableau α} {entry exit : Variable} {row : LinearForm α}
    (hrow : t.row? exit = some row) (hmem : entry ∈ row.vars) :
    ∃ t', t.exchange entry exit = .ok t' :=
  ⟨_, exchange_eq_ok.2 ⟨row, hrow, hmem, rfl⟩⟩

/-- The objective after an exchange. -/
theorem objective_exchange {t t' : Tableau α} {entry exit : Variable} {row : LinearForm α}
    (hrow : t.row? exit = some row) (he : t.exchange entry exit = .ok t') :
    t'.objective = t.objective.substitute entry (row.exchange exit entry) := by
  obtain ⟨row', hrow', -, rfl⟩ := exchange_eq_ok.1 he
  cases hrow.symm.trans hrow'
  rw [objective_insertRow, objective_substitute, objective_removeRow]

/-- The artificial objective after an exchange. -/
theorem artificial_exchange {t t' : Tableau α} {entry exit : Variable} {row : LinearForm α}
    (hrow : t.row? exit = some row) (he : t.exchange entry exit = .ok t') :
    t'.artificial = t.artificial.map (·.substitute entry (row.exchange exit entry)) := by
  obtain ⟨row', hrow', -, rfl⟩ := exchange_eq_ok.1 he
  cases hrow.symm.trans hrow'
  rw [artificial_insertRow, artificial_substitute, artificial_removeRow]

/-! ## Shifting constants -/

@[simp] theorem row?_shiftRow (t : Tableau α) (b c : Variable) (k : α) :
    (t.shiftRow b k).row? c = if c = b then (t.row? c).map (·.shift k) else t.row? c :=
  Table.get?_modify t.rows b c _

/-- Shift the row of `b` by what a change of `δ` in the constraint of `m` does to it. -/
def followShift (m : Variable) (δ : α) (t : Tableau α) (b : Variable) : Tableau α :=
  match t.row? b with
  | some row => (t.shiftRow b (-row.coeff m * δ)).enqueue b
  | none => t

theorem row?_followShift (m : Variable) (δ : α) (t : Tableau α) (b c : Variable) :
    (followShift m δ t b).row? c =
      if c = b then (t.row? c).map fun f => f.shift (-f.coeff m * δ) else t.row? c := by
  unfold followShift
  by_cases hc : c = b
  · subst hc
    cases hb : t.row? c <;> simp [hb]
  · cases hb : t.row? b <;> simp [hc]

theorem shiftConstant_of_nonbasic {t : Tableau α} {m : Variable} (h : t.row? m = none) (δ : α) :
    t.shiftConstant m δ = (t.column m).foldl (followShift m δ) t := by
  unfold shiftConstant
  rw [h]
  rfl

/-- A change of constants leaves the index and both objectives alone. -/
theorem followShift_frame (m : Variable) (δ : α) (t : Tableau α) (b : Variable) :
    (followShift m δ t b).columns = t.columns ∧
      (followShift m δ t b).objective = t.objective ∧
      (followShift m δ t b).artificial = t.artificial ∧
      (followShift m δ t b).candidates = t.candidates := by
  unfold followShift
  cases t.row? b <;> simp [shiftRow]

theorem foldl_followShift_frame (m : Variable) (δ : α) (bs : List Variable) (t : Tableau α) :
    (bs.foldl (followShift m δ) t).columns = t.columns ∧
      (bs.foldl (followShift m δ) t).objective = t.objective ∧
      (bs.foldl (followShift m δ) t).artificial = t.artificial ∧
      (bs.foldl (followShift m δ) t).candidates = t.candidates := by
  induction bs generalizing t with
  | nil => simp
  | cons b bs ih =>
    obtain ⟨h₁, h₂, h₃, h₄⟩ := followShift_frame m δ t b
    obtain ⟨i₁, i₂, i₃, i₄⟩ := ih (followShift m δ t b)
    exact ⟨i₁.trans h₁, i₂.trans h₂, i₃.trans h₃, i₄.trans h₄⟩

theorem shiftConstant_frame (t : Tableau α) (m : Variable) (δ : α) :
    (t.shiftConstant m δ).columns = t.columns ∧
      (t.shiftConstant m δ).objective = t.objective ∧
      (t.shiftConstant m δ).artificial = t.artificial ∧
      (t.shiftConstant m δ).candidates = t.candidates := by
  cases hm : t.row? m with
  | some row =>
    unfold shiftConstant
    simp only [hm]
    split <;> exact ⟨rfl, rfl, rfl, rfl⟩
  | none =>
    rw [shiftConstant_of_nonbasic hm]
    exact foldl_followShift_frame m δ _ t

theorem row?_foldl_followShift {m : Variable} {δ : α} {bs : List Variable} (hbs : bs.Nodup)
    (t : Tableau α) (c : Variable) :
    (bs.foldl (followShift m δ) t).row? c =
      if c ∈ bs then (t.row? c).map fun f => f.shift (-f.coeff m * δ) else t.row? c := by
  induction bs generalizing t with
  | nil => simp
  | cons b bs ih =>
    obtain ⟨hb, hbs⟩ := List.nodup_cons.1 hbs
    rw [List.foldl_cons, ih hbs, row?_followShift]
    by_cases hc : c = b
    · subst hc
      simp [hb]
    · simp [hc]

/-- A marker that has a row moves by the whole change. -/
theorem row?_shiftConstant_of_basic {t : Tableau α} {m : Variable} {row : LinearForm α}
    (h : t.row? m = some row) (δ : α) (c : Variable) :
    (t.shiftConstant m δ).row? c =
      if c = m then (t.row? c).map (·.shift δ) else t.row? c := by
  have hsame : (t.shiftConstant m δ).row? c = (t.shiftRow m δ).row? c := by
    unfold shiftConstant
    simp only [h]
    split <;> rfl
  rw [hsame, row?_shiftRow]

/-- A marker without a row moves the rows that mention it. -/
theorem row?_shiftConstant_of_nonbasic {t : Tableau α} {m : Variable} (h : t.row? m = none)
    (δ : α) (c : Variable) :
    (t.shiftConstant m δ).row? c =
      if c ∈ t.column m then (t.row? c).map fun f => f.shift (-f.coeff m * δ)
      else t.row? c := by
  rw [shiftConstant_of_nonbasic h, row?_foldl_followShift (t.column_nodup m)]

theorem mem_queue_shiftConstant_of_basic {t : Tableau α} {m q : Variable} {row : LinearForm α}
    (h : t.row? m = some row) (hm : m.isRestricted = true) {δ : α} :
    q ∈ (t.shiftConstant m δ).queue.keys ↔
      q ∈ t.queue.keys ∨ q = m ∧ (t.shiftConstant m δ).Sunk q := by
  have hsunk : (t.shiftConstant m δ).Sunk m ↔ Scalar.isNeg (row.constant + δ) = true := by
    unfold Sunk
    rw [row?_shiftConstant_of_basic h, if_pos rfl, h]
    simp [hm, LinearForm.shift]
  have hq : q ∈ (t.shiftConstant m δ).queue.keys ↔
      q ∈ t.queue.keys ∨ q = m ∧ Scalar.isNeg (row.constant + δ) = true := by
    unfold shiftConstant
    simp only [h]
    by_cases hneg : Scalar.isNeg (row.constant + δ) = true
    · rw [if_pos hneg, Roster.mem_add]
      simp [hneg, shiftRow, or_comm]
    · rw [if_neg hneg]
      simp [hneg, shiftRow]
  rw [hq]
  constructor
  · rintro (hq | ⟨rfl, hn⟩)
    · exact .inl hq
    · exact .inr ⟨rfl, hsunk.2 hn⟩
  · rintro (hq | ⟨rfl, hs⟩)
    · exact .inl hq
    · exact .inr ⟨rfl, hsunk.1 hs⟩

theorem mem_queue_followShift (m : Variable) (δ : α) (t : Tableau α) (b q : Variable) :
    q ∈ (followShift m δ t b).queue.keys ↔
      q ∈ t.queue.keys ∨ q = b ∧ (followShift m δ t b).Sunk b := by
  unfold followShift
  cases hb : t.row? b with
  | some f => simp [mem_queue_enqueue, Sunk, shiftRow]
  | none => simp [Sunk, hb]

theorem mem_queue_shiftConstant_of_nonbasic {t : Tableau α} {m q : Variable}
    (hm : t.row? m = none) {δ : α} :
    q ∈ (t.shiftConstant m δ).queue.keys ↔
      q ∈ t.queue.keys ∨ q ∈ t.column m ∧ (t.shiftConstant m δ).Sunk q := by
  rw [shiftConstant_of_nonbasic hm]
  refine mem_queue_foldl ?_ (mem_queue_followShift m δ) (t.column_nodup m) _ q
  intro t b c hc
  rw [row?_followShift, if_neg hc]

/-- Shifting constants changes no coefficient and adds no row. -/
theorem row?_shiftConstant (t : Tableau α) (m : Variable) (δ : α) (c : Variable) :
    (t.shiftConstant m δ).row? c = t.row? c ∨
      ∃ k, (t.shiftConstant m δ).row? c = (t.row? c).map (·.shift k) := by
  cases hm : t.row? m with
  | some row =>
    rw [row?_shiftConstant_of_basic hm]
    split
    · exact .inr ⟨δ, rfl⟩
    · exact .inl rfl
  | none =>
    rw [row?_shiftConstant_of_nonbasic hm]
    split
    · cases hc : t.row? c with
      | some f => exact .inr ⟨-f.coeff m * δ, rfl⟩
      | none => exact .inl rfl
    · exact .inl rfl

theorem Indexed.shiftConstant {t : Tableau α} (h : t.Indexed) (m : Variable) (δ : α) :
    (t.shiftConstant m δ).Indexed := by
  obtain ⟨hcols, -, -, -⟩ := shiftConstant_frame t m δ
  refine ⟨?_, hcols ▸ h.full⟩
  intro v b
  rw [hcols, h.mirrors v b]
  rcases row?_shiftConstant t m δ b with hb | ⟨k, hb⟩
  · rw [hb]
  · rw [hb]
    cases t.row? b <;> simp

end Tableau

end SoftSimplex
