import Mathlib.Data.List.Basic
import Mathlib.Data.Set.Finite.List
import SoftSimplex.Proofs.Passes
import SoftSimplex.Proofs.Rearrangement

/-!
# A system has finitely many tableaus

The numbers in a tableau are determined by the system and by which variables are basic. What is left
is order: of the rows, of the terms of a form, of the columns and their members, and of the queue.
With finitely many variables there are finitely many orders, so a pass, which keeps the system,
moves among finitely many tableaus.
-/

namespace SoftSimplex

section Lists

variable {β : Type}

/-- The lists without repetition over a set. -/
def Orders (s : Set β) : Set (List β) := {l | l.Nodup ∧ ∀ x ∈ l, x ∈ s}

theorem finite_orders {s : Set β} (hs : s.Finite) : (Orders s).Finite := by
  have := hs.fintype
  refine ((List.finite_length_le s (Fintype.card s)).image (List.map Subtype.val)).subset ?_
  rintro l ⟨hnodup, hmem⟩
  lift l to List s using hmem
  exact ⟨l, hnodup.of_map.length_le_card, rfl⟩

end Lists

namespace Table

variable {κ β : Type} [DecidableEq κ]

/-- The entries are the keys in order, each with its value. -/
theorem entries_eq (t : Table κ β) :
    t.entries = t.keys.filterMap fun k => (t.get? k).map (k, ·) := by
  rw [keys, List.filterMap_map]
  refine List.filterMap_some.symm.trans (List.filterMap_congr ?_)
  rintro ⟨k, v⟩ he
  simp [get?_eq_some_iff.2 he]

theorem ext_of_keys {t u : Table κ β} (hkeys : t.keys = u.keys)
    (h : ∀ k, t.get? k = u.get? k) : t = u := by
  apply Table.ext
  rw [entries_eq, entries_eq, hkeys]
  simp only [h]

omit [DecidableEq κ] in
theorem roster_eq_of_keys {r r' : Roster κ} (h : r.keys = r'.keys) : r = r' := by
  have hfst : Function.Injective (Prod.fst : κ × Unit → κ) := fun _ _ he => Prod.ext he rfl
  exact Table.ext (List.map_injective_iff.2 hfst h)

end Table

/-- Forms that differ in order only and have the same order are the same. -/
theorem LinearForm.Rearranges.eq_of_vars {α : Type} {f g : LinearForm α} (h : f.Rearranges g)
    (hvars : f.vars = g.vars) : f = g :=
  LinearForm.ext h.constant (Table.ext_of_keys hvars fun k => Table.get?_eq_of_perm h.terms k)

namespace Tableau

/-! ## What stands where -/

section Shape

variable {α : Type} {t t' : Tableau α}

abbrev Listing : Type := List (Variable × List Variable)

/-- The order of everything in a tableau, without the numbers. -/
@[ext]
structure Shape where
  rows : Listing
  columns : Listing
  objective : List Variable
  artificial : List Variable
  candidates : List Variable
  queue : List Variable

def shape (t : Tableau α) : Shape where
  rows := t.rows.entries.map fun r => (r.1, r.2.vars)
  columns := t.columns.entries.map fun c => (c.1, c.2.keys)
  objective := t.objective.vars
  artificial := (t.artificial.map LinearForm.vars).getD []
  candidates := t.candidates.members
  queue := t.queue.keys

theorem keys_of_shape (h : t'.shape = t.shape) : t'.rows.keys = t.rows.keys := by
  have hrows := congrArg (fun s => s.rows.map Prod.fst) h
  simpa [shape, Table.keys, Function.comp_def] using hrows

theorem mem_shape_rows {b : Variable} {vs : List Variable} :
    (b, vs) ∈ t.shape.rows ↔ ∃ f, t.row? b = some f ∧ f.vars = vs := by
  simp only [shape, List.mem_map, Prod.mk.injEq]
  constructor
  · rintro ⟨r, hr, rfl, rfl⟩
    exact ⟨r.2, mem_rows_iff.1 hr, rfl⟩
  · rintro ⟨f, hf, rfl⟩
    exact ⟨(b, f), mem_rows_iff.2 hf, rfl, rfl⟩

/-- Tableaus that differ in order only and have the same order are the same. -/
theorem Rearranges.eq_of_shape (h : t'.Rearranges t) (hs : t'.shape = t.shape) : t' = t := by
  have hrow : ∀ b, t'.row? b = t.row? b := by
    intro b
    have hb := h.row b
    cases hf : t'.row? b with
    | none =>
      rw [hf] at hb
      generalize t.row? b = x at hb
      cases hb
      rfl
    | some f =>
      obtain ⟨g, hg, hvars⟩ := mem_shape_rows.1 (hs ▸ mem_shape_rows.2 ⟨f, hf, rfl⟩)
      rw [hf, hg] at hb
      cases hb with
      | some hfg => rw [hg, hfg.eq_of_vars hvars.symm]
  have hcolumns : t'.columns = t.columns := by
    apply Table.ext
    refine List.map_injective_iff.2 ?_ (congrArg Shape.columns hs)
    rintro ⟨v, col⟩ ⟨v', col'⟩ he
    simp only [Prod.mk.injEq] at he
    rw [he.1, Table.roster_eq_of_keys he.2]
  have hartificial : t'.artificial = t.artificial := by
    have hvars := congrArg Shape.artificial hs
    have hrel := h.artificial
    simp only [shape] at hvars
    generalize t'.artificial = x, t.artificial = y at hvars hrel
    cases hrel with
    | none => rfl
    | some hfg => rw [hfg.eq_of_vars hvars]
  exact Tableau.ext (Table.ext_of_keys (keys_of_shape hs) hrow) hcolumns
    (h.objective.eq_of_vars (congrArg Shape.objective hs)) hartificial
    (Candidates.ext (congrArg Shape.candidates hs))
    (Table.roster_eq_of_keys (congrArg Shape.queue hs))

end Shape

/-! ## Finitely many orders -/

/-- The shapes that tableaus over `vs` may have. -/
def Shapes (vs : Set Variable) : Set Shape :=
  {s | s.rows ∈ Orders (vs ×ˢ Orders vs) ∧ s.columns ∈ Orders (vs ×ˢ Orders vs) ∧
    s.objective ∈ Orders vs ∧ s.artificial ∈ Orders vs ∧ s.candidates ∈ Orders vs ∧
    s.queue ∈ Orders vs}

theorem finite_shapes {vs : Set Variable} (h : vs.Finite) : (Shapes vs).Finite := by
  have hlists := finite_orders h
  have hlistings := finite_orders (h.prod hlists)
  have hall := hlistings.prod (hlistings.prod (hlists.prod (hlists.prod (hlists.prod hlists))))
  apply Set.Finite.of_finite_image (hall.subset ?_) (f := fun s : Shape =>
    (s.rows, s.columns, s.objective, s.artificial, s.candidates, s.queue))
  · rintro s - s' - hss'
    simp only [Prod.mk.injEq] at hss'
    obtain ⟨h₁, h₂, h₃, h₄, h₅, h₆⟩ := hss'
    exact Shape.ext h₁ h₂ h₃ h₄ h₅ h₆
  · rintro _ ⟨s, ⟨h₁, h₂, h₃, h₄, h₅, h₆⟩, rfl⟩
    exact ⟨h₁, h₂, h₃, h₄, h₅, h₆⟩

/-- Numbers below a bound leave room for finitely many variables. -/
theorem finite_of_numbered {V : Variable → Prop} (hV : Numbered V) {k : Nat}
    (hdrawn : ∀ v, V v → v.id < k) : {v | V v}.Finite := by
  apply Set.Finite.of_finite_image ((Set.finite_lt_nat k).subset ?_) (f := Variable.id)
  · exact fun v hv w hw hid => hV v w hv hw hid
  · rintro _ ⟨v, hv, rfl⟩
    exact hdrawn v hv

variable {V : Variable → Prop} {t u u' : Tableau Rat}

theorem Tidy.shape_mem (h : t.Tidy V) : t.shape ∈ Shapes {v | V v} := by
  have hrow : ∀ {b f}, t.row? b = some f → V b ∧ f.vars ∈ Orders {v | V v} :=
    fun hf => ⟨(h.within.row hf).1, Table.nodup _, (h.within.row hf).2⟩
  have hbasic : ∀ {b v}, b ∈ t.column v → V v ∧ V b := by
    intro b v hb
    obtain ⟨f, hf, hv⟩ := h.wellFormed.indexed.mem_column.1 hb
    exact ⟨(h.within.row hf).2 v hv, (h.within.row hf).1⟩
  have hcandidates : t.candidates.members.Nodup :=
    t.candidates.sorted.imp fun hlt he => absurd (he ▸ hlt) (Nat.lt_irrefl _)
  refine ⟨⟨?_, ?_⟩, ⟨?_, ?_⟩, ⟨Table.nodup _, h.within.objective⟩, ?_,
    ⟨hcandidates, h.within.candidates⟩, Table.nodup _, ?_⟩
  · apply List.Nodup.of_map Prod.fst
    simpa [shape, Function.comp_def] using t.rows.nodup
  · rintro ⟨b, vs⟩ hb
    obtain ⟨f, hf, rfl⟩ := mem_shape_rows.1 hb
    exact hrow hf
  · apply List.Nodup.of_map Prod.fst
    simpa [shape, Function.comp_def] using t.columns.nodup
  · rintro _ hc
    obtain ⟨⟨v, col⟩, hcol, rfl⟩ := List.mem_map.1 hc
    have hcol := Table.get?_eq_some_iff.2 hcol
    have hmem : ∀ b ∈ col.keys, b ∈ t.column v :=
      fun b hb => Columns.mem_rowsOf.2 ⟨col, hcol, hb⟩
    obtain ⟨b, hb⟩ := List.exists_mem_of_ne_nil _ (h.wellFormed.indexed.full v col hcol)
    exact ⟨(hbasic (hmem b hb)).1, Table.nodup _, fun b hb => (hbasic (hmem b hb)).2⟩
  · show (t.artificial.map LinearForm.vars).getD [] ∈ _
    cases hg : t.artificial with
    | none => exact ⟨List.nodup_nil, nofun⟩
    | some g => exact ⟨Table.nodup _, h.within.artificial hg⟩
  · intro b hb
    obtain ⟨-, f, hf⟩ := h.wellFormed.queued hb
    exact (hrow hf).1

theorem Recast.symm (h : u.Recast t) : t.Recast u where
  solves := fun σ => (h.solves σ).symm
  objective := fun σ hσ => (h.objective σ ((h.solves σ).1 hσ)).symm
  artificial := fun σ hσ => (h.artificial σ ((h.solves σ).1 hσ)).symm

/-- Two tableaus of one system in the same basis differ in order only. -/
theorem Keeps.rearranges (h : Keeps V t u) (h' : Keeps V t u')
    (hb : ∀ v, u'.isBasic v = u.isBasic v) : u'.Rearranges u :=
  h.tidy.wellFormed.rearranges h.tidy.trim h'.tidy.wellFormed h'.tidy.trim
    (h'.recast.trans h.recast.symm) hb

/-- Over finitely many variables a system has finitely many tableaus. -/
theorem finite_keeps (hV : Numbered V) {k : Nat} (hdrawn : ∀ v, V v → v.id < k)
    (t : Tableau Rat) : {u | Keeps V t u}.Finite := by
  have hshapes := finite_shapes (finite_of_numbered hV hdrawn)
  apply Set.Finite.of_finite_image (hshapes.subset ?_) (f := shape)
  · intro u hu u' hu' hs
    apply (Keeps.rearranges hu' hu fun v => ?_).eq_of_shape hs
    unfold isBasic Table.contains
    rw [keys_of_shape hs]
  · rintro _ ⟨u, hu, rfl⟩
    exact hu.tidy.shape_mem

end Tableau

end SoftSimplex
