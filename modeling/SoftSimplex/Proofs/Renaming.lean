import Mathlib.Data.FunLike.Embedding
import Mathlib.Data.List.Nodup
import Mathlib.Data.Set.List
import Mathlib.Order.Monotone.Basic
import SoftSimplex.Tableau.Basic

/-!
# Renaming variables

New numbers for the variables, in the same order, their roles kept. Nothing that is built from
variables looks at a number otherwise than to compare it with another, so every operation on renamed
tables, forms, column indexes and candidates comes to the renamed result.
-/

namespace SoftSimplex

/-- New numbers for variables, in the same order. -/
structure Renumbering where
  number : Nat → Nat
  strictMono : StrictMono number

namespace Renumbering

instance : FunLike Renumbering Variable Variable where
  coe φ v := ⟨φ.number v.id, v.role⟩
  coe_injective φ ψ h := by
    have hnumber : φ.number = ψ.number := by
      funext k
      exact congrArg Variable.id (congrFun h ⟨k, .free⟩)
    cases φ
    cases ψ
    cases hnumber
    rfl

variable (φ : Renumbering) (v w : Variable)

@[simp] theorem id_apply : (φ v).id = φ.number v.id := rfl

@[simp] theorem role_apply : (φ v).role = v.role := rfl

@[simp] theorem number_lt_iff {i j : Nat} : φ.number i < φ.number j ↔ i < j :=
  φ.strictMono.lt_iff_lt

@[simp] theorem number_inj {i j : Nat} : φ.number i = φ.number j ↔ i = j :=
  φ.strictMono.injective.eq_iff

instance : EmbeddingLike Renumbering Variable Variable where
  injective' φ v w h := by
    obtain ⟨i, a⟩ := v
    obtain ⟨j, b⟩ := w
    obtain ⟨hid, hrole⟩ := Variable.mk.inj h
    exact congrArg₂ Variable.mk ((φ.number_inj).1 hid) hrole

@[simp] theorem isRestricted_apply : (φ v).isRestricted = v.isRestricted := rfl

@[simp] theorem isPivotable_apply : (φ v).isPivotable = v.isPivotable := rfl

@[simp] theorem mayEnter_apply : (φ v).mayEnter = v.mayEnter := rfl

@[simp] theorem lowest?_map (vs : List Variable) :
    Variable.lowest? (vs.map φ) = (Variable.lowest? vs).map φ := by
  induction vs with
  | nil => rfl
  | cons v vs ih =>
    simp only [List.map_cons, Variable.lowest?, ih]
    cases Variable.lowest? vs with
    | none => rfl
    | some w =>
      simp only [Option.map_some, id_apply, number_lt_iff]
      split <;> rfl

end Renumbering

/-! ## Tables -/

section Tables

variable {κ β F : Type} [FunLike F κ κ] [EmbeddingLike F κ κ]

def Table.rename (f : F) (g : β → β) (t : Table κ β) : Table κ β where
  entries := t.entries.map (Prod.map f g)
  nodup := by
    have hkeys : (t.entries.map (Prod.map f g)).map Prod.fst = (t.entries.map Prod.fst).map f := by
      simp [Function.comp_def]
    rw [hkeys]
    exact t.nodup.map (EmbeddingLike.injective f)

variable (f : F) (g : β → β)

namespace Table

@[simp] theorem entries_rename (t : Table κ β) :
    (t.rename f g).entries = t.entries.map (Prod.map f g) := rfl

@[simp] theorem rename_empty : (∅ : Table κ β).rename f g = ∅ := rfl

@[simp] theorem keys_rename (t : Table κ β) : (t.rename f g).keys = t.keys.map f := by
  simp [keys, Function.comp_def]

@[simp] theorem size_rename (t : Table κ β) : (t.rename f g).size = t.size := by
  simp [size]

@[simp] theorem isEmpty_rename (t : Table κ β) : (t.rename f g).isEmpty = t.isEmpty := by
  simp [isEmpty]

@[simp] theorem lastKey?_rename (t : Table κ β) : (t.rename f g).lastKey? = t.lastKey?.map f := by
  simp [lastKey?, List.getLast?_map]

@[simp] theorem dropLast_rename (t : Table κ β) : (t.rename f g).dropLast = t.dropLast.rename f g :=
  Table.ext (List.map_dropLast ..).symm

theorem dropBackWhile_rename (t : Table κ β) {p p' : κ → Bool} (hp : ∀ k, p' (f k) = p k) :
    (t.rename f g).dropBackWhile p' = (t.dropBackWhile p).rename f g := by
  apply Table.ext
  simp [dropBackWhile, ← List.map_reverse, List.dropWhile_map, Function.comp_def, hp]

theorem mapValues_rename (t : Table κ β) {h h' : β → β} (hg : ∀ v, h' (g v) = g (h v)) :
    (t.rename f g).mapValues h' = (t.mapValues h).rename f g := by
  apply Table.ext
  simp [mapValues, hg]

variable [DecidableEq κ]

@[simp] theorem get?_rename (t : Table κ β) (k : κ) :
    (t.rename f g).get? (f k) = (t.get? k).map g := by
  unfold get?
  rw [entries_rename]
  induction t.entries with
  | nil => rfl
  | cons e es ih =>
    simp only [List.map_cons, Entries.find?, Prod.map_fst, EmbeddingLike.apply_eq_iff_eq, ih]
    split <;> rfl

@[simp] theorem contains_rename (t : Table κ β) (k : κ) :
    (t.rename f g).contains (f k) = t.contains k := by
  simp [contains]

@[simp] theorem insert_rename (t : Table κ β) (k : κ) (v : β) :
    (t.rename f g).insert (f k) (g v) = (t.insert k v).rename f g := by
  apply Table.ext
  show Entries.put (f k) (g v) (t.entries.map (Prod.map f g)) = (Entries.put k v t.entries).map _
  induction t.entries with
  | nil => rfl
  | cons e es ih =>
    simp only [List.map_cons, Entries.put, Prod.map_fst, EmbeddingLike.apply_eq_iff_eq, ih]
    split <;> rfl

@[simp] theorem swapErase_rename (t : Table κ β) (k : κ) :
    (t.rename f g).swapErase (f k) = (t.swapErase k).rename f g := by
  apply Table.ext
  show Entries.swapOut (f k) (t.entries.map (Prod.map f g)) = (Entries.swapOut k t.entries).map _
  induction t.entries with
  | nil => rfl
  | cons e es ih =>
    simp only [List.map_cons, Entries.swapOut, Prod.map_fst, EmbeddingLike.apply_eq_iff_eq, ih,
      List.getLast?_map]
    split
    · cases es.getLast? with
      | none => rfl
      | some l => simp
    · rfl

@[simp] theorem erase_rename (t : Table κ β) (k : κ) :
    (t.rename f g).erase (f k) = (t.erase k).rename f g := by
  apply Table.ext
  simp [erase, List.eraseP_map, Function.comp_def]

theorem modify_rename (t : Table κ β) (k : κ) {h h' : β → β} (hg : ∀ v, h' (g v) = g (h v)) :
    (t.rename f g).modify (f k) h' = (t.modify k h).rename f g := by
  apply Table.ext
  simp only [modify, entries_rename, List.map_map]
  apply List.map_congr_left
  intro e _
  simp only [Function.comp_apply, Prod.map_fst, Prod.map_snd, EmbeddingLike.apply_eq_iff_eq]
  split
  · simp [*]
  · simp [Prod.map, *]

end Table

@[simp] theorem Roster.add_rename [DecidableEq κ] (r : Roster κ) (k : κ) :
    Roster.add (Table.rename f id r) (f k) = Table.rename f id (r.add k) :=
  Table.insert_rename f id r k ()

end Tables

/-! ## Forms -/

namespace LinearForm

variable {α : Type}

def rename (φ : Renumbering) (f : LinearForm α) : LinearForm α :=
  ⟨f.constant, f.terms.rename φ id⟩

variable (φ : Renumbering)

@[simp] theorem constant_rename (f : LinearForm α) : (f.rename φ).constant = f.constant := rfl

@[simp] theorem terms_rename (f : LinearForm α) : (f.rename φ).terms = f.terms.rename φ id := rfl

@[simp] theorem const_rename (k : α) : (const k).rename φ = const k := rfl

@[simp] theorem vars_rename (f : LinearForm α) : (f.rename φ).vars = f.vars.map φ :=
  Table.keys_rename φ id f.terms

@[simp] theorem contains_rename (f : LinearForm α) (v : Variable) :
    (f.rename φ).contains (φ v) = f.contains v :=
  Table.contains_rename φ id f.terms v

@[simp] theorem erase_rename (f : LinearForm α) (v : Variable) :
    (f.rename φ).erase (φ v) = (f.erase v).rename φ := by
  simp [erase, rename]

@[simp] theorem pivotable?_rename (f : LinearForm α) :
    (f.rename φ).pivotable? = f.pivotable?.map φ := by
  simp [pivotable?, List.find?_map, Function.comp_def]

/-- A form in renamed variables is a renamed form. -/
theorem exists_rename {f : LinearForm α} (hf : ∀ v ∈ f.vars, ∃ w, φ w = v) :
    ∃ g : LinearForm α, g.rename φ = f := by
  have hentries : f.terms.entries ∈ Set.range (List.map (Prod.map φ id)) := by
    rw [Set.range_list_map]
    rintro e he
    obtain ⟨w, hw⟩ := hf e.1 (List.mem_map_of_mem he)
    exact ⟨(w, e.2), Prod.ext hw rfl⟩
  obtain ⟨es, hes⟩ := hentries
  have hnodup : (es.map Prod.fst).Nodup := by
    have hn := f.terms.nodup
    rw [← hes, List.map_map] at hn
    exact List.Nodup.of_map φ (by rwa [List.map_map])
  exact ⟨⟨f.constant, es, hnodup⟩, LinearForm.ext rfl (Table.ext hes)⟩

variable [Scalar α]

@[simp] theorem rename_zero : (0 : LinearForm α).rename φ = 0 := rfl

@[simp] theorem coeff_rename (f : LinearForm α) (v : Variable) :
    (f.rename φ).coeff (φ v) = f.coeff v := by
  simp [coeff]

@[simp] theorem shift_rename (f : LinearForm α) (k : α) :
    (f.rename φ).shift k = (f.shift k).rename φ := rfl

@[simp] theorem addTerm_rename (f : LinearForm α) (v : Variable) (c : α) :
    (f.rename φ).addTerm (φ v) c = (f.addTerm v c).rename φ := by
  unfold addTerm
  have hinsert (c : α) : (f.terms.rename φ id).insert (φ v) c = (f.terms.insert v c).rename φ id :=
    Table.insert_rename φ id f.terms v c
  simp only [terms_rename, Table.get?_rename, Option.map_id_fun, id_eq]
  cases f.terms.get? v with
  | none =>
    simp only
    split
    · rfl
    · simp [rename, hinsert]
  | some old =>
    simp only
    split
    · simp
    · simp [rename, hinsert]

@[simp] theorem changeAt_rename (f : LinearForm α) (v : Variable) (c : α) :
    (f.rename φ).changeAt (φ v) c = f.changeAt v c := by
  simp [changeAt]

@[simp] theorem addTerms_rename (f : LinearForm α) (ts : List (Variable × α)) :
    (f.rename φ).addTerms (ts.map (Prod.map φ id)) = (f.addTerms ts).rename φ := by
  induction ts generalizing f with
  | nil => rfl
  | cons t ts ih => simp [addTerms, ih]

@[simp] theorem changes_rename (f : LinearForm α) (ts : List (Variable × α)) :
    (f.rename φ).changes (ts.map (Prod.map φ id)) = (f.changes ts).map (Prod.map φ id) := by
  induction ts generalizing f with
  | nil => rfl
  | cons t ts ih => simp [changes, ih]

@[simp] theorem scaledTerms_rename (f : LinearForm α) (m : α) :
    (f.rename φ).scaledTerms m = (f.scaledTerms m).map (Prod.map φ id) := by
  simp [scaledTerms]

@[simp] theorem addScaled_rename (f g : LinearForm α) (m : α) :
    (f.rename φ).addScaled (g.rename φ) m = (f.addScaled g m).rename φ := by
  simp [addScaled]

@[simp] theorem addScaledChanges_rename (f g : LinearForm α) (m : α) :
    (f.rename φ).addScaledChanges (g.rename φ) m =
      (f.addScaledChanges g m).map (Prod.map φ id) := by
  simp [addScaledChanges]

@[simp] theorem scale_rename (f : LinearForm α) (k : α) :
    (f.rename φ).scale k = (f.scale k).rename φ := by
  have hterms : (f.terms.rename φ id).mapValues (· * k) = (f.terms.mapValues (· * k)).rename φ id :=
    Table.mapValues_rename φ id f.terms fun _ => rfl
  simp [scale, rename, hterms]

@[simp] theorem negate_rename (f : LinearForm α) : (f.rename φ).negate = f.negate.rename φ :=
  scale_rename φ f (-1)

@[simp] theorem isolate_rename (f : LinearForm α) (v : Variable) :
    (f.rename φ).isolate (φ v) = (f.isolate v).rename φ := by
  unfold isolate
  simp only [terms_rename, Table.get?_rename, Option.map_id_fun, id_eq]
  cases f.terms.get? v with
  | none => rfl
  | some c => simp

@[simp] theorem exchange_rename (f : LinearForm α) (old new : Variable) :
    (f.rename φ).exchange (φ old) (φ new) = (f.exchange old new).rename φ := by
  simp [exchange]

@[simp] theorem substitute_rename (f g : LinearForm α) (v : Variable) :
    (f.rename φ).substitute (φ v) (g.rename φ) = (f.substitute v g).rename φ := by
  unfold substitute
  simp only [terms_rename, Table.get?_rename, Option.map_id_fun, id_eq]
  cases f.terms.get? v with
  | none => rfl
  | some c => simp

@[simp] theorem substituteChanges_rename (f g : LinearForm α) (v : Variable) :
    (f.rename φ).substituteChanges (φ v) (g.rename φ) =
      (f.substituteChanges v g).map (Prod.map φ id) := by
  unfold substituteChanges
  simp only [terms_rename, Table.get?_rename, Option.map_id_fun, id_eq]
  cases f.terms.get? v with
  | none => rfl
  | some c => simp

end LinearForm

/-! ## Column indexes -/

namespace Columns

def rename (φ : Renumbering) (cs : Columns) : Columns := Table.rename φ (Table.rename φ id) cs

variable (φ : Renumbering)

@[simp] theorem rowsOf_rename (cs : Columns) (v : Variable) :
    (cs.rename φ).rowsOf (φ v) = (cs.rowsOf v).map φ := by
  unfold rowsOf rename
  rw [Table.get?_rename]
  cases Table.get? cs v with
  | none => rfl
  | some col => exact Table.keys_rename φ id col

@[simp] theorem swapErase_rename (cs : Columns) (v : Variable) :
    Table.swapErase (cs.rename φ) (φ v) = Columns.rename φ (Table.swapErase cs v) :=
  Table.swapErase_rename φ _ cs v

@[simp] theorem link_rename (cs : Columns) (b v : Variable) :
    (cs.rename φ).link (φ b) (φ v) = (cs.link b v).rename φ := by
  unfold link rename
  rw [Table.get?_rename, ← Table.insert_rename, ← Roster.add_rename]
  cases Table.get? cs v <;> rfl

@[simp] theorem unlink_rename (cs : Columns) (b v : Variable) :
    (cs.rename φ).unlink (φ b) (φ v) = (cs.unlink b v).rename φ := by
  unfold unlink rename
  rw [Table.get?_rename]
  cases Table.get? cs v with
  | none => rfl
  | some col =>
    simp only [Option.map_some, Table.swapErase_rename, Table.isEmpty_rename, Table.insert_rename]
    split <;> rfl

@[simp] theorem follow_rename (cs : Columns) (b v : Variable) (c : Change) :
    (cs.rename φ).follow (φ b) (φ v) c = (cs.follow b v c).rename φ := by
  cases c <;> simp [follow]

@[simp] theorem linkAll_rename (cs : Columns) (b : Variable) (vs : List Variable) :
    (cs.rename φ).linkAll (φ b) (vs.map φ) = (cs.linkAll b vs).rename φ := by
  rw [linkAll, List.foldl_map]
  exact List.foldl_hom (rename φ) fun cs v => link_rename φ cs b v

@[simp] theorem unlinkAll_rename (cs : Columns) (b : Variable) (vs : List Variable) :
    (cs.rename φ).unlinkAll (φ b) (vs.map φ) = (cs.unlinkAll b vs).rename φ := by
  rw [unlinkAll, List.foldl_map]
  exact List.foldl_hom (rename φ) fun cs v => unlink_rename φ cs b v

@[simp] theorem followAll_rename (cs : Columns) (b : Variable) (log : List (Variable × Change)) :
    (cs.rename φ).followAll (φ b) (log.map (Prod.map φ id)) = (cs.followAll b log).rename φ := by
  rw [followAll, List.foldl_map]
  exact List.foldl_hom (rename φ) fun cs e => follow_rename φ cs b e.1 e.2

end Columns

/-! ## Candidates -/

namespace Candidates

def rename (φ : Renumbering) (c : Candidates) : Candidates where
  members := c.members.map φ
  sorted := List.pairwise_map.2 (c.sorted.imp fun h => (φ.number_lt_iff).2 h)

variable (φ : Renumbering)

theorem place_map (v : Variable) (ws : List Variable) :
    place (φ v) (ws.map φ) = (place v ws).map φ := by
  induction ws with
  | nil => rfl
  | cons w ws ih =>
    simp only [List.map_cons, place, Renumbering.id_apply, Renumbering.number_lt_iff, ih]
    split
    · rfl
    · split <;> rfl

@[simp] theorem insert_rename (c : Candidates) (v : Variable) :
    (c.rename φ).insert (φ v) = (c.insert v).rename φ :=
  Candidates.ext (place_map φ v c.members)

@[simp] theorem erase_rename (c : Candidates) (v : Variable) :
    (c.rename φ).erase (φ v) = (c.erase v).rename φ := by
  apply Candidates.ext
  have hid (w : Variable) : ((φ w).id != (φ v).id) = (w.id != v.id) := by
    rw [Bool.eq_iff_iff, bne_iff_ne, bne_iff_ne]
    exact not_congr (φ.number_inj)
  simp only [erase, rename, List.filter_map, Function.comp_def, hid]

theorem dropWhile_rename (c : Candidates) {p p' : Variable → Bool} (hp : ∀ v, p' (φ v) = p v) :
    (c.rename φ).dropWhile p' = (c.dropWhile p).rename φ := by
  apply Candidates.ext
  simp [dropWhile, rename, List.dropWhile_map, Function.comp_def, hp]

@[simp] theorem tail_rename (c : Candidates) : (c.rename φ).tail = c.tail.rename φ :=
  Candidates.ext List.map_tail.symm

@[simp] theorem head?_rename (c : Candidates) : (c.rename φ).head? = c.head?.map φ :=
  List.head?_map

end Candidates

end SoftSimplex
