import SoftSimplex.Table

/-!
Tables through their view. `get?` of every operation, and the keys that it leaves: an update changes
one key and no other, and both ways to take a key out leave the same table but for the order.
-/

namespace SoftSimplex

variable {κ β : Type}

namespace Table

@[simp] theorem keys_empty : (∅ : Table κ β).keys = [] := rfl

theorem nodup_entries (t : Table κ β) : t.entries.Nodup :=
  List.Pairwise.of_map Prod.fst (fun _ _ hne he => hne (congrArg Prod.fst he)) t.nodup

@[simp] theorem keys_mapValues (t : Table κ β) (f : β → β) : (t.mapValues f).keys = t.keys := by
  simp [keys, mapValues, Function.comp_def]

theorem keys_dropLast (t : Table κ β) : t.dropLast.keys = t.keys.dropLast := by
  simp [keys, dropLast, List.map_dropLast]

theorem keys_dropBackWhile (t : Table κ β) (p : κ → Bool) :
    (t.dropBackWhile p).keys = (t.keys.reverse.dropWhile p).reverse := by
  simp [keys, dropBackWhile, List.dropWhile_map, Function.comp_def, ← List.map_reverse]

/-- Dropping from the back loses only keys that satisfy the test. -/
theorem mem_keys_dropBackWhile {t : Table κ β} {p : κ → Bool} {k : κ} (hk : k ∈ t.keys)
    (hp : p k = false) : k ∈ (t.dropBackWhile p).keys := by
  rw [keys_dropBackWhile, List.mem_reverse]
  have hsplit := List.takeWhile_append_dropWhile (p := p) (l := t.keys.reverse)
  have hmem : k ∈ t.keys.reverse.takeWhile p ++ t.keys.reverse.dropWhile p := by
    rw [hsplit]
    exact List.mem_reverse.2 hk
  rcases List.mem_append.1 hmem with h | h
  · have htrue := List.all_eq_true.1 List.all_takeWhile k h
    rw [hp] at htrue
    cases htrue
  · exact h

theorem mem_of_mem_keys_dropBackWhile {t : Table κ β} {p : κ → Bool} {k : κ}
    (hk : k ∈ (t.dropBackWhile p).keys) : k ∈ t.keys := by
  rw [keys_dropBackWhile, List.mem_reverse] at hk
  exact List.mem_reverse.1 ((List.dropWhile_sublist p).mem hk)

/-- The key at which dropping stops fails the test. -/
theorem lastKey?_dropBackWhile {t : Table κ β} {p : κ → Bool} {k : κ}
    (h : (t.dropBackWhile p).lastKey? = some k) : p k = false := by
  rw [lastKey?, keys_dropBackWhile, List.getLast?_reverse] at h
  have hnot := List.head?_dropWhile_not p t.keys.reverse
  rw [h] at hnot
  exact hnot

theorem mem_of_lastKey? {t : Table κ β} {k : κ} (h : t.lastKey? = some k) : k ∈ t.keys :=
  List.mem_of_getLast? h

theorem mem_keys_dropLast {t : Table κ β} {k l : κ} (hl : t.lastKey? = some l) (hk : k ∈ t.keys)
    (hne : k ≠ l) : k ∈ t.dropLast.keys := by
  obtain ⟨init, hinit⟩ := List.getLast?_eq_some_iff.1 hl
  rw [keys_dropLast, hinit, List.dropLast_concat]
  rw [hinit, List.mem_append, List.mem_singleton] at hk
  exact hk.resolve_right hne

end Table

variable [DecidableEq κ]

namespace Entries

/-- In a list without repeated keys, what a key has is what stands beside it. -/
theorem find?_eq_some_iff {es : List (κ × β)} (h : (es.map Prod.fst).Nodup) {k : κ} {v : β} :
    find? k es = some v ↔ (k, v) ∈ es := by
  induction es with
  | nil => simp [find?]
  | cons e es ih =>
    obtain ⟨k', v'⟩ := e
    have hn := List.nodup_cons.1 h
    by_cases hk : k' = k
    · subst hk
      have hout : (k', v) ∉ es := fun hm => hn.1 (List.mem_map.2 ⟨_, hm, rfl⟩)
      simp [find?, hout, eq_comm]
    · simp [find?, hk, Ne.symm hk, ih hn.2]

theorem find?_put (k k' : κ) (v : β) (es : List (κ × β)) :
    find? k' (put k v es) = if k' = k then some v else find? k' es := by
  induction es with
  | nil => simp [put, find?, eq_comm]
  | cons e es ih => by_cases h : e.1 = k <;> by_cases h' : k' = k <;> grind [put, find?]

theorem find?_eraseP (k k' : κ) {es : List (κ × β)} (h : (es.map Prod.fst).Nodup) :
    find? k' (es.eraseP fun e => decide (e.1 = k)) = if k' = k then none else find? k' es := by
  induction es with
  | nil => simp [find?]
  | cons e es ih =>
    have hn := List.nodup_cons.1 h
    by_cases he : e.1 = k
    · have hout : find? k es = none := by
        cases hf : find? k es with
        | none => rfl
        | some v => exact absurd (List.mem_map_of_mem ((find?_eq_some_iff hn.2).1 hf)) (he ▸ hn.1)
      by_cases hk : k' = k
      · simp [he, hk, hout]
      · simp [he, find?, hk, Ne.symm hk]
    · have ih := ih hn.2
      by_cases hk : k' = k
      · subst hk
        simpa [he, find?] using ih
      · simp [he, find?, hk, ih]

theorem eraseP_put {k : κ} {es : List (κ × β)} (h : k ∉ es.map Prod.fst) (v : β) :
    (put k v es).eraseP (fun e => decide (e.1 = k)) = es := by
  induction es with
  | nil => simp [put]
  | cons e es ih =>
    simp only [List.map_cons, List.mem_cons, not_or] at h
    simp [put, Ne.symm h.1, ih h.2]

theorem put_of_not_mem {k : κ} {es : List (κ × β)} (h : k ∉ es.map Prod.fst) (v : β) :
    put k v es = es ++ [(k, v)] := by
  induction es with
  | nil => rfl
  | cons e es ih =>
    simp only [List.map_cons, List.mem_cons, not_or] at h
    simp [put, Ne.symm h.1, ih h.2]

/-- An old key keeps its place. -/
theorem put_middle {k : κ} {es : List (κ × β)} (h : k ∉ es.map Prod.fst) (v w : β)
    (es' : List (κ × β)) : put k v (es ++ (k, w) :: es') = es ++ (k, v) :: es' := by
  induction es with
  | nil => simp [put]
  | cons e es ih =>
    simp only [List.map_cons, List.mem_cons, not_or] at h
    simp [put, Ne.symm h.1, ih h.2]

theorem swapOut_of_not_mem {k : κ} {es : List (κ × β)} (h : k ∉ es.map Prod.fst) :
    swapOut k es = es := by
  induction es with
  | nil => rfl
  | cons e es ih =>
    simp only [List.map_cons, List.mem_cons, not_or] at h
    simp [swapOut, Ne.symm h.1, ih h.2]

end Entries

namespace Table

theorem get?_eq_some_iff {t : Table κ β} {k : κ} {v : β} :
    t.get? k = some v ↔ (k, v) ∈ t.entries :=
  Entries.find?_eq_some_iff t.nodup

theorem mem_keys_iff {t : Table κ β} {k : κ} : k ∈ t.keys ↔ ∃ v, t.get? k = some v := by
  simp [keys, get?_eq_some_iff]

theorem get?_eq_none_iff {t : Table κ β} {k : κ} : t.get? k = none ↔ k ∉ t.keys := by
  rw [mem_keys_iff]
  cases t.get? k <;> simp

theorem contains_iff {t : Table κ β} {k : κ} : t.contains k = true ↔ k ∈ t.keys := by
  simp [contains]

theorem get?_insert (t : Table κ β) (k k' : κ) (v : β) :
    (t.insert k v).get? k' = if k' = k then some v else t.get? k' :=
  Entries.find?_put k k' v t.entries

/-- A new key goes to the end and an old one keeps its place. -/
theorem keys_insert (t : Table κ β) (k : κ) (v : β) :
    (t.insert k v).keys = if k ∈ t.keys then t.keys else t.keys ++ [k] :=
  Entries.keys_put k v t.entries

theorem keys_insert_of_get? {t : Table κ β} {k : κ} {v : β} (h : t.get? k = some v) (w : β) :
    (t.insert k w).keys = t.keys := by
  rw [keys_insert, if_pos (mem_keys_iff.2 ⟨v, h⟩)]

theorem keys_insert_sublist (t : Table κ β) (k : κ) (v : β) :
    (t.insert k v).keys.Sublist (t.keys ++ [k]) := by
  rw [keys_insert]
  split
  · exact List.sublist_append_left _ _
  · exact List.Sublist.refl _

theorem mem_keys_insert {t : Table κ β} {k k' : κ} {v : β} :
    k' ∈ (t.insert k v).keys ↔ k' = k ∨ k' ∈ t.keys := by
  rw [keys_insert]
  split
  · next h => exact ⟨Or.inr, fun hk => hk.elim (· ▸ h) id⟩
  · simp [or_comm]

/-- Two tables with the same entries in some order agree on every key. -/
theorem get?_eq_of_perm {t u : Table κ β} (h : t.entries.Perm u.entries) (k : κ) :
    t.get? k = u.get? k := by
  apply Option.ext
  intro v
  rw [get?_eq_some_iff, get?_eq_some_iff, h.mem_iff]

/-- Two tables that agree on every key have the same entries in some order. -/
theorem perm_of_get?_eq {t u : Table κ β} (h : ∀ k, t.get? k = u.get? k) :
    t.entries.Perm u.entries := by
  rw [List.perm_ext_iff_of_nodup t.nodup_entries u.nodup_entries]
  rintro ⟨k, v⟩
  rw [← get?_eq_some_iff, h, get?_eq_some_iff]

/-- Both ways to take a key out leave the same entries. -/
theorem swapErase_perm_erase (t : Table κ β) (k : κ) :
    (t.swapErase k).entries.Perm (t.erase k).entries :=
  Entries.swapOut_perm k t.entries

theorem get?_erase (t : Table κ β) (k k' : κ) :
    (t.erase k).get? k' = if k' = k then none else t.get? k' :=
  Entries.find?_eraseP k k' t.nodup

theorem get?_swapErase (t : Table κ β) (k k' : κ) :
    (t.swapErase k).get? k' = if k' = k then none else t.get? k' := by
  rw [get?_eq_of_perm (t.swapErase_perm_erase k), get?_erase]

theorem mem_keys_swapErase {t : Table κ β} {k k' : κ} :
    k' ∈ (t.swapErase k).keys ↔ k' ≠ k ∧ k' ∈ t.keys := by
  simp only [mem_keys_iff, get?_swapErase]
  by_cases h : k' = k <;> simp [h]

theorem keys_erase_sublist (t : Table κ β) (k : κ) : (t.erase k).keys.Sublist t.keys :=
  List.eraseP_sublist.map Prod.fst

/-- Taking out what was put in last leaves the table as it was. -/
theorem erase_insert {t : Table κ β} {k : κ} (h : t.get? k = none) (v : β) :
    (t.insert k v).erase k = t := by
  apply Table.ext
  exact Entries.eraseP_put (get?_eq_none_iff.1 h) v

theorem swapErase_of_not_mem {t : Table κ β} {k : κ} (h : k ∉ t.keys) : t.swapErase k = t :=
  Table.ext (Entries.swapOut_of_not_mem h)

theorem get?_modify (t : Table κ β) (k k' : κ) (f : β → β) :
    (t.modify k f).get? k' = if k' = k then (t.get? k').map f else t.get? k' := by
  apply Option.ext
  intro v
  rw [get?_eq_some_iff]
  split
  · next h =>
    subst h
    simp only [modify, List.mem_map, Prod.mk.injEq, Option.map_eq_some_iff, get?_eq_some_iff]
    constructor
    · rintro ⟨e, he, rfl, hv⟩
      exact ⟨e.2, he, by simpa using hv⟩
    · rintro ⟨w, hw, rfl⟩
      exact ⟨(k', w), hw, rfl, by simp⟩
  · next h =>
    simp only [modify, List.mem_map, Prod.mk.injEq, get?_eq_some_iff]
    constructor
    · rintro ⟨e, he, rfl, hv⟩
      rw [if_neg h] at hv
      exact hv ▸ he
    · intro hv
      exact ⟨(k', v), hv, rfl, by simp [h]⟩

theorem get?_mapValues (t : Table κ β) (f : β → β) (k : κ) :
    (t.mapValues f).get? k = (t.get? k).map f := by
  apply Option.ext
  intro v
  simp only [get?_eq_some_iff, Option.map_eq_some_iff, mapValues, List.mem_map, Prod.mk.injEq]
  constructor
  · rintro ⟨e, he, rfl, hv⟩
    exact ⟨e.2, he, hv⟩
  · rintro ⟨w, hw, rfl⟩
    exact ⟨(k, w), hw, rfl, rfl⟩

end Table

namespace Roster

theorem mem_add {r : Roster κ} {k k' : κ} : k' ∈ (r.add k).keys ↔ k' = k ∨ k' ∈ r.keys :=
  Table.mem_keys_insert

end Roster

end SoftSimplex
