/-!
Tables with an order: a finite map whose keys keep the order in which they arrived. A new key goes
to the end and an old one keeps its place. There are two ways to take a key out: `swapErase` puts
the last entry into the hole, `erase` closes the hole.

The view of a table is `get?`; the module `Table.Lemmas` says what each operation does to it.
-/

namespace SoftSimplex

/-- Entries in order, no key twice. -/
@[ext]
structure Table (κ β : Type) where
  entries : List (κ × β)
  nodup : (entries.map Prod.fst).Nodup
deriving DecidableEq

abbrev Roster (κ : Type) : Type := Table κ Unit

namespace Entries

variable {κ β : Type} [DecidableEq κ]

def find? (k : κ) : List (κ × β) → Option β
  | [] => none
  | e :: es => if e.1 = k then some e.2 else find? k es

/-- Give `k` the value `v`, at its place or at the end. -/
def put (k : κ) (v : β) : List (κ × β) → List (κ × β)
  | [] => [(k, v)]
  | e :: es => if e.1 = k then (k, v) :: es else e :: put k v es

/-- Take `k` out; the last entry takes its place. -/
def swapOut (k : κ) : List (κ × β) → List (κ × β)
  | [] => []
  | e :: es =>
    if e.1 = k then
      match es.getLast? with
      | none => []
      | some l => l :: es.dropLast
    else e :: swapOut k es

theorem keys_put (k : κ) (v : β) (es : List (κ × β)) :
    (put k v es).map Prod.fst =
      if k ∈ es.map Prod.fst then es.map Prod.fst else es.map Prod.fst ++ [k] := by
  induction es with
  | nil => simp [put]
  | cons e es ih =>
    by_cases h : e.1 = k
    · simp [put, h]
    · have h' : ¬ k = e.1 := fun hk => h hk.symm
      simp only [put, h, if_false, List.map_cons, ih, List.mem_cons, h', false_or]
      split <;> simp

/-- Up to order, taking a key out by swapping is dropping its entry. -/
theorem swapOut_perm (k : κ) (es : List (κ × β)) :
    (swapOut k es).Perm (es.eraseP fun e => decide (e.1 = k)) := by
  induction es with
  | nil => exact List.Perm.refl _
  | cons e es ih =>
    by_cases h : e.1 = k
    · simp only [swapOut, h, if_true, decide_true, List.eraseP_cons_of_pos]
      cases hl : es.getLast? with
      | none => simp [List.getLast?_eq_none_iff.1 hl]
      | some l =>
        obtain ⟨init, rfl⟩ := List.getLast?_eq_some_iff.1 hl
        simpa using @List.perm_append_comm _ [l] init
    · simpa [swapOut, h] using ih

end Entries

namespace Table

variable {κ β : Type}

def empty : Table κ β := ⟨[], List.nodup_nil⟩

instance : EmptyCollection (Table κ β) := ⟨empty⟩

instance : Inhabited (Table κ β) := ⟨empty⟩

def keys (t : Table κ β) : List κ := t.entries.map Prod.fst

def size (t : Table κ β) : Nat := t.entries.length

def isEmpty (t : Table κ β) : Bool := t.entries.isEmpty

def mapValues (f : β → β) (t : Table κ β) : Table κ β where
  entries := t.entries.map fun e => (e.1, f e.2)
  nodup := by simpa [Function.comp_def] using t.nodup

def lastKey? (t : Table κ β) : Option κ := t.keys.getLast?

def dropLast (t : Table κ β) : Table κ β :=
  ⟨t.entries.dropLast, t.nodup.sublist ((List.dropLast_sublist _).map Prod.fst)⟩

/-- The entries up to the last one whose key fails `p`. -/
def dropBackWhile (t : Table κ β) (p : κ → Bool) : Table κ β where
  entries := (t.entries.reverse.dropWhile fun e => p e.1).reverse
  nodup := by
    have h : (t.entries.reverse.map Prod.fst).Nodup :=
      ((t.entries.reverse_perm.map Prod.fst).nodup_iff).2 t.nodup
    exact (((List.reverse_perm _).map Prod.fst).nodup_iff).2
      (h.sublist ((List.dropWhile_sublist _).map Prod.fst))

variable [DecidableEq κ]

def get? (t : Table κ β) (k : κ) : Option β := Entries.find? k t.entries

def contains (t : Table κ β) (k : κ) : Bool := decide (k ∈ t.keys)

def insert (t : Table κ β) (k : κ) (v : β) : Table κ β where
  entries := Entries.put k v t.entries
  nodup := by
    rw [Entries.keys_put]
    split
    · exact t.nodup
    · next h =>
      rw [List.nodup_append]
      refine ⟨t.nodup, by simp, fun a ha b hb hab => h ?_⟩
      rw [List.mem_singleton] at hb
      exact hb ▸ hab ▸ ha

def swapErase (t : Table κ β) (k : κ) : Table κ β where
  entries := Entries.swapOut k t.entries
  nodup :=
    (((Entries.swapOut_perm k t.entries).map Prod.fst).nodup_iff).2
      (t.nodup.sublist (List.eraseP_sublist.map Prod.fst))

/-- Take `k` out, the later entries moving up. -/
def erase (t : Table κ β) (k : κ) : Table κ β where
  entries := t.entries.eraseP fun e => decide (e.1 = k)
  nodup := t.nodup.sublist (List.eraseP_sublist.map Prod.fst)

def modify (t : Table κ β) (k : κ) (f : β → β) : Table κ β where
  entries := t.entries.map fun e => (e.1, if e.1 = k then f e.2 else e.2)
  nodup := by simpa [Function.comp_def] using t.nodup

end Table

namespace Roster

variable {κ : Type} [DecidableEq κ]

/-- Add `k` at the end, unless it is a member. -/
def add (r : Roster κ) (k : κ) : Roster κ := r.insert k ()

end Roster

end SoftSimplex
