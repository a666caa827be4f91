import SoftSimplex.LinearForm.Formula
import SoftSimplex.Table.Lemmas

/-!
What the operations on linear forms do to the terms, whatever the arithmetic: an operation touches
the coefficients it names and no other, and no variable comes in that was not in one of its parts.
-/

namespace SoftSimplex

namespace LinearForm

variable {α : Type}

theorem mem_vars_iff {f : LinearForm α} {v : Variable} :
    v ∈ f.vars ↔ ∃ c, f.terms.get? v = some c :=
  Table.mem_keys_iff

theorem contains_iff {f : LinearForm α} {v : Variable} : f.contains v = true ↔ v ∈ f.vars :=
  Table.contains_iff

@[simp] theorem vars_const (k : α) : (const k).vars = [] := rfl

theorem get?_erase (f : LinearForm α) (v w : Variable) :
    (f.erase v).terms.get? w = if w = v then none else f.terms.get? w :=
  Table.get?_swapErase f.terms v w

theorem mem_vars_erase {f : LinearForm α} {v w : Variable} :
    w ∈ (f.erase v).vars ↔ w ≠ v ∧ w ∈ f.vars :=
  Table.mem_keys_swapErase

variable [Scalar α]

theorem coeff_of_get? {f : LinearForm α} {v : Variable} {c : α}
    (h : f.terms.get? v = some c) : f.coeff v = c := by
  unfold coeff
  rw [h]
  rfl

theorem get?_of_mem {f : LinearForm α} {v : Variable} (h : v ∈ f.vars) :
    f.terms.get? v = some (f.coeff v) := by
  obtain ⟨c, hc⟩ := mem_vars_iff.1 h
  rw [hc, coeff_of_get? hc]

theorem coeff_eq (f : LinearForm α) (v : Variable) : f.coeff v = (f.terms.get? v).getD 0 := rfl

theorem coeff_of_not_mem {f : LinearForm α} {v : Variable} (h : v ∉ f.vars) : f.coeff v = 0 := by
  rw [coeff_eq, Table.get?_eq_none_iff.2 h]
  rfl

theorem mem_vars_of_coeff {f : LinearForm α} {v : Variable} (h : f.coeff v ≠ 0) : v ∈ f.vars :=
  Decidable.byContradiction fun hv => h (coeff_of_not_mem hv)

theorem coeff_of_entry {f : LinearForm α} {e : Variable × α} (he : e ∈ f.terms.entries) :
    f.coeff e.1 = e.2 :=
  coeff_of_get? (Table.get?_eq_some_iff.2 he)

omit [Scalar α] in
theorem mem_vars_of_entry {f : LinearForm α} {e : Variable × α} (he : e ∈ f.terms.entries) :
    e.1 ∈ f.vars :=
  List.mem_map_of_mem he

theorem entry_of_mem_vars {f : LinearForm α} {v : Variable} (hv : v ∈ f.vars) :
    (v, f.coeff v) ∈ f.terms.entries :=
  Table.get?_eq_some_iff.1 (get?_of_mem hv)

@[simp] theorem vars_shift (f : LinearForm α) (k : α) : (f.shift k).vars = f.vars := rfl

@[simp] theorem vars_scale (f : LinearForm α) (k : α) : (f.scale k).vars = f.vars :=
  Table.keys_mapValues f.terms (· * k)

theorem get?_scale (f : LinearForm α) (k : α) (v : Variable) :
    (f.scale k).terms.get? v = (f.terms.get? v).map (· * k) :=
  Table.get?_mapValues f.terms (· * k) v

/-- Adding to one coefficient leaves the others. -/
theorem get?_addTerm_of_ne (f : LinearForm α) {v w : Variable} (h : w ≠ v) (c : α) :
    (f.addTerm v c).terms.get? w = f.terms.get? w := by
  unfold addTerm
  split
  · split
    · rw [get?_erase, if_neg h]
    · rw [Table.get?_insert, if_neg h]
  · split
    · rfl
    · rw [Table.get?_insert, if_neg h]

/-- A term that is not negligible comes to be where there was none. -/
theorem get?_addTerm_of_not_mem {f : LinearForm α} {v : Variable} {c : α} (hv : v ∉ f.vars)
    (hc : Scalar.negligible c = false) : (f.addTerm v c).terms.get? v = some c := by
  unfold addTerm
  rw [Table.get?_eq_none_iff.2 hv]
  simp only [hc, Bool.false_eq_true, if_false]
  rw [Table.get?_insert, if_pos rfl]

/-- What is stored once a term was added was stored before or is not negligible. -/
theorem get?_addTerm_eq_some {f : LinearForm α} {v w : Variable} {c d : α}
    (h : (f.addTerm v c).terms.get? w = some d) :
    f.terms.get? w = some d ∨ w = v ∧ Scalar.negligible d = false := by
  by_cases hw : w = v
  · subst hw
    unfold addTerm at h
    split at h
    · split at h
      · rw [get?_erase, if_pos rfl] at h
        cases h
      · next hn =>
        rw [Table.get?_insert, if_pos rfl, Option.some.injEq] at h
        exact .inr ⟨rfl, h ▸ Bool.eq_false_iff.2 hn⟩
    · split at h
      · exact .inl h
      · next hn =>
        rw [Table.get?_insert, if_pos rfl, Option.some.injEq] at h
        exact .inr ⟨rfl, h ▸ Bool.eq_false_iff.2 hn⟩
  · rw [get?_addTerm_of_ne f hw] at h
    exact .inl h

theorem mem_vars_addTerm_of_ne {f : LinearForm α} {c : α} {v w : Variable} (hne : w ≠ v) :
    w ∈ (f.addTerm v c).vars ↔ w ∈ f.vars := by
  rw [mem_vars_iff, get?_addTerm_of_ne f hne, ← mem_vars_iff]

@[simp] theorem constant_addTerm (f : LinearForm α) (v : Variable) (c : α) :
    (f.addTerm v c).constant = f.constant := by
  unfold addTerm
  split
  · split <;> rfl
  · split <;> rfl

/-- Adding a term brings in no other variable. -/
theorem mem_vars_addTerm {f : LinearForm α} {v w : Variable} {c : α}
    (h : w ∈ (f.addTerm v c).vars) : w = v ∨ w ∈ f.vars := by
  by_cases hw : w = v
  · exact .inl hw
  · rw [mem_vars_iff, get?_addTerm_of_ne f hw, ← mem_vars_iff] at h
    exact .inr h

theorem mem_vars_addTerms {f : LinearForm α} {ts : List (Variable × α)} {w : Variable}
    (h : w ∈ (f.addTerms ts).vars) : w ∈ ts.map Prod.fst ∨ w ∈ f.vars := by
  induction ts generalizing f with
  | nil => exact .inr h
  | cons t ts ih =>
    rcases ih h with h | h
    · exact .inl (List.mem_cons_of_mem _ h)
    · rcases mem_vars_addTerm h with rfl | h
      · exact .inl List.mem_cons_self
      · exact .inr h

@[simp] theorem map_fst_scaledTerms (f : LinearForm α) (m : α) :
    (f.scaledTerms m).map Prod.fst = f.vars := by
  simp [scaledTerms, vars, Table.keys, Function.comp_def]

theorem mem_vars_addScaled {f g : LinearForm α} {m : α} {w : Variable}
    (h : w ∈ (f.addScaled g m).vars) : w ∈ g.vars ∨ w ∈ f.vars := by
  simpa using mem_vars_addTerms h

/-- The form that a variable was solved for does not mention it. -/
theorem not_mem_vars_isolate (f : LinearForm α) (v : Variable) : v ∉ (f.isolate v).vars := by
  unfold isolate
  split
  · simp [mem_vars_erase]
  · next h =>
    rw [mem_vars_iff, h]
    simp

theorem substitute_of_not_mem {f g : LinearForm α} {v : Variable} (h : v ∉ f.vars) :
    f.substitute v g = f := by
  unfold substitute
  rw [Table.get?_eq_none_iff.2 h]

theorem substitute_of_mem {f : LinearForm α} {v : Variable} (hv : v ∈ f.vars)
    (g : LinearForm α) : f.substitute v g = (f.erase v).addScaled g (f.coeff v) := by
  unfold substitute
  rw [get?_of_mem hv]

theorem constant_addTerms (f : LinearForm α) (ts : List (Variable × α)) :
    (f.addTerms ts).constant = f.constant := by
  induction ts generalizing f with
  | nil => rfl
  | cons t ts ih => rw [addTerms, ih, constant_addTerm]

@[simp] theorem constant_addScaled (f g : LinearForm α) (m : α) :
    (f.addScaled g m).constant = f.constant + g.constant * m :=
  constant_addTerms _ _

/-- The constant of a form that was solved for a variable of it. -/
theorem constant_isolate {f : LinearForm α} {v : Variable} (hv : v ∈ f.vars) :
    (f.isolate v).constant = f.constant * (-1 / f.coeff v) := by
  unfold isolate
  rw [get?_of_mem hv]
  rfl

/-- The constant of a form in which a variable of it was replaced. -/
theorem constant_substitute_of_mem {f : LinearForm α} {v : Variable} (hv : v ∈ f.vars)
    (g : LinearForm α) :
    (f.substitute v g).constant = f.constant + g.constant * f.coeff v := by
  rw [substitute_of_mem hv]
  exact constant_addScaled _ _ _

/-- The constant of a row that is solved for another of its variables. -/
theorem constant_exchange_eq {f : LinearForm α} {old new : Variable} (hne : new ≠ old)
    (h : new ∈ f.vars) : (f.exchange old new).constant = f.constant * (-1 / f.coeff new) := by
  unfold exchange
  rw [constant_isolate ((mem_vars_addTerm_of_ne hne).2 h), constant_addTerm, coeff_eq,
    get?_addTerm_of_ne f hne, ← coeff_eq]

/-! ## Stored coefficients -/

def Stores (P : α → Prop) (f : LinearForm α) : Prop := ∀ v c, f.terms.get? v = some c → P c

omit [Scalar α] in
theorem stores_const (P : α → Prop) (k : α) : (const k).Stores P := by
  intro v c hc
  cases hc

section Stores

variable {P : α → Prop} {f : LinearForm α}

theorem Stores.coeff (h : f.Stores P) {v : Variable} (hv : v ∈ f.vars) : P (f.coeff v) :=
  h v _ (get?_of_mem hv)

omit [Scalar α] in
theorem Stores.erase (h : f.Stores P) (v : Variable) : (f.erase v).Stores P := by
  intro w c hc
  rw [get?_erase] at hc
  split at hc
  · cases hc
  · exact h w c hc

theorem Stores.scale (h : f.Stores P) {k : α} (hk : ∀ c, P c → P (c * k)) :
    (f.scale k).Stores P := by
  intro w c hc
  rw [get?_scale, Option.map_eq_some_iff] at hc
  obtain ⟨d, hd, rfl⟩ := hc
  exact hk d (h w d hd)

theorem Stores.isolate (h : f.Stores P) {v : Variable}
    (hv : v ∈ f.vars → ((f.erase v).scale (-1 / f.coeff v)).Stores P) :
    (f.isolate v).Stores P := by
  unfold LinearForm.isolate
  cases hf : f.terms.get? v with
  | some c => exact coeff_of_get? hf ▸ hv (mem_vars_iff.2 ⟨c, hf⟩)
  | none => exact h

variable (hP : ∀ {c : α}, Scalar.negligible c = false → P c)
include hP

/-- A sum is stored only if it is not negligible. -/
theorem Stores.addTerm (h : f.Stores P) (v : Variable) (c : α) : (f.addTerm v c).Stores P := by
  intro w d hd
  rcases get?_addTerm_eq_some hd with hold | ⟨-, hkept⟩
  · exact h w d hold
  · exact hP hkept

theorem Stores.addTerms (h : f.Stores P) (ts : List (Variable × α)) :
    (f.addTerms ts).Stores P := by
  induction ts generalizing f with
  | nil => exact h
  | cons t ts ih => exact ih (h.addTerm hP t.1 t.2)

theorem Stores.addScaled (h : f.Stores P) (g : LinearForm α) (m : α) :
    (f.addScaled g m).Stores P :=
  Stores.addTerms (f := f.shift (g.constant * m)) hP h _

theorem Stores.substitute (h : f.Stores P) (v : Variable) (g : LinearForm α) :
    (f.substitute v g).Stores P := by
  by_cases hv : v ∈ f.vars
  · rw [substitute_of_mem hv]
    exact (h.erase v).addScaled hP g _
  · rwa [substitute_of_not_mem hv]

end Stores

/-! ## Reported changes -/

/-- A change that is reported is one that happened. -/
theorem changeAt_eq_added_iff (f : LinearForm α) (v : Variable) (c : α) :
    f.changeAt v c = .added ↔ v ∉ f.vars ∧ v ∈ (f.addTerm v c).vars := by
  unfold changeAt addTerm
  cases hf : f.terms.get? v with
  | some old =>
    have : v ∈ f.vars := mem_vars_iff.2 ⟨old, hf⟩
    by_cases hn : Scalar.negligible (old + c) = true <;> simp [hn, this]
  | none =>
    have hv : v ∉ f.vars := by simp [mem_vars_iff, hf]
    by_cases hn : Scalar.negligible c = true
    · simp [hn, hv]
    · have hk : v ∉ f.terms.keys := hv
      simp [hn, vars, Table.mem_keys_insert, hk]

theorem changeAt_eq_removed_iff (f : LinearForm α) (v : Variable) (c : α) :
    f.changeAt v c = .removed ↔ v ∈ f.vars ∧ v ∉ (f.addTerm v c).vars := by
  unfold changeAt addTerm
  cases hf : f.terms.get? v with
  | some old =>
    have hv : v ∈ f.vars := mem_vars_iff.2 ⟨old, hf⟩
    by_cases hn : Scalar.negligible (old + c) = true
    · simp [hn, hv, mem_vars_erase]
    · simp [hn, vars, Table.mem_keys_insert]
  | none =>
    have hv : v ∉ f.vars := by simp [mem_vars_iff, hf]
    by_cases hn : Scalar.negligible c = true <;> simp [hn, hv]

end LinearForm

end SoftSimplex
