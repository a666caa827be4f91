import Mathlib.Data.Finset.Basic
import Mathlib.Data.Finset.Dedup
import SoftSimplex.LinearForm.Lemmas
import SoftSimplex.Scalar.Exact

/-!
# Reports of changes

An operation on a form reports what it does to the terms, and whoever keeps an index in step with
the form sees these reports and nothing else. `Reports log f g` says that this is enough: the log,
replayed on the variables of `f`, gives the variables of `g`, and no entry of it says that a
variable came that was there, or that one went or stayed that was not. One term is one step, and
runs are chains of steps. No law of arithmetic is used anywhere in this module.
-/

namespace SoftSimplex

namespace Change

def apply (vs : Finset Variable) (v : Variable) : Change → Finset Variable
  | .added => insert v vs
  | .removed => vs.erase v
  | .updated | .unchanged => vs

/-- Whether the change can happen to `v` while there are `vs`. -/
def Fits (vs : Finset Variable) (v : Variable) : Change → Prop
  | .added | .unchanged => v ∉ vs
  | .updated | .removed => v ∈ vs

def replay (vs : Finset Variable) (log : List (Variable × Change)) : Finset Variable :=
  log.foldl (fun vs e => e.2.apply vs e.1) vs

theorem replay_cons (vs : Finset Variable) (e : Variable × Change)
    (log : List (Variable × Change)) : replay vs (e :: log) = replay (e.2.apply vs e.1) log := rfl

theorem mem_apply_of_ne {vs : Finset Variable} {v w : Variable} (h : w ≠ v) (d : Change) :
    w ∈ d.apply vs v ↔ w ∈ vs := by
  cases d with
  | added => simp [apply, h]
  | removed => simp [apply, h]
  | updated => rfl
  | unchanged => rfl

end Change

namespace LinearForm

variable {α : Type} {f g k : LinearForm α} {e : Variable × Change}
variable {log : List (Variable × Change)}

def varSet (f : LinearForm α) : Finset Variable := f.vars.toFinset

@[simp] theorem mem_varSet {v : Variable} : v ∈ f.varSet ↔ v ∈ f.vars := List.mem_toFinset

/-- What a log has to be for an index to follow it from `f` to `g`. -/
structure Reports (log : List (Variable × Change)) (f g : LinearForm α) : Prop where
  /-- Replaying the log gives the new variables. -/
  replay_eq : Change.replay f.varSet log = g.varSet
  /-- Every entry is right about whether its variable is there at that moment. -/
  fits : ∀ before e after, log = before ++ e :: after →
    e.2.Fits (Change.replay f.varSet before) e.1

theorem Reports.nil (f : LinearForm α) : Reports [] f f where
  replay_eq := rfl
  fits before e after h := by simp at h

/-- One entry, then the others. -/
theorem Reports.cons (hfits : e.2.Fits f.varSet e.1) (happly : e.2.apply f.varSet e.1 = g.varSet)
    (h : Reports log g k) : Reports (e :: log) f k where
  replay_eq := by rw [Change.replay_cons, happly, h.replay_eq]
  fits before d after hlog := by
    cases before with
    | nil =>
      cases hlog
      exact hfits
    | cons b before =>
      cases hlog
      rw [Change.replay_cons, happly]
      exact h.fits before d after rfl

theorem Reports.erase {v : Variable} (hv : v ∈ f.vars) (h : Reports log (f.erase v) k) :
    Reports ((v, .removed) :: log) f k := by
  refine h.cons (mem_varSet.2 hv) ?_
  ext w
  simp [Change.apply, mem_vars_erase]

variable [Scalar α]

/-! ## One term -/

theorem changeAt_fits (f : LinearForm α) (v : Variable) (c : α) :
    (f.changeAt v c).Fits f.varSet v := by
  unfold changeAt
  cases hf : f.terms.get? v with
  | some old =>
    have hv : v ∈ f.varSet := mem_varSet.2 (mem_vars_iff.2 ⟨old, hf⟩)
    simp only
    split
    · exact hv
    · exact hv
  | none =>
    have hv : v ∉ f.varSet := fun hmem => Table.get?_eq_none_iff.1 hf (mem_varSet.1 hmem)
    simp only
    split
    · exact hv
    · exact hv

theorem apply_changeAt (f : LinearForm α) (v : Variable) (c : α) :
    (f.changeAt v c).apply f.varSet v = (f.addTerm v c).varSet := by
  have hadded := changeAt_eq_added_iff f v c
  have hremoved := changeAt_eq_removed_iff f v c
  ext w
  by_cases hw : w = v
  · subst hw
    cases hd : f.changeAt w c with
    | added => simp [Change.apply, (hadded.1 hd).2]
    | removed => simp [Change.apply, (hremoved.1 hd).2]
    | updated | unchanged =>
      simp only [hd, reduceCtorEq, false_iff, not_and, not_not] at hadded hremoved
      rw [Change.apply, mem_varSet, mem_varSet]
      exact ⟨hremoved, fun hmem => Decidable.not_not.1 fun hout => hadded hout hmem⟩
  · rw [Change.mem_apply_of_ne hw, mem_varSet, mem_varSet, mem_vars_addTerm_of_ne hw]

/-! ## Runs -/

theorem Reports.addTerms (f : LinearForm α) (ts : List (Variable × α)) :
    Reports (f.changes ts) f (f.addTerms ts) := by
  induction ts generalizing f with
  | nil => exact .nil f
  | cons t ts ih =>
    exact (ih (f.addTerm t.1 t.2)).cons (f.changeAt_fits t.1 t.2) (f.apply_changeAt t.1 t.2)

/-- The constant is added first and is no part of any report. -/
theorem Reports.addScaled (f g : LinearForm α) (m : α) :
    Reports (f.addScaledChanges g m) f (f.addScaled g m) :=
  have h := Reports.addTerms (f.shift (g.constant * m)) (g.scaledTerms m)
  ⟨h.replay_eq, h.fits⟩

theorem substituteChanges_of_mem {v : Variable} (hv : v ∈ f.vars) (g : LinearForm α) :
    f.substituteChanges v g = (v, .removed) :: (f.erase v).addScaledChanges g (f.coeff v) := by
  unfold substituteChanges
  rw [get?_of_mem hv]

theorem substituteChanges_of_not_mem {v : Variable} (hv : v ∉ f.vars) (g : LinearForm α) :
    f.substituteChanges v g = [] := by
  unfold substituteChanges
  rw [Table.get?_eq_none_iff.2 hv]

theorem Reports.substitute (f : LinearForm α) (v : Variable) (g : LinearForm α) :
    Reports (f.substituteChanges v g) f (f.substitute v g) := by
  by_cases hv : v ∈ f.vars
  · rw [substituteChanges_of_mem hv, substitute_of_mem hv]
    exact (Reports.addScaled _ _ _).erase hv
  · rw [substituteChanges_of_not_mem hv, substitute_of_not_mem hv]
    exact .nil f

/-! ## Which variables are reported -/

theorem map_fst_changes (f : LinearForm α) (ts : List (Variable × α)) :
    (f.changes ts).map Prod.fst = ts.map Prod.fst := by
  induction ts generalizing f with
  | nil => rfl
  | cons t ts ih => rw [changes, List.map_cons, List.map_cons, ih]

theorem map_fst_addScaledChanges (f g : LinearForm α) (m : α) :
    (f.addScaledChanges g m).map Prod.fst = g.vars := by
  rw [addScaledChanges, map_fst_changes, map_fst_scaledTerms]

/-- Whatever the arithmetic does, adding a multiple of `g` reports once about each variable of `g`,
in their order, and replacing `v` by `g` first that `v` went, even if `g` brings it back. In both
cases the log, replayed on the old variables, gives the new ones, and each entry is right about
whether its variable is there at that moment. Where `v` is absent nothing is reported, and nothing
changes. -/
theorem reports_complete (f g : LinearForm α) (m : α) (v : Variable) :
    (Reports (f.addScaledChanges g m) f (f.addScaled g m) ∧
      (f.addScaledChanges g m).map Prod.fst = g.vars) ∧
    Reports (f.substituteChanges v g) f (f.substitute v g) ∧
    (v ∈ f.vars → ∃ log, f.substituteChanges v g = (v, .removed) :: log ∧
      log.map Prod.fst = g.vars) ∧
    (v ∉ f.vars → f.substituteChanges v g = [] ∧ f.substitute v g = f) :=
  ⟨⟨.addScaled f g m, map_fst_addScaledChanges f g m⟩, .substitute f v g,
    fun hv => ⟨_, substituteChanges_of_mem hv g, map_fst_addScaledChanges _ _ _⟩,
    fun hv => ⟨substituteChanges_of_not_mem hv g, substitute_of_not_mem hv⟩⟩

/-- A thousandth of `x` is replaced by a form that mentions `x`. It goes and comes back, `y` cancels
out, `z` stays, `w` is new, and what there would be of `u` is too little to be kept. -/
theorem reports_of_own_mention :
    ∃ (f g : LinearForm Coarse) (x u : Variable) (log : List (Variable × Change)),
      x ∈ f.vars ∧ x ∈ g.vars ∧ u ∉ f.vars ∧
      f.substituteChanges x g = (x, .removed) :: log ∧ log.map Prod.fst = g.vars ∧
      log.map Prod.snd = [.added, .removed, .updated, .added, .unchanged] ∧
      Reports (f.substituteChanges x g) f (f.substitute x g) ∧ f.substituteChanges u g = [] := by
  let x : Variable := ⟨0, .free⟩
  let y : Variable := ⟨1, .free⟩
  let z : Variable := ⟨2, .free⟩
  let w : Variable := ⟨3, .free⟩
  let u : Variable := ⟨4, .free⟩
  let little : Coarse := .ofRat (1 / 1000)
  let f : LinearForm Coarse := (const 1).addTerms [(x, little), (y, little), (z, 1)]
  let g : LinearForm Coarse :=
    (const 1).addTerms [(x, 1), (y, -1), (z, 1), (w, 1), (u, .ofRat (1 / 1000000))]
  have hx : x ∈ f.vars := by decide +kernel
  have hu : u ∉ f.vars := by decide +kernel
  obtain ⟨-, hreports, hpresent, -⟩ := reports_complete f g 1 x
  obtain ⟨log, hlog, hvars⟩ := hpresent hx
  obtain ⟨-, -, -, habsent⟩ := reports_complete f g 1 u
  have hchanges : (f.substituteChanges x g).tail.map Prod.snd =
      [.added, .removed, .updated, .added, .unchanged] := by decide +kernel
  rw [hlog] at hchanges
  exact ⟨f, g, x, u, log, hx, by decide +kernel, hu, hlog, hvars, hchanges, hreports,
    (habsent hu).1⟩

end LinearForm

end SoftSimplex
