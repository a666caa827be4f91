import SoftSimplex.Proofs.Boundedness
import SoftSimplex.Proofs.Exchanges
import SoftSimplex.Proofs.Refusal

/-!
# A refused constraint leaves no trace

By the time a constraint is refused it is in the books, an artificial variable has its equation for
a row, and the first phase has made any number of exchanges. None of them is undone. It is enough to
drop the artificial variable and take the constraint out, like any other: what remains has the old
solutions, with the old objective on them, and knows no variable that was drawn since. Minimising on
top of that changes the basis only.
-/

namespace SoftSimplex

open LinearForm

namespace Tableau

variable {V : Variable → Prop} {t t' t'' : Tableau Rat} {v : Variable}

/-! ## The same up to new variables -/

/-- Every solution of `t'` becomes one of `t` with other values outside `V`, and the objectives are
the same there. -/
def Recalls (V : Variable → Prop) (t t' : Tableau Rat) : Prop :=
  ∀ σ, t'.Solves σ →
    ∃ τ, t.Solves τ ∧ (∀ v, V v → τ v = σ v) ∧ t'.objective.eval σ = t.objective.eval τ

theorem Recalls.trans (h₁ : Recalls V t t') (h₂ : Recalls V t' t'') : Recalls V t t'' := by
  intro σ hσ
  obtain ⟨τ', hτ', hsame', hobj'⟩ := h₂ σ hσ
  obtain ⟨τ, hτ, hsame, hobj⟩ := h₁ τ' hτ'
  exact ⟨τ, hτ, fun v hv => (hsame v hv).trans (hsame' v hv), hobj'.trans hobj⟩

theorem Recast.recalls (h : t'.Recast t) : Recalls V t t' := by
  intro σ hσ
  have hσ := (h.solves σ).1 hσ
  exact ⟨σ, hσ, fun _ _ => rfl, h.objective σ hσ⟩

theorem recalls_of_frame (hrow : ∀ b, t'.row? b = t.row? b) (hobj : t'.objective = t.objective) :
    Recalls V t t' :=
  fun σ hσ => ⟨σ, (solves_congr hrow).1 hσ, fun _ _ => rfl, by rw [hobj]⟩

theorem recalls_insertRow (hv : t.row? v = none) (f : LinearForm Rat) :
    Recalls V t (t.insertRow v f) :=
  fun σ hσ => ⟨σ, ((solves_insertRow hv).1 hσ).1, fun _ _ => rfl, rfl⟩

theorem update_agree (hv : ¬V v) (σ : Assignment Rat) (k : Rat) :
    ∀ w, V w → Function.update σ v k w = σ w := by
  intro w hw
  apply Function.update_of_ne
  rintro rfl
  exact hv hw

theorem WellFormed.recalls_removeRow (h : t.WellFormed) (hv : ¬V v) :
    Recalls V t (t.removeRow v) := by
  cases hrow : t.row? v with
  | none =>
    rw [removeRow_of_nonbasic hrow]
    exact recalls_of_frame (fun _ => rfl) rfl
  | some f =>
    intro σ hσ
    obtain ⟨k, hk⟩ := (h.solves_removeRow hrow).1 hσ
    have hout : v ∉ t.objective.vars := by
      intro hm
      rw [h.objective_open hm] at hrow
      cases hrow
    refine ⟨_, hk, update_agree hv σ k, ?_⟩
    rw [objective_removeRow, eval_update_of_not_mem hout]

theorem Indexed.recalls_removeColumn (h : t.Indexed) (hrow : t.row? v = none) (hv : ¬V v) :
    Recalls V t (t.removeColumn v) := by
  intro σ hσ
  refine ⟨_, (h.solves_removeColumn hrow).1 hσ, update_agree hv σ 0, ?_⟩
  have hobj : (t.removeColumn v).objective = t.objective.erase v := rfl
  rw [hobj, eval_erase, eval_update]
  ring

theorem WellFormed.recalls_discard (h : t.WellFormed) (hv : ¬V v) : Recalls V t (t.discard v) :=
  (h.recalls_removeRow hv).trans
    ((h.removeRow v).indexed.recalls_removeColumn (row?_removeRow_self t v) hv)

/-- No part of a tableau mentions a variable that is absent. -/
theorem Tidy.silent (h : t.Tidy V) (hv : t.Absent v) :
    t.row? v = none ∧ (∀ b f, t.row? b = some f → v ∉ f.vars) ∧ t.columns.get? v = none ∧
      (∀ w, v ∉ t.column w) ∧ v ∉ t.objective.vars ∧ v ∉ t.candidates.members ∧
      v ∉ t.queue.keys := by
  refine ⟨hv.nonbasic, fun b f hf => hv.rows hf, h.wellFormed.indexed.no_column hv.rows,
    fun w hm => ?_, hv.objective, fun hm => ?_, fun hm => ?_⟩
  · obtain ⟨f, hf, -⟩ := h.wellFormed.indexed.mem_column.1 hm
    rw [hv.nonbasic] at hf
    cases hf
  · have hp := (h.scouted v).1 hm
    unfold profitable at hp
    rw [Bool.and_eq_true, Option.any_eq_true] at hp
    obtain ⟨-, k, hk, -⟩ := hp
    exact hv.objective (mem_vars_iff.2 ⟨k, hk⟩)
  · obtain ⟨-, f, hf⟩ := h.wellFormed.queued hm
    rw [hv.nonbasic] at hf
    cases hf

/-- A tableau that mentions no variable outside `V` is recalled without any change of values. -/
theorem Over.objective_of_recalls (h : t.Over V) (hr : Recalls V t t') {σ : Assignment Rat}
    (hσ : t'.Solves σ) : t'.objective.eval σ = t.objective.eval σ := by
  obtain ⟨τ, -, hsame, hobj⟩ := hr σ hσ
  rw [hobj]
  exact eval_congr _ _ fun v hv => hsame v (h.objective v hv)

end Tableau

namespace Solver

variable {V W : Variable → Prop} {vs : List Variable} {s : Solver Rat} {id : ConstraintId}
variable {r : Record Rat} {f : LinearForm Rat} {n : Nat}

/-- To write a constraint in and strike it out again changes no record and no marker. -/
theorem Books.strike_prepare (h : Books V vs s) (c : Constraint Rat) (supply : Supply)
    (t : Tableau Rat) :
    ({ (s.prepare c).1.strike ⟨s.nextId⟩ ⟨(Auxiliaries.draw s.supply c).1, c⟩ with
        supply := supply, tableau := t } : Solver Rat) =
      { s with supply := supply, tableau := t, nextId := s.nextId + 1 } := by
  obtain ⟨-, hnew⟩ := h.issued.draw c
  set m := (Auxiliaries.draw s.supply c).1.marker with hm
  have hmarker : s.markers.get? m = none := by
    cases hi : s.markers.get? m with
    | none => rfl
    | some i =>
      obtain ⟨q, hq, heq⟩ := h.marked.1 hi
      exact absurd (heq ▸ h.own hq _ q.marker_mem_own) (hnew m List.mem_cons_self)
  exact Solver.ext rfl rfl rfl (Table.erase_insert h.unnamed _) (Table.erase_insert hmarker _) rfl

/-- Taking out a constraint that costs nothing. -/
theorem Upheld.recalls_retract (h : s.Upheld V vs) (ht : s.tableau.Trim)
    (hr : s.record? id = some r) (he : r.errors = []) (hm : ¬W r.marker) :
    Tableau.Recalls W s.tableau (s.retract id).solver.tableau := by
  have hstrike : (s.strike id r).tableau = s.tableau := by
    unfold Solver.strike
    rw [he]
    rfl
  have hcall := retractCall?_eq hr
  unfold Solver.retract
  simp only [hr]
  cases hexit : (s.strike id r).exitFor? r.marker with
  | none =>
    simp only
    rw [hstrike]
    exact h.orderly.wellFormed.recalls_removeRow hm
  | some exit =>
    rw [hexit] at hcall
    obtain ⟨-, t, -, -, hex, -⟩ := h.granted_retractCall? hcall
    simp only [hex]
    rw [hstrike] at hex
    have hrecast := h.orderly.wellFormed.recast_exchange ht hex
    have hafter := h.orderly.exchange h.books.issued.numbered hex
    exact hrecast.recalls.trans (hafter.wellFormed.recalls_removeRow hm)

theorem Pending.upheld (h : s.Pending V vs id r f) : s.Upheld V vs :=
  ⟨h.books, h.stands.tidy.orderly, h.stands.freeApart⟩

/-- A first phase that is called off. -/
theorem Pending.recalls_rollBack (h : s.Pending V vs id r f) (hx : s.subject? f = none)
    {p : Pass Rat} (hp : (s.beginFirstPhase f).tableau.minimizeArtificial n = some p)
    (he : r.errors = []) (hm : ¬W r.marker) (ha : ¬W (s.supply.next .slack))
    (news : List (Event Rat)) (e : Failure) :
    Tableau.Recalls W s.tableau
      (({ s.beginFirstPhase f with tableau := p.tableau.endFirstPhase } : Solver Rat).rollBack id
        (s.supply.next .slack) news e).solver.tableau := by
  have habsent := h.stands.tidy.within.absent (h.books.issued.fresh .slack)
  obtain ⟨htidy, -⟩ := h.beginFirstPhase
  have hmeets := htidy.minimizeArtificial_meets (h.books.issued.next .slack).numbered hp
  have hk : Tableau.Keeps (fun w => V w ∨ w = s.supply.next .slack)
      (s.beginFirstPhase f).tableau p.tableau :=
    hmeets.tableau (fun _ hu => hu.1.toKeeps) fun _ _ hu => hu.1.toKeeps
  have hopen := h.opened hx hk
  have hend : ({ s.beginFirstPhase f with tableau := p.tableau.endFirstPhase } : Solver Rat).Upheld
      (fun w => V w ∨ w = s.supply.next .slack) vs :=
    (h.upheld.beginFirstPhase h.vars hx).endFirstPhase hp
  have hdiscard := hend.discard (a := s.supply.next .slack) (.inr rfl)
  have htrim := (hopen.tidy.trim.removeRow (s.supply.next .slack)).removeColumn
    (hopen.tidy.wellFormed.removeRow _).indexed (s.supply.next .slack)
  -- in, down, and out again
  have hbegin : Tableau.Recalls W s.tableau (s.beginFirstPhase f).tableau :=
    Tableau.recalls_insertRow habsent.nonbasic f
  have hphase : Tableau.Recalls W s.tableau p.tableau.endFirstPhase :=
    (hbegin.trans hk.recast.recalls).trans (Tableau.recalls_of_frame (fun _ => rfl) rfl)
  have hgone := hphase.trans (hopen.tidy.wellFormed.recalls_discard ha)
  rw [solver_of_rollBack]
  exact hgone.trans (hdiscard.recalls_retract htrim h.record he hm)

/-- An equation that could not be brought in was in a first phase that was called off. -/
theorem bringIn_rolledBack {o : Outcome Rat Unit} (ho : s.bringIn n id f = some o) {e : Failure}
    (he : o.answer = .error e) :
    s.subject? f = none ∧
      ∃ p news e', (s.beginFirstPhase f).tableau.minimizeArtificial n = some p ∧
        o.solver = (({ s.beginFirstPhase f with tableau := p.tableau.endFirstPhase } :
          Solver Rat).rollBack id (s.supply.next .slack) news e').solver := by
  rcases bringIn_cases ho with ⟨v, -, rfl⟩ | ⟨hx, p, hp, hsolver, hanswer⟩
  · cases he
  · rcases concludeFirstPhase_cases (s.beginFirstPhase f) id (s.supply.next .slack) p with
      hend | ⟨news, e', hend⟩
    · rw [hend, (dismiss_ok _ id _).1] at hanswer
      rw [hanswer] at he
      cases he
    · rw [hend] at hsolver
      exact ⟨hx, p, news, e', hp, hsolver⟩

theorem rollBack_strikes (hr : s.record? id = some r) (p : Pass Rat) (news : List (Event Rat))
    (e : Failure) :
    ∃ t, (({ s.beginFirstPhase f with tableau := p.tableau.endFirstPhase } : Solver Rat).rollBack id
      (s.supply.next .slack) news e).solver =
        { s.strike id r with supply := s.supply.advance, tableau := t } := by
  rw [solver_of_rollBack]
  exact solver_of_retract (s := { s.beginFirstPhase f with
    tableau := p.tableau.endFirstPhase.discard (s.supply.next .slack) }) hr

theorem recalls_settle {ρ : Type} {o o' : Outcome Rat ρ} (ho : o.settle n = some o')
    (h : o.solver.Sound V vs) : Tableau.Recalls W o.solver.tableau o'.solver.tableau := by
  rcases Outcome.settle_cases ho with rfl | ⟨q, hq, hsolver, -⟩
  · exact (Tableau.Recast.refl _).recalls
  · obtain ⟨p, hp, rfl⟩ := solve_cases hq
    have hmeets := h.stands.tidy.minimize_meets h.books.issued.numbered hp
    have hk : Tableau.Keeps V o.solver.tableau p.tableau :=
      hmeets.tableau (fun _ hu => hu.1.toKeeps) fun _ _ hu => hu.1.toKeeps
    rw [hsolver]
    exact hk.recast.recalls

/-- What a refusal leaves: the books as they were, and a tableau that recalls the old one. -/
theorem Sound.add_rejected (h : s.Sound V vs)
    (hw : ∀ id r, s.record? id = some r → 0 ≤ r.constraint.weight) {c : Constraint Rat}
    (hc : ∀ v ∈ c.form.vars, v ∈ vs) (hcw : 0 ≤ c.weight) {o : Outcome Rat ConstraintId}
    (ho : s.add n c = some o) {e : Failure} (he : o.answer = .error e) :
    (∃ supply t, o.solver = { s with supply := supply, tableau := t, nextId := s.nextId + 1 }) ∧
      Tableau.Recalls V s.tableau o.solver.tableau := by
  have hpending := h.prepare hc
  obtain ⟨q, hq, hqe, ho⟩ := h.bringIn_of_add_failure hw hc hcw ho he
  obtain ⟨U, hbrought, -⟩ := hpending.bringIn hq
  obtain ⟨hx, p, news, e', hp, hsolver⟩ := bringIn_rolledBack hq hqe
  obtain ⟨-, hnew⟩ := h.books.issued.draw c
  -- only a required constraint is refused, and it has no errors
  have hreq : c.isRequired = true := hpending.required_of_no_subject hx
  have herrors : (Auxiliaries.draw s.supply c).1.errors = [] := by
    obtain ⟨-, herrors, -⟩ | ⟨hsoft, -⟩ := (Auxiliaries.draw_fits s.supply c).shape
    · exact herrors
    · rw [hreq] at hsoft
      cases hsoft
  have hprepared : (s.prepare c).1.tableau = s.tableau := by
    show (Auxiliaries.draw s.supply c).1.errors.foldl _ s.tableau = s.tableau
    rw [herrors]
    rfl
  have hartificial : ¬V ((s.prepare c).1.supply.next .slack) :=
    fun hv => hpending.books.issued.fresh .slack (.inl hv)
  constructor
  · obtain ⟨t, ht⟩ := solver_of_settle ho
    obtain ⟨t', ht'⟩ := rollBack_strikes (f := (s.prepare c).2) hpending.record p news e'
    refine ⟨(s.prepare c).1.supply.advance, t, ?_⟩
    rw [ht]
    simp only [hsolver, ht']
    exact h.books.strike_prepare c (s.prepare c).1.supply.advance t
  · have hrolled := hpending.recalls_rollBack (W := V) hx hp herrors
      (hnew _ List.mem_cons_self) hartificial news e'
    rw [hprepared, ← hsolver] at hrolled
    exact hrolled.trans (recalls_settle ho hbrought)

/-- With the old constraints in the books no variable is about that was drawn since. -/
theorem Sound.absent_of_unowned (h : s.Sound V vs) {s' : Solver Rat} {us : List Variable}
    (h' : s'.Sound W us) (hrecords : s'.records = s.records) {v : Variable}
    (hv : s.supply.owns v = false) : s'.tableau.Absent v := by
  have hout : ¬V v := by
    intro hin
    have hlt := h.books.issued.drawn v hin
    unfold Supply.owns at hv
    simp [hlt] at hv
  apply h'.absent
  · intro i q hq hm
    exact hout (h.books.own (record?_congr hrecords i ▸ hq) v hm)
  · intro i q hq hm
    exact hout (h.books.clients v (h.books.forms (record?_congr hrecords i ▸ hq) v hm)).1

/-- A constraint that is refused leaves no trace, also where minimising was asked for: the
constraints, what is kept about them, their markers and the settings are what they were, in the same
order; no row, column, objective, candidate or queue mentions a variable drawn since; no first phase
is going on; and the rows have the same solutions as before, with the same objective on them. Only
numbers were used up and the basis may be another. -/
theorem add_leaves_no_trace (h : Reached (fun _ q _ => q.Graded) vs s) {c : Constraint Rat}
    (hc : ∀ v ∈ c.form.vars, v ∈ vs) (hgraded : (Request.add c).Graded)
    {o : Outcome Rat ConstraintId} (ho : s.add n c = some o) {e : Failure}
    (he : o.answer = .error e) :
    (o.solver.constraints = s.constraints ∧ o.solver.records = s.records ∧
      o.solver.markers = s.markers ∧ o.solver.settings = s.settings) ∧
    (∀ v, s.supply.owns v = false →
      o.solver.tableau.row? v = none ∧
      (∀ b f, o.solver.tableau.row? b = some f → v ∉ f.vars) ∧
      o.solver.tableau.columns.get? v = none ∧ (∀ w, v ∉ o.solver.tableau.column w) ∧
      v ∉ o.solver.tableau.objective.vars ∧ v ∉ o.solver.tableau.candidates.members ∧
      v ∉ o.solver.tableau.queue.keys) ∧
    o.solver.tableau.artificial = none ∧
    (∀ σ, o.solver.tableau.Solves σ ↔ s.tableau.Solves σ) ∧
    ∀ σ, s.tableau.Solves σ →
      o.solver.tableau.objective.eval σ = s.tableau.objective.eval σ := by
  obtain ⟨V, hs⟩ := h.sound
  have hweights := h.weight_nonneg fun _ _ _ hok => hok
  obtain ⟨w, hstrength⟩ := hgraded
  have hcw : 0 ≤ c.weight := by
    show 0 ≤ c.strength.weight
    rw [hstrength]
    exact Strength.ofWeight_nonneg w
  obtain ⟨⟨supply, t, hsolver⟩, hrecalls⟩ := hs.add_rejected hweights hc hcw ho he
  obtain ⟨W, hafter, -⟩ := hs.add hc ho
  have hrecords : o.solver.records = s.records := by rw [hsolver]
  have hmarkers : o.solver.markers = s.markers := by rw [hsolver]
  have hsettings : o.solver.settings = s.settings := by rw [hsolver]
  have hconstraints : o.solver.constraints = s.constraints := by
    unfold constraints
    rw [hrecords]
  have hsolves : ∀ σ, o.solver.tableau.Solves σ ↔ s.tableau.Solves σ := by
    intro σ
    rw [hafter.stands.solves, hs.stands.solves]
    apply forall₂_congr
    intro i q
    rw [record?_congr hrecords]
  refine ⟨⟨hconstraints, hrecords, hmarkers, hsettings⟩, fun v hv => ?_, hafter.stands.settled,
    hsolves, fun σ hσ => ?_⟩
  · exact hafter.stands.tidy.silent (hs.absent_of_unowned hafter hrecords hv)
  · exact hs.stands.tidy.within.objective_of_recalls hrecalls ((hsolves σ).2 hσ)

/-- A limit of 50 on something that is at least 100. The exchange made before it is refused is made
back in the end, so two rows have changed places; two numbers are used up. -/
theorem add_leaves_no_trace_of_conflict :
    ∃ y o, replay (fun _ q _ => q.isGraded) 9
      [.newVariable false, .newVariable true,
        .add (.compare (.var ⟨0, .free⟩) .atLeast (.const 100)),
        .add (.compare (.var ⟨1, .bounded⟩) .atLeast (.var ⟨0, .free⟩)),
        .add ((Constraint.compare (.var ⟨0, .free⟩) .equal (.const 140)).withStrength .weak),
        .setAutoSolve true, .setExplainFailure false,
        .add (.compare (.var ⟨1, .bounded⟩) .atMost (.const 120))] ([], new) = some y ∧
      let c := Constraint.compare (var ⟨1, .bounded⟩) .atMost (.const (50 : Rat))
      ((∀ v ∈ c.form.vars, v ∈ y.1) ∧ (Request.add c).Graded ∧ y.2.add 9 c = some o ∧
        o.answer = .error .unsatisfiable ∧ y.2.supply.owns ⟨7, .slack⟩ = false ∧
        o.solver.tableau.rows.keys ≠ y.2.tableau.rows.keys) ∧
      (o.solver.constraints = y.2.constraints ∧ o.solver.records = y.2.records ∧
        o.solver.markers = y.2.markers ∧ o.solver.settings = y.2.settings) ∧
      (∀ v, y.2.supply.owns v = false →
        o.solver.tableau.row? v = none ∧
        (∀ b f, o.solver.tableau.row? b = some f → v ∉ f.vars) ∧
        o.solver.tableau.columns.get? v = none ∧ (∀ w, v ∉ o.solver.tableau.column w) ∧
        v ∉ o.solver.tableau.objective.vars ∧ v ∉ o.solver.tableau.candidates.members ∧
        v ∉ o.solver.tableau.queue.keys) ∧
      o.solver.tableau.artificial = none ∧
      (∀ σ, o.solver.tableau.Solves σ ↔ y.2.tableau.Solves σ) ∧
      ∀ σ, y.2.tableau.Solves σ →
        o.solver.tableau.objective.eval σ = y.2.tableau.objective.eval σ := by
  let c := Constraint.compare (var ⟨1, .bounded⟩) .atMost (.const (50 : Rat))
  have hrun : (replay (fun _ q _ => q.isGraded) 9
      [.newVariable false, .newVariable true,
        .add (.compare (.var ⟨0, .free⟩) .atLeast (.const 100)),
        .add (.compare (.var ⟨1, .bounded⟩) .atLeast (.var ⟨0, .free⟩)),
        .add ((Constraint.compare (.var ⟨0, .free⟩) .equal (.const 140)).withStrength .weak),
        .setAutoSolve true, .setExplainFailure false,
        .add (.compare (.var ⟨1, .bounded⟩) .atMost (.const 120))] ([], new)).any (fun y =>
      (Request.add c).isWithin y.1 && (Request.add c).isGraded &&
        y.2.supply.owns ⟨7, .slack⟩ == false &&
        (y.2.add 9 c).any fun o => decide (o.answer = .error .unsatisfiable) &&
          decide (o.solver.tableau.rows.keys ≠ y.2.tableau.rows.keys)) = true := by
    decide +kernel
  obtain ⟨y, hy, hcheck⟩ := (Option.any_eq_true _ _).1 hrun
  simp only [Bool.and_eq_true, beq_iff_eq] at hcheck
  obtain ⟨⟨⟨hwithin, hgraded⟩, hnew⟩, hcheck⟩ := hcheck
  obtain ⟨o, ho, hcheck⟩ := (Option.any_eq_true _ _).1 hcheck
  rw [Bool.and_eq_true] at hcheck
  obtain ⟨hanswer, hkeys⟩ := hcheck
  have hanswer := of_decide_eq_true hanswer
  have hreached : Reached (fun _ q _ => q.Graded) y.1 y.2 :=
    Reached.replay (fun _ q _ htest => Request.graded_of_isGraded htest) (.start {}) hy
  have hc : ∀ v ∈ c.form.vars, v ∈ y.1 := Request.within_of_isWithin (q := .add c) hwithin
  have hgraded := Request.graded_of_isGraded hgraded
  exact ⟨y, o, hy, ⟨hc, hgraded, ho, hanswer, hnew, of_decide_eq_true hkeys⟩,
    add_leaves_no_trace hreached hc hgraded ho hanswer⟩

end Solver

end SoftSimplex
