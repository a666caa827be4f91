import SoftSimplex.Proofs.Requests
import SoftSimplex.Proofs.Waiting

/-!
# What every request keeps, whatever the arithmetic

A solver is upheld if its books are in order, its tableau is orderly, and free variables occur in
the rows of free variables only. Every request keeps that, whether it succeeds or fails: with
rounding, infinities and numbers that compare with nothing as well as over the rationals. Hence the
column index and the candidates of every solver that a client can get to are exact, and none of its
restricted rows mentions a free variable.
-/

namespace SoftSimplex

open LinearForm

namespace Tableau

variable {α : Type} [Scalar α] {V : Variable → Prop} {t : Tableau α}

theorem Orderly.addCosts (hV : Numbered V) (h : t.Orderly V) (w : α) {es : List Variable}
    (hes : ∀ e ∈ es, V e) : (es.foldl (fun t v => t.addCost v w) t).Orderly V := by
  induction es generalizing t with
  | nil => exact h
  | cons e es ih =>
    obtain ⟨he, hes⟩ := List.forall_mem_cons.1 hes
    exact ih (h.addCost hV he w) hes

theorem Orderly.waiveAll (hV : Numbered V) (h : t.Orderly V) (w : α) {es : List Variable}
    (hes : ∀ e ∈ es, V e) : (es.foldl (Tableau.waive w) t).Orderly V := by
  induction es generalizing t with
  | nil => exact h
  | cons e es ih =>
    obtain ⟨he, hes⟩ := List.forall_mem_cons.1 hes
    exact ih (h.waive hV he w) hes

theorem FreeApart.waiveAll (h : t.FreeApart) (w : α) (es : List Variable) :
    (es.foldl (Tableau.waive w) t).FreeApart := by
  induction es generalizing t with
  | nil => exact h
  | cons e es ih =>
    apply ih
    exact (h.of_rows fun c => row?_addCost t e c _).removeRow e

end Tableau

namespace Solver

variable {α : Type} [Scalar α] {V : Variable → Prop} {vs : List Variable} {s : Solver α}
variable {id : ConstraintId} {f : LinearForm α} {n : Nat}

structure Upheld (V : Variable → Prop) (vs : List Variable) (s : Solver α) : Prop where
  books : s.Books V vs
  orderly : s.tableau.Orderly V
  freeApart : s.tableau.FreeApart

theorem upheld_start (settings : Settings) :
    (ofSettings settings : Solver α).Upheld (fun _ => False) [] :=
  ⟨books_start settings, Tableau.orderly_empty, Tableau.freeApart_empty⟩

theorem Upheld.withTableau (h : s.Upheld V vs) {t : Tableau α} (ht : t.Orderly V)
    (hf : t.FreeApart) : ({ s with tableau := t } : Solver α).Upheld V vs :=
  ⟨h.books.of_frame rfl rfl rfl rfl, ht, hf⟩

/-! ## Minimising and repairing -/

theorem Upheld.solve (h : s.Upheld V vs) {o : Outcome α Unit} (ho : s.solve n = some o) :
    o.solver.Upheld V vs := by
  obtain ⟨p, hp, rfl⟩ := solve_cases ho
  have hmeets := h.orderly.minimize_meets h.books.issued.numbered h.freeApart hp
  obtain ⟨ht, hf⟩ := hmeets.tableau (fun _ hu => hu) fun _ _ hu => hu.1
  exact h.withTableau ht hf

theorem upheld_settle {ρ : Type} {o o' : Outcome α ρ} (ho : o.settle n = some o')
    (h : o.solver.Upheld V vs) : o'.solver.Upheld V vs := by
  rcases o.settle_cases ho with rfl | ⟨q, hq, hsolver, -⟩
  · exact h
  · rw [hsolver]
    exact h.solve hq

/-- Minimising fails only where there is no least cost. -/
theorem Upheld.solve_answer (h : s.Upheld V vs) {o : Outcome α Unit} (ho : s.solve n = some o) :
    o.answer = .ok () ∨ o.answer = .error .unbounded := by
  obtain ⟨p, hp, rfl⟩ := solve_cases ho
  have hmeets := h.orderly.minimize_meets h.books.issued.numbered h.freeApart hp
  have hanswer : (s.afterPass p).answer = p.ending := rfl
  rw [hanswer]
  unfold Pass.Meets at hmeets
  cases hend : p.ending with
  | ok _ => exact .inl rfl
  | error f =>
    rw [hend] at hmeets
    rw [hmeets.2]
    exact .inr rfl

theorem Upheld.settle_answer {ρ : Type} {o o' : Outcome α ρ} (h : o.solver.Upheld V vs)
    (ho : o.settle n = some o') : o'.answer = o.answer ∨
      o.solver.settings.autoSolve = true ∧ o'.answer = .error .unbounded := by
  unfold Outcome.settle at ho
  split at ho
  · next hauto =>
    obtain ⟨q, hq, rfl⟩ := Option.map_eq_some_iff.1 ho
    rcases h.solve_answer hq with hanswer | hanswer
    · exact .inl (by rw [hanswer])
    · exact .inr ⟨hauto, by rw [hanswer]⟩
  · cases ho
    exact .inl rfl

theorem Upheld.restore (h : s.Upheld V vs) {o : Outcome α Unit} (ho : s.restore n = some o) :
    o.solver.Upheld V vs := by
  obtain ⟨p, hp, hsolver, -⟩ := restore_cases ho
  have hmeets := h.orderly.repair_meets h.books.issued.numbered h.freeApart hp
  obtain ⟨ht, hf⟩ := hmeets.tableau (fun _ hu => hu) fun _ _ hu => hu.1
  rw [hsolver]
  refine h.withTableau (ht.withQueue fun b hb => ?_) (hf.of_rows fun _ => rfl)
  cases hb

/-! ## Taking a constraint out -/

theorem Upheld.strike (h : s.Upheld V vs) {r : Record α} (hr : s.record? id = some r) :
    (s.strike id r).Upheld V vs :=
  ⟨h.books.strike hr,
    h.orderly.waiveAll h.books.issued.numbered _
      fun e he => h.books.own hr e (Record.error_mem_own he),
    h.freeApart.waiveAll _ _⟩

/-- The marker takes over the row of a restricted variable, or that of a free one if no restricted
row mentions it. -/
theorem Upheld.retract (h : s.Upheld V vs) (id : ConstraintId) :
    (s.retract id).solver.Upheld V vs := by
  unfold Solver.retract
  cases hr : s.record? id with
  | none => exact h
  | some r =>
    have hs := h.strike hr
    have ht := hs.orderly.wellFormed
    cases hx : (s.strike id r).exitFor? r.marker with
    | none =>
      simp only [hx]
      exact hs.withTableau (hs.orderly.removeRow _) (hs.freeApart.removeRow _)
    | some exit =>
      have hev : (s.strike id r).tableau.eviction? r.marker = some exit := by
        unfold exitFor? at hx
        split at hx
        · cases hx
        · exact hx
      obtain ⟨row, hrow, hm, hcases⟩ := ht.indexed.row_of_eviction? hev
      obtain ⟨t, he⟩ := Tableau.exchange_ok_of_mem hrow hm
      simp only [hx, he]
      refine hs.withTableau ((hs.orderly.exchange hs.books.issued.numbered he).removeRow _) ?_
      rcases hcases with hrestricted | hfree
      · exact (hs.freeApart.exchange ht.indexed hrestricted he).removeRow _
      · exact hs.freeApart.exchange_removeRow ht (fun hf hb => hfree _ _ hf hb) he

/-! ## Bringing a constraint in -/

/-- The equation of a new constraint speaks of variables without rows. -/
theorem Upheld.prepare (h : s.Upheld V vs) {c : Constraint α} (hc : ∀ v ∈ c.form.vars, v ∈ vs) :
    (s.prepare c).1.Upheld (fun v => V v ∨ v ∈ (Auxiliaries.draw s.supply c).1.own) vs ∧
      ∀ v ∈ (s.prepare c).2.vars, (V v ∨ v ∈ (Auxiliaries.draw s.supply c).1.own) ∧
        (s.prepare c).1.tableau.row? v = none := by
  have hbooks := h.books.register hc
  obtain ⟨-, hnew⟩ := h.books.issued.draw c
  have hform : ∀ w ∈ c.form.vars, V w := fun w hw => (h.books.clients w (hc w hw)).1
  have hown : ∀ v ∈ (Auxiliaries.draw s.supply c).1.own, s.tableau.row? v = none :=
    fun v hv => (h.orderly.within.absent (hnew v hv)).nonbasic
  refine ⟨⟨hbooks, ?_, ?_⟩, ?_⟩
  · exact (h.orderly.mono fun _ hv => .inl hv).addCosts hbooks.issued.numbered _
      fun e he => .inr (List.mem_cons_of_mem _ he)
  · exact h.freeApart.of_rows fun c => row?_addCosts _ _ _ c
  · intro v hv
    have hrow : (s.prepare c).1.tableau.row? v = s.tableau.row? v := row?_addCosts _ _ _ _
    rw [hrow]
    exact vars_equation h.orderly hform hown v hv

theorem restricted_of_no_subject (hx : s.subject? f = none) :
    ∀ w ∈ f.vars, w.isRestricted = true := by
  unfold subject? at hx
  rw [Option.map_eq_none_iff, Option.or_eq_none_iff] at hx
  intro w hw
  obtain ⟨e, he, rfl⟩ := List.mem_map.1 hw
  exact Variable.isRestricted_iff.2 fun hrole =>
    List.find?_eq_none.1 hx.1 e he (beq_iff_eq.2 hrole)

theorem Upheld.insertSolved (h : s.Upheld V vs)
    (hvars : ∀ w ∈ f.vars, V w ∧ s.tableau.row? w = none) {v : Variable}
    (hx : s.subject? f = some v) : (s.insertSolved v f).Upheld V vs := by
  obtain ⟨hmem, hfree⟩ := subject?_free hx
  have hrow : v.isRestricted = true → ∀ w ∈ (f.isolate v).vars, w.isRestricted = true :=
    fun hr w hw => hfree hr w (mem_vars_of_isolate hw)
  exact h.withTableau (h.orderly.insertSolved h.books.issued.numbered hmem hvars)
    ((h.freeApart.substitute h.orderly.wellFormed.indexed hrow).insertRow hrow)

/-- The artificial variable is new, and no row or objective knows it yet. -/
theorem Upheld.beginFirstPhase (h : s.Upheld V vs)
    (hvars : ∀ w ∈ f.vars, V w ∧ s.tableau.row? w = none) (hx : s.subject? f = none) :
    (s.beginFirstPhase f).Upheld (fun w => V w ∨ w = s.supply.next .slack) vs := by
  have hfresh := h.books.issued.fresh .slack
  have hopen : ∀ w ∈ f.vars, (V w ∨ w = s.supply.next .slack) ∧ w ≠ s.supply.next .slack ∧
      s.tableau.row? w = none := by
    intro w hw
    obtain ⟨hV, hrow⟩ := hvars w hw
    exact ⟨.inl hV, fun he => hfresh (he ▸ hV), hrow⟩
  have hrow := (h.orderly.mono (W := fun w => V w ∨ w = s.supply.next .slack)
    fun _ hv => .inl hv).insertRow (h.orderly.within.absent hfresh) (.inr rfl) hopen
  have hfree := h.freeApart.insertRow (b := s.supply.next .slack)
    fun _ => restricted_of_no_subject hx
  refine ⟨(h.books.advance .slack).of_frame rfl rfl rfl rfl, ?_, hfree.of_rows fun _ => rfl⟩
  apply hrow.withArtificial
  intro g hg w hw
  cases hg
  refine ⟨(hopen w hw).1, ?_⟩
  rw [Tableau.row?_insertRow, if_neg (hopen w hw).2.1]
  exact (hopen w hw).2.2

theorem Upheld.discard (h : s.Upheld V vs) {a : Variable} (ha : V a) :
    ({ s with tableau := s.tableau.discard a } : Solver α).Upheld V vs :=
  h.withTableau (h.orderly.discard h.books.issued.numbered ha)
    ((h.freeApart.removeRow a).removeColumn (h.orderly.removeRow a).wellFormed.indexed a)

theorem Upheld.rollBack (h : s.Upheld V vs) (id : ConstraintId) {a : Variable} (ha : V a)
    (news : List (Event α)) (e : Failure) : (s.rollBack id a news e).solver.Upheld V vs := by
  rw [solver_of_rollBack]
  exact (h.discard ha).retract id

/-- The artificial variable gives up its row, if it has one, and is forgotten. -/
theorem Upheld.dismiss (h : s.Upheld V vs) (id : ConstraintId) {a : Variable} (ha : V a)
    (hr : a.isRestricted = true) : (s.dismiss id a).solver.Upheld V vs := by
  have hV := h.books.issued.numbered
  have ht := h.orderly.wellFormed.indexed
  have hforget : ∀ {t : Tableau α}, t.Orderly V → t.FreeApart →
      ({ s with tableau := t.removeColumn a } : Solver α).Upheld V vs :=
    fun ht hf => h.withTableau (ht.removeColumn hV ha) (hf.removeColumn ht.wellFormed.indexed a)
  unfold Solver.dismiss
  cases hb : s.tableau.row? a with
  | none => exact hforget h.orderly h.freeApart
  | some row =>
    simp only [Option.map_some]
    cases hsucc : row.successor? with
    | none => exact hforget (h.orderly.removeRow a) (h.freeApart.removeRow a)
    | some entry =>
      obtain ⟨t, he⟩ := Tableau.exchange_ok_of_mem hb (mem_of_successor? hsucc)
      simp only [he]
      exact hforget (h.orderly.exchange hV he) (h.freeApart.exchange ht hr he)

theorem Upheld.endFirstPhase (h : s.Upheld V vs) {p : Pass α}
    (hp : s.tableau.minimizeArtificial n = some p) :
    ({ s with tableau := p.tableau.endFirstPhase } : Solver α).Upheld V vs := by
  have hmeets := h.orderly.minimizeArtificial_meets h.books.issued.numbered h.freeApart hp
  obtain ⟨ht, hf⟩ := hmeets.tableau (fun _ hu => hu) fun _ _ hu => hu.1
  exact h.withTableau (ht.withArtificial fun g hg => nomatch hg) (hf.of_rows fun _ => rfl)

theorem Upheld.concludeFirstPhase (h : s.Upheld V vs) (id : ConstraintId) {a : Variable}
    (ha : V a) (hr : a.isRestricted = true) {p : Pass α}
    (hp : s.tableau.minimizeArtificial n = some p) :
    (s.concludeFirstPhase id a p).solver.Upheld V vs := by
  have hafter := h.endFirstPhase hp
  rcases concludeFirstPhase_cases s id a p with hend | ⟨news, e, hend⟩
  · rw [hend]
    exact hafter.dismiss id ha hr
  · rw [hend]
    exact hafter.rollBack id ha news e

theorem Upheld.bringIn (h : s.Upheld V vs)
    (hvars : ∀ w ∈ f.vars, V w ∧ s.tableau.row? w = none) {o : Outcome α Unit}
    (ho : s.bringIn n id f = some o) : ∃ W, o.solver.Upheld W vs := by
  rcases bringIn_cases ho with ⟨v, hx, rfl⟩ | ⟨hx, p, hp, hsolver, -⟩
  · exact ⟨V, h.insertSolved hvars hx⟩
  · rw [hsolver]
    exact ⟨_, (h.beginFirstPhase hvars hx).concludeFirstPhase id (.inr rfl) rfl hp⟩

/-! ## Any request -/

theorem Upheld.add (h : s.Upheld V vs) {c : Constraint α} (hc : ∀ v ∈ c.form.vars, v ∈ vs)
    {o : Outcome α ConstraintId} (ho : s.add n c = some o) : ∃ W, o.solver.Upheld W vs := by
  obtain ⟨q, hq, ho⟩ := add_cases ho
  obtain ⟨hprepared, hvars⟩ := h.prepare hc
  obtain ⟨W, hq⟩ := hprepared.bringIn hvars hq
  exact ⟨W, upheld_settle ho hq⟩

theorem Upheld.remove (h : s.Upheld V vs) {o : Outcome α Unit} (ho : s.remove n id = some o) :
    o.solver.Upheld V vs := by
  have hback := h.retract id
  rcases remove_cases ho with ⟨e, -, rfl⟩ | ⟨-, ho⟩
  · exact hback
  · exact upheld_settle ho hback

/-- Moving the constant of a constraint in the books and in the tableau. -/
theorem Upheld.shift (h : s.Upheld V vs) {r : Record α} (hr : s.record? id = some r) (k : α) :
    (s.shifted id r k).Upheld V vs :=
  ⟨h.books.edit hr (c := r.constraint.withRightSide k) rfl rfl rfl rfl rfl rfl rfl,
    h.orderly.shiftConstant ((h.books.proper hr).own_restricted r.marker_mem_own) _,
    h.freeApart.shiftConstant _ _⟩

theorem Upheld.updateConstant (h : s.Upheld V vs) {k : α} {o : Outcome α Unit}
    (ho : s.updateConstant n id k = some o) : o.solver.Upheld V vs := by
  rcases updateConstant_cases ho with rfl | ⟨r, q, hr, hq, rfl⟩
  · exact h
  · have hrestored := (h.shift hr k).restore hq
    exact hrestored

/-- Changing the strength of a constraint in the books and in the objective. -/
theorem Upheld.reweigh (h : s.Upheld V vs) {r : Record α} (hr : s.record? id = some r)
    {new : Strength α} (hreq : new.isRequired = r.constraint.isRequired) :
    (s.reweighed id r new).Upheld V vs :=
  ⟨h.books.edit hr (c := r.constraint.withStrength new) rfl rfl hreq rfl rfl rfl rfl,
    h.orderly.addCosts h.books.issued.numbered _
      fun e he => h.books.own hr e (Record.error_mem_own he),
    h.freeApart.of_rows fun c => row?_addCosts _ _ _ c⟩

theorem Upheld.updateStrength (h : s.Upheld V vs) {new : Strength α} {o : Outcome α Unit}
    (ho : s.updateStrength n id new = some o) : o.solver.Upheld V vs := by
  rcases updateStrength_cases ho with ⟨-, rfl⟩ | ⟨log, rfl⟩ | ⟨r, hr, hreq, ho⟩
  · exact h
  · exact h
  · exact upheld_settle ho (h.reweigh hr hreq)

/-! ## What an edit overlooks -/

theorem Upheld.restore_attends (hα : Scalar.Raises α) (h : s.Upheld V vs) {o : Outcome α Unit}
    (ho : s.restore n = some o) (hrep : o.Repaired) :
    Tableau.Attends s.tableau o.solver.tableau ∧ o.solver.tableau.queue = ∅ := by
  obtain ⟨p, hp, hsolver, -, hlog⟩ := restore_cases ho
  have hmeets := h.orderly.wellFormed.repair_attends hα hp
  rw [hsolver]
  unfold Pass.Meets at hmeets
  cases hend : p.ending with
  | ok _ =>
    rw [hend] at hmeets
    obtain ⟨hattends, hqueue⟩ := hmeets
    have hclear : p.tableau.clearQueue = p.tableau := by
      unfold Tableau.clearQueue
      rw [← hqueue]
    exact ⟨hclear ▸ hattends, rfl⟩
  | error e => exact absurd ((hlog e).2 hend) (hrep e)

/-- An edit whose repair does not fail changes nothing or leaves no row waiting, and overlooks
none. -/
theorem Upheld.updateConstant_attends (hα : Scalar.Raises α) (h : s.Upheld V vs) {k : α}
    {o : Outcome α Unit} (ho : s.updateConstant n id k = some o) (hrep : o.Repaired) :
    o.solver = s ∨
      Tableau.Attends s.tableau o.solver.tableau ∧ o.solver.tableau.queue = ∅ := by
  rcases updateConstant_cases ho with rfl | ⟨r, q, hr, hq, rfl⟩
  · exact .inl rfl
  · have hm := (h.books.proper hr).own_restricted r.marker_mem_own
    obtain ⟨hattends, hqueue⟩ := (h.shift hr k).restore_attends hα hq
      fun f hf => hrep f (List.mem_cons_of_mem _ hf)
    exact .inr ⟨(Tableau.attends_shiftConstant hm _).trans hattends, hqueue⟩

/-! ## Whole histories -/

/-- A request leaves an upheld solver, whether it succeeds or fails. -/
theorem Upheld.perform (h : s.Upheld V vs) {q : Request α} (hq : q.Within vs)
    {o : Outcome α Reply} (ho : s.perform n q = some o) :
    ∃ W, o.solver.Upheld W (vs ++ Reply.clients o.answer) := by
  cases q with
  | newVariable bounded =>
    cases ho
    exact ⟨_, h.books.newVariable bounded, h.orderly.mono fun _ hv => .inl hv, h.freeApart⟩
  | add c =>
    obtain ⟨p, hp, rfl⟩ := Option.map_eq_some_iff.1 ho
    rw [append_clients_replying fun _ => rfl]
    exact h.add hq hp
  | remove id =>
    obtain ⟨p, hp, rfl⟩ := Option.map_eq_some_iff.1 ho
    rw [append_clients_replying fun _ => rfl]
    exact ⟨V, h.remove hp⟩
  | updateConstant id k =>
    obtain ⟨p, hp, rfl⟩ := Option.map_eq_some_iff.1 ho
    rw [append_clients_replying fun _ => rfl]
    exact ⟨V, h.updateConstant hp⟩
  | updateStrength id new =>
    obtain ⟨p, hp, rfl⟩ := Option.map_eq_some_iff.1 ho
    rw [append_clients_replying fun _ => rfl]
    exact ⟨V, h.updateStrength hp⟩
  | solve =>
    obtain ⟨p, hp, rfl⟩ := Option.map_eq_some_iff.1 ho
    rw [append_clients_replying fun _ => rfl]
    exact ⟨V, h.solve hp⟩
  | reset =>
    cases ho
    rw [append_clients_replying fun _ => rfl]
    exact ⟨V, h.books.reset, Tableau.orderly_empty, Tableau.freeApart_empty⟩
  | setAutoSolve b =>
    cases ho
    refine ⟨V, ?_, h.orderly, h.freeApart⟩
    show (s.setAutoSolve b).Books V (vs ++ [])
    rw [List.append_nil]
    exact h.books.of_frame rfl rfl rfl rfl
  | setExplainFailure b =>
    cases ho
    refine ⟨V, ?_, h.orderly, h.freeApart⟩
    show (s.setExplainFailure b).Books V (vs ++ [])
    rw [List.append_nil]
    exact h.books.of_frame rfl rfl rfl rfl

/-- Every solver that a client can get to is upheld. -/
theorem Reached.upheld {allowed : Solver α → Request α → Outcome α Reply → Prop}
    (h : Reached allowed vs s) : ∃ V, s.Upheld V vs := by
  induction h with
  | start settings => exact ⟨_, upheld_start settings⟩
  | step _ hq ho _ ih =>
    obtain ⟨V, hs⟩ := ih
    exact hs.perform hq ho

/-- After any requests, failed ones among them, and in any arithmetic: a column lists a row exactly
if the row mentions its variable, no column is kept without members, no basic variable occurs in a
row or in the objective, and what is queued is restricted and basic. -/
theorem columns_exact {allowed : Solver α → Request α → Outcome α Reply → Prop}
    (h : Reached allowed vs s) :
    (∀ v b, b ∈ s.tableau.column v ↔ ∃ f, s.tableau.row? b = some f ∧ v ∈ f.vars) ∧
    (∀ v col, s.tableau.columns.get? v = some col → col.isEmpty = false) ∧
    (∀ b, s.tableau.isBasic b = true →
      (∀ c f, s.tableau.row? c = some f → b ∉ f.vars) ∧ b ∉ s.tableau.objective.vars) ∧
    ∀ b ∈ s.tableau.queue.keys, b.isRestricted = true ∧ s.tableau.isBasic b = true := by
  obtain ⟨V, hs⟩ := h.upheld
  have ht := hs.orderly.wellFormed
  have hopen : ∀ {b}, s.tableau.isBasic b = true → s.tableau.row? b ≠ none := by
    intro b hb hnone
    obtain ⟨f, hf⟩ := Tableau.isBasic_iff.1 hb
    rw [hnone] at hf
    cases hf
  refine ⟨fun v b => ht.indexed.mem_column, fun v col hcol => ?_, fun b hb => ⟨?_, ?_⟩, ?_⟩
  · have hfull := ht.indexed.full v col hcol
    cases hempty : col.isEmpty with
    | false => rfl
    | true => exact absurd (List.map_eq_nil_iff.2 (List.isEmpty_iff.1 hempty)) hfull
  · exact fun c f hf hm => hopen hb (ht.row_open hf hm)
  · exact fun hm => hopen hb (ht.objective_open hm)
  · intro b hb
    obtain ⟨hr, hrow⟩ := ht.queued hb
    exact ⟨hr, Tableau.isBasic_iff.2 hrow⟩

/-- A session with a refused constraint and a failed repair. The slack of the first constraint is
listed with the three rows that mention it, one of them left negative. -/
theorem columns_exact_of_session :
    ∃ y, replay (fun _ _ _ => true) 9
      [.newVariable false, .add (.compare (.var ⟨0, .free⟩) .atLeast (.const 100)),
        .add (.compare (.var ⟨0, .free⟩) .atMost (.const 50)),
        .add ((Constraint.compare (.var ⟨0, .free⟩) .equal (.const 40)).withStrength .weak),
        .add (.compare (.var ⟨0, .free⟩) .atMost (.const 200)),
        .updateConstant ⟨3⟩ 50, .solve] ([], new) = some y ∧
      y.2.tableau.column ⟨1, .slack⟩ = [⟨0, .free⟩, ⟨4, .error⟩, ⟨6, .slack⟩] ∧
      y.2.value ⟨6, .slack⟩ = -50 ∧
      (∀ v b, b ∈ y.2.tableau.column v ↔ ∃ f, y.2.tableau.row? b = some f ∧ v ∈ f.vars) ∧
      (∀ v col, y.2.tableau.columns.get? v = some col → col.isEmpty = false) ∧
      (∀ b, y.2.tableau.isBasic b = true →
        (∀ c f, y.2.tableau.row? c = some f → b ∉ f.vars) ∧ b ∉ y.2.tableau.objective.vars) ∧
      ∀ b ∈ y.2.tableau.queue.keys, b.isRestricted = true ∧ y.2.tableau.isBasic b = true := by
  have hrun : (replay (fun _ _ _ => true) 9
      [.newVariable false, .add (.compare (.var ⟨0, .free⟩) .atLeast (.const 100)),
        .add (.compare (.var ⟨0, .free⟩) .atMost (.const 50)),
        .add ((Constraint.compare (.var ⟨0, .free⟩) .equal (.const 40)).withStrength .weak),
        .add (.compare (.var ⟨0, .free⟩) .atMost (.const 200)),
        .updateConstant ⟨3⟩ 50, .solve] ([], new)).any (fun y =>
      decide (y.2.tableau.column ⟨1, .slack⟩ = [⟨0, .free⟩, ⟨4, .error⟩, ⟨6, .slack⟩]) &&
        decide (y.2.value ⟨6, .slack⟩ = -50)) = true := by
    decide +kernel
  obtain ⟨y, hy, hcheck⟩ := (Option.any_eq_true _ _).1 hrun
  rw [Bool.and_eq_true, decide_eq_true_eq, decide_eq_true_eq] at hcheck
  have hreached : Reached (fun _ _ _ => True) y.1 y.2 :=
    Reached.replay (fun _ _ _ _ => trivial) (.start {}) hy
  exact ⟨y, hy, hcheck.1, hcheck.2, columns_exact hreached⟩

/-- After any requests, failed ones among them, and in any arithmetic: the candidates are the
variables of the objective that may enter and have a negative coefficient. None is missing, and none
is out of date. -/
theorem candidates_exact {allowed : Solver α → Request α → Outcome α Reply → Prop}
    (h : Reached allowed vs s) (v : Variable) :
    v ∈ s.tableau.candidates.members ↔ v ∈ s.tableau.objective.vars ∧ v.mayEnter = true ∧
      Scalar.isNeg (s.tableau.objective.coeff v) = true := by
  obtain ⟨V, hs⟩ := h.upheld
  rw [hs.orderly.scouted v]
  unfold Tableau.profitable
  rw [Bool.and_eq_true, Option.any_eq_true]
  constructor
  · rintro ⟨hmay, c, hc, hneg⟩
    rw [coeff_of_get? hc]
    exact ⟨mem_vars_iff.2 ⟨c, hc⟩, hmay, hneg⟩
  · rintro ⟨hmem, hmay, hneg⟩
    exact ⟨hmay, _, get?_of_mem hmem, hneg⟩

/-- A width that would rather be 140 than the 100 that it is. Refusing to have it at most 50 has made
the gap above 100 a candidate, and minimising has not been asked for. -/
theorem candidates_exact_of_refusal :
    ∃ y, replay (fun _ _ _ => true) 9
      [.newVariable false, .add (.compare (.var ⟨0, .free⟩) .atLeast (.const 100)),
        .add ((Constraint.compare (.var ⟨0, .free⟩) .equal (.const 140)).withStrength .weak),
        .add (.compare (.var ⟨0, .free⟩) .atMost (.const 50)),
        .updateStrength ⟨1⟩ .medium] ([], new) = some y ∧
      y.2.tableau.candidates.members = [⟨1, .slack⟩] ∧
      ∀ v, v ∈ y.2.tableau.candidates.members ↔ v ∈ y.2.tableau.objective.vars ∧
        v.mayEnter = true ∧ Scalar.isNeg (y.2.tableau.objective.coeff v) = true := by
  have hrun : (replay (fun _ _ _ => true) 9
      [.newVariable false, .add (.compare (.var ⟨0, .free⟩) .atLeast (.const 100)),
        .add ((Constraint.compare (.var ⟨0, .free⟩) .equal (.const 140)).withStrength .weak),
        .add (.compare (.var ⟨0, .free⟩) .atMost (.const 50)),
        .updateStrength ⟨1⟩ .medium] ([], new)).any (fun y =>
      decide (y.2.tableau.candidates.members = [⟨1, .slack⟩])) = true := by
    decide +kernel
  obtain ⟨y, hy, hcheck⟩ := (Option.any_eq_true _ _).1 hrun
  have hreached : Reached (fun _ _ _ => True) y.1 y.2 :=
    Reached.replay (fun _ _ _ _ => trivial) (.start {}) hy
  exact ⟨y, hy, of_decide_eq_true hcheck, candidates_exact hreached⟩

/-- After any requests, failed ones among them, and in any arithmetic: no row of a restricted variable
mentions a free one, and a free variable is listed with rows of free variables only. -/
theorem free_in_free_rows {allowed : Solver α → Request α → Outcome α Reply → Prop}
    (h : Reached allowed vs s) :
    (∀ b f, s.tableau.row? b = some f → b.isRestricted = true → ∀ v ∈ f.vars, v.role ≠ .free) ∧
      ∀ v, v.role = .free → ∀ b ∈ s.tableau.column v, b.role = .free := by
  obtain ⟨V, hs⟩ := h.upheld
  have hrows : ∀ b f, s.tableau.row? b = some f → b.isRestricted = true →
      ∀ v ∈ f.vars, v.role ≠ .free := by
    intro b f hf hb v hv
    exact Variable.isRestricted_iff.1 (hs.freeApart hf hv hb)
  refine ⟨hrows, fun v hrole b hb => ?_⟩
  obtain ⟨f, hf, hv⟩ := hs.orderly.wellFormed.indexed.mem_column.1 hb
  by_contra hne
  exact hrows b f hf (Variable.isRestricted_iff.2 hne) v hv hrole

/-- Three free variables in a chain. When the constraint of the first two is removed, only free rows
mention its marker, so the first variable gives up its own row; it stays in that of the third, and
out of the restricted one that comes next. -/
theorem free_in_free_rows_of_chain :
    ∃ y, replay (fun _ _ _ => true) 9
      [.newVariable false, .newVariable false, .newVariable false,
        .add (.compare (.var ⟨0, .free⟩) .atLeast (.var ⟨1, .free⟩)),
        .add (.compare (.var ⟨2, .free⟩) .atLeast (.var ⟨0, .free⟩)), .remove ⟨0⟩,
        .add (.compare (.var ⟨2, .free⟩) .atMost ((var ⟨0, .free⟩).shift 5))] ([], new) = some y ∧
      y.2.tableau.rows.keys = [⟨2, .free⟩, ⟨4, .slack⟩] ∧
      y.2.tableau.column ⟨0, .free⟩ = [⟨2, .free⟩] ∧
      (∀ b f, y.2.tableau.row? b = some f → b.isRestricted = true →
        ∀ v ∈ f.vars, v.role ≠ .free) ∧
      ∀ v, v.role = .free → ∀ b ∈ y.2.tableau.column v, b.role = .free := by
  have hrun : (replay (fun _ _ _ => true) 9
      [.newVariable false, .newVariable false, .newVariable false,
        .add (.compare (.var ⟨0, .free⟩) .atLeast (.var ⟨1, .free⟩)),
        .add (.compare (.var ⟨2, .free⟩) .atLeast (.var ⟨0, .free⟩)), .remove ⟨0⟩,
        .add (.compare (.var ⟨2, .free⟩) .atMost ((var ⟨0, .free⟩).shift 5))] ([], new)).any (fun y =>
      decide (y.2.tableau.rows.keys = [⟨2, .free⟩, ⟨4, .slack⟩]) &&
        decide (y.2.tableau.column ⟨0, .free⟩ = [⟨2, .free⟩])) = true := by
    decide +kernel
  obtain ⟨y, hy, hcheck⟩ := (Option.any_eq_true _ _).1 hrun
  rw [Bool.and_eq_true, decide_eq_true_eq, decide_eq_true_eq] at hcheck
  have hreached : Reached (fun _ _ _ => True) y.1 y.2 :=
    Reached.replay (fun _ _ _ _ => trivial) (.start {}) hy
  exact ⟨y, hy, hcheck.1, hcheck.2, free_in_free_rows hreached⟩

end Solver

end SoftSimplex
