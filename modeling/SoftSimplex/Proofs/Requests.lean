import SoftSimplex.Proofs.Admission

/-!
# Every request

Each request leaves a sound solver sound, whether it succeeds or fails. A tableau without negative
restricted rows stays that way too, unless a repair fails; and what a repair that fails leaves is
still sound.
-/

namespace SoftSimplex

open LinearForm

/-- How a request may change a record: a constant moves, a strength changes, or the record is
new. -/
def Request.Turns (q : Request Rat) (id : ConstraintId) (old : Option (Record Rat))
    (new : Record Rat) : Prop :=
  match q with
  | .add c => new.constraint = c
  | .updateConstant i k => i = id ∧
    ∃ p, old = some p ∧ new = { p with constraint := p.constraint.withRightSide k }
  | .updateStrength i w => i = id ∧
    ∃ p, old = some p ∧ w.isRequired = p.constraint.isRequired ∧
      new = { p with constraint := p.constraint.withStrength w }
  | _ => False

def Request.isWithin (vs : List Variable) : Request Rat → Bool
  | .add c => c.form.vars.all fun v => decide (v ∈ vs)
  | _ => true

theorem Request.within_of_isWithin {vs : List Variable} {q : Request Rat}
    (h : q.isWithin vs = true) : q.Within vs := by
  cases q with
  | add c =>
    intro v hv
    exact of_decide_eq_true (List.all_eq_true.1 h v hv)
  | _ => trivial

def Outcome.isRepaired {ρ : Type} (o : Outcome Rat ρ) : Bool :=
  o.log.all fun e => match e with
    | .repairFailed _ => false
    | _ => true

theorem Outcome.repaired_of_isRepaired {ρ : Type} {o : Outcome Rat ρ} (h : o.isRepaired = true) :
    o.Repaired := by
  intro f hf
  have hno := List.all_eq_true.1 h _ hf
  cases hno

theorem Outcome.exists_repairFailed {ρ : Type} {o : Outcome Rat ρ} (h : o.isRepaired = false) :
    ∃ f, .repairFailed f ∈ o.log := by
  unfold isRepaired at h
  obtain ⟨e, he, htest⟩ := List.all_eq_false.1 h
  cases e with
  | repairFailed f => exact ⟨f, he⟩
  | _ => exact absurd rfl htest

namespace Solver

variable {V : Variable → Prop} {vs : List Variable} {s : Solver Rat} {id : ConstraintId}
variable {r : Record Rat} {n : Nat}

/-! ## Sessions -/

/-- Make the requests one after the other, as long as each is the client's to make and passes the
test `ok`; each may take `n` exchanges for a pass. -/
def replay (ok : Solver Rat → Request Rat → Outcome Rat Reply → Bool) (n : Nat) :
    List (Request Rat) → List Variable × Solver Rat → Option (List Variable × Solver Rat)
  | [], x => some x
  | q :: qs, x =>
    match x.2.perform n q with
    | some o =>
      if q.isWithin x.1 && ok x.2 q o then replay ok n qs (x.1 ++ Reply.clients o.answer, o.solver)
      else none
    | none => none

/-- A session that passes its tests is a history. -/
theorem Reached.replay {ok : Solver Rat → Request Rat → Outcome Rat Reply → Bool}
    {allowed : Solver Rat → Request Rat → Outcome Rat Reply → Prop}
    (hok : ∀ s q o, ok s q o = true → allowed s q o) {qs : List (Request Rat)}
    {x y : List Variable × Solver Rat} (h : Reached allowed x.1 x.2)
    (hy : Solver.replay ok n qs x = some y) : Reached allowed y.1 y.2 := by
  induction qs generalizing x with
  | nil =>
    cases hy
    exact h
  | cons q qs ih =>
    unfold Solver.replay at hy
    cases hp : x.2.perform n q with
    | none => simp [hp] at hy
    | some o =>
      simp only [hp] at hy
      split at hy
      · next htest =>
        rw [Bool.and_eq_true] at htest
        exact ih (h.step (Request.within_of_isWithin htest.1) hp (hok _ _ _ htest.2)) hy
      · cases hy

/-- So is one of a new solver in which no repair fails. -/
theorem Reached.of_repaired {qs : List (Request Rat)} {y : List Variable × Solver Rat}
    (hy : Solver.replay (fun _ _ o => o.isRepaired) n qs ([], new) = some y) :
    Reached (fun _ _ o => o.Repaired) y.1 y.2 :=
  .replay (fun _ _ _ => Outcome.repaired_of_isRepaired) (.start {}) hy

/-! ## Minimising -/

theorem Sound.solve (h : s.Sound V vs) {o : Outcome Rat Unit} (ho : s.solve n = some o) :
    o.solver.Sound V vs ∧ (s.tableau.Feasible → o.solver.tableau.Feasible) ∧
      o.solver.records = s.records ∧
      (o.answer = .ok () ∧ o.solver.tableau.candidates.members = [] ∨
        o.answer = .error .unbounded) := by
  obtain ⟨p, hp, rfl⟩ := solve_cases ho
  have hmeets := h.stands.tidy.minimize_meets h.books.issued.numbered hp
  have hanswer : (s.afterPass p).answer = p.ending := rfl
  rw [hanswer]
  unfold Pass.Meets at hmeets
  cases hend : p.ending with
  | ok _ =>
    rw [hend] at hmeets
    exact ⟨h.keeps hmeets.1.toKeeps, hmeets.1.feasible, rfl, .inl ⟨rfl, hmeets.2⟩⟩
  | error e =>
    rw [hend] at hmeets
    rw [hmeets.2]
    exact ⟨h.keeps hmeets.1.toKeeps, hmeets.1.feasible, rfl, .inr rfl⟩

/-- Minimising on top of an operation adds no failure but that of minimising. -/
theorem settle_sound {ρ : Type} {o o' : Outcome Rat ρ} (ho : o.settle n = some o')
    (h : o.solver.Sound V vs) :
    o'.solver.Sound V vs ∧ (o.solver.tableau.Feasible → o'.solver.tableau.Feasible) ∧
      o'.solver.records = o.solver.records ∧
      (o'.answer = o.answer ∨ o'.answer = .error .unbounded) := by
  rcases o.settle_cases ho with rfl | ⟨q, hq, hsolver, hanswer⟩
  · exact ⟨h, fun hf => hf, rfl, .inl rfl⟩
  · obtain ⟨hsound, hf, hrecords, hsolved⟩ := h.solve hq
    rw [hsolver]
    refine ⟨hsound, hf, hrecords, ?_⟩
    rcases hanswer with ⟨-, hsame⟩ | ⟨e, he, he'⟩
    · exact .inl hsame
    · rcases hsolved with ⟨hok, -⟩ | herror
      · rw [he] at hok
        cases hok
      · rw [he, Except.error.injEq] at herror
        exact .inr (he'.trans (congrArg Except.error herror))

/-! ## Adding and removing -/

theorem Sound.add (h : s.Sound V vs) {c : Constraint Rat} (hc : ∀ v ∈ c.form.vars, v ∈ vs)
    {o : Outcome Rat ConstraintId} (ho : s.add n c = some o) :
    ∃ W, o.solver.Sound W vs ∧ (s.tableau.Feasible → o.solver.tableau.Feasible) ∧
      ∀ i q, o.solver.record? i = some q → s.record? i = some q ∨ q.constraint = c := by
  obtain ⟨q, hq, ho⟩ := add_cases ho
  obtain ⟨W, hsound, hf, hrecord⟩ := (h.prepare hc).bringIn hq
  obtain ⟨hsound', hf', hrecords, -⟩ := settle_sound ho hsound
  refine ⟨W, hsound', fun hs => hf' (hf ?_), fun i p hp => ?_⟩
  · exact hs.of_rows fun b => row?_addCosts _ _ _ _
  · rw [record?_congr hrecords] at hp
    rcases (record?_insert_iff rfl).1 (hrecord i p hp) with ⟨-, rfl⟩ | ⟨-, hp⟩
    · exact .inr rfl
    · exact .inl hp

/-- A constraint in the books can be taken out of the tableau. -/
theorem Sound.retract (h : s.Sound V vs) (hr : s.record? id = some r) :
    (s.retract id).answer = .ok () ∧ (s.retract id).solver.Sound V vs ∧
      (s.retract id).solver.records = s.records.erase id ∧
      (s.tableau.Feasible → (s.retract id).solver.tableau.Feasible) :=
  h.books.retract hr (.inl (h.stands.congr (fun _ => balanced_iff_but hr) fun _ => rfl))

/-- A removal that is not of an unknown constraint takes the constraint out. -/
theorem Sound.remove_cases (h : s.Sound V vs) {o : Outcome Rat Unit}
    (ho : s.remove n id = some o) :
    s.record? id = none ∧ o = ⟨s, [], .error (.unknownConstraint id)⟩ ∨
      ∃ r, s.record? id = some r ∧
        Outcome.settle n ⟨(s.retract id).solver, (s.retract id).log ++ [.removed id], .ok ()⟩ =
          some o := by
  cases hr : s.record? id with
  | none =>
    rcases Solver.remove_cases ho with ⟨-, -, rfl⟩ | ⟨hok, -⟩
    · exact .inl ⟨rfl, retract_of_unknown hr⟩
    · rw [retract_of_unknown hr] at hok
      cases hok
  | some r =>
    rcases Solver.remove_cases ho with ⟨e, he, -⟩ | ⟨-, ho⟩
    · rw [(h.retract hr).1] at he
      cases he
    · exact .inr ⟨r, rfl, ho⟩

theorem Sound.remove (h : s.Sound V vs) {o : Outcome Rat Unit} (ho : s.remove n id = some o) :
    o.solver.Sound V vs ∧ (s.tableau.Feasible → o.solver.tableau.Feasible) ∧
      ∀ i q, o.solver.record? i = some q → s.record? i = some q := by
  rcases h.remove_cases ho with ⟨-, rfl⟩ | ⟨r, hr, ho⟩
  · exact ⟨h, fun hf => hf, fun _ _ hq => hq⟩
  · obtain ⟨-, hsound, herase, hf⟩ := h.retract hr
    obtain ⟨hsound', hf', hrecords, -⟩ := settle_sound ho hsound
    refine ⟨hsound', fun hs => hf' (hf hs), fun i q hq => ?_⟩
    exact ((record?_erase_iff (hrecords.trans herase)).1 hq).2

/-! ## Editing -/

/-- Repairing what moved constants left: no restricted row stays negative unless a failure is told,
and one that is told is for a row that nothing can raise. -/
theorem Sound.restore (h : s.Sound V vs) {o : Outcome Rat Unit} (ho : s.restore n = some o) :
    o.solver.Sound V vs ∧ o.solver.records = s.records ∧
      (s.tableau.Watched → o.solver.tableau.Feasible ∨ ¬o.Repaired) ∧
      ∀ f, .repairFailed f ∈ o.log → f = .fault .noRepair ∧ o.solver.tableau.Stuck := by
  obtain ⟨p, hp, hsolver, -, hlog⟩ := restore_cases ho
  have hmeets := h.stands.tidy.repair_meets h.books.issued.numbered hp
  have hk : Tableau.Keeps V s.tableau p.tableau.clearQueue := by
    have hk := hmeets.tableau (fun _ hu => hu.1) fun _ _ hu => hu.1.1
    apply hk.trans (hk.tidy.keeps_withQueue _)
    intro b hb
    cases hb
  rw [hsolver]
  refine ⟨h.keeps hk, rfl, ?_⟩
  unfold Pass.Meets at hmeets
  cases hend : p.ending with
  | ok _ =>
    rw [hend] at hmeets
    refine ⟨fun hw => .inl (hmeets.2 hw), fun f hf => ?_⟩
    rw [hlog, hend] at hf
    cases hf
  | error e =>
    rw [hend] at hmeets
    refine ⟨fun _ => .inr fun hrep => hrep e ((hlog e).2 hend), fun f hf => ?_⟩
    rw [hlog, hend, Except.error.injEq] at hf
    exact ⟨hf ▸ hmeets.2, hmeets.1.2⟩

/-- A marker that costs something, as an error does, costs that much more or less where it
moves. -/
theorem penalty_shift (hb : s.Books V vs) (hr : s.record? id = some r) (δ : Rat)
    (σ : Assignment Rat) : s.penalty σ =
      s.penalty (Function.update σ r.marker (σ r.marker - δ)) + r.markerCost * δ := by
  have hsplit : ∀ τ : Assignment Rat, s.penalty τ = (s.strike id r).penalty τ + r.penalty τ := by
    intro τ
    rw [penalty_erase (s.strike id r) hr rfl]
    exact (sub_add_cancel _ _).symm
  rw [hsplit, hsplit, hb.penalty_strike hr r.marker_mem_own,
    (hb.proper hr).penalty_update_marker]
  ring

/-- Moving the constant of a constraint in the books and in the tableau. -/
theorem Sound.shift (h : s.Sound V vs) (hr : s.record? id = some r) (k : Rat) :
    (s.shifted id r k).Sound V vs := by
  set δ := r.constraint.constantFor k - r.constraint.form.constant with hδ
  set q : Record Rat := { r with constraint := r.constraint.withRightSide k } with hq
  set s' := s.shifted id r k with hs'
  have hproper := h.books.proper hr
  have hm := r.marker_mem_own
  refine ⟨h.books.edit hr (c := r.constraint.withRightSide k) rfl rfl rfl rfl rfl rfl rfl, ?_⟩
  apply (h.stands.shiftConstant (hproper.own_restricted hm) δ (penalty_shift h.books hr δ)).congr
  · intro σ
    rw [balanced_insert_iff s' id q (s := s) rfl, balanced_iff_but hr,
      h.books.balancedBut_update_iff hr hm, hq, hproper.balanced_withRightSide]
  · intro σ
    rw [penalty_insert s' id q (s := s) rfl, hr]
    exact add_sub_cancel_right _ _

theorem Sound.updateConstant (h : s.Sound V vs) {k : Rat} {o : Outcome Rat Unit}
    (ho : s.updateConstant n id k = some o) :
    o.solver.Sound V vs ∧
      (s.tableau.Feasible → o.solver.tableau.Feasible ∨ ¬o.Repaired) ∧
      (∀ i q, o.solver.record? i = some q → s.record? i = some q ∨
        (Request.updateConstant id k).Turns i (s.record? i) q) ∧
      ∀ f, .repairFailed f ∈ o.log → f = .fault .noRepair ∧ o.solver.tableau.Stuck := by
  rcases updateConstant_cases ho with rfl | ⟨r, q, hr, hq, rfl⟩
  · exact ⟨h, .inl, fun _ _ hp => .inl hp, fun _ hf => nomatch hf⟩
  · obtain ⟨hsound, hrecords, hf, hfail⟩ := (h.shift hr k).restore hq
    refine ⟨hsound, fun hs => (hf ?_).imp_right ?_, ?_, fun f hf => ?_⟩
    · exact hs.watched_shiftConstant ((h.books.proper hr).own_restricted r.marker_mem_own) _
    · exact fun hnot hrep => hnot fun e he => hrep e (List.mem_cons_of_mem _ he)
    · intro i p hp
      rcases (record?_insert_iff hrecords).1 hp with ⟨rfl, rfl⟩ | ⟨-, hp⟩
      · exact .inr ⟨rfl, r, hr, rfl⟩
      · exact .inl hp
    · exact hfail f ((List.mem_cons.1 hf).resolve_left fun he => nomatch he)

/-- Changing a strength in the books and in the objective. -/
theorem Sound.reweigh (h : s.Sound V vs) (hr : s.record? id = some r) {new : Strength Rat}
    (hreq : new.isRequired = r.constraint.isRequired) : (s.reweighed id r new).Sound V vs := by
  set q : Record Rat := { r with constraint := r.constraint.withStrength new } with hq
  set s' := s.reweighed id r new with hs'
  refine ⟨h.books.edit hr (c := r.constraint.withStrength new) rfl rfl hreq rfl rfl rfl rfl, ?_⟩
  have hadd := stands_addCosts h.books.issued.numbered h.stands
    (new.weight - r.constraint.strength.weight) r.errors
    fun e he => h.books.own hr e (Record.error_mem_own he)
  apply hadd.congr
  · intro σ
    rw [balanced_insert_iff s' id q (s := s) rfl, balanced_iff_but hr, hq,
      Record.balanced_withStrength hreq]
  · intro σ
    rw [penalty_insert s' id q (s := s) rfl, hr]
    show s.penalty σ + new.weight * (r.errors.map σ).sum -
      r.constraint.strength.weight * (r.errors.map σ).sum = _
    ring

theorem Sound.updateStrength (h : s.Sound V vs) {new : Strength Rat} {o : Outcome Rat Unit}
    (ho : s.updateStrength n id new = some o) :
    o.solver.Sound V vs ∧ (s.tableau.Feasible → o.solver.tableau.Feasible) ∧
      ∀ i q, o.solver.record? i = some q → s.record? i = some q ∨ i = id ∧
        ∃ p, s.record? i = some p ∧ new.isRequired = p.constraint.isRequired ∧
          q = { p with constraint := p.constraint.withStrength new } := by
  rcases updateStrength_cases ho with ⟨-, rfl⟩ | ⟨log, rfl⟩ | ⟨r, hr, hreq, ho⟩
  · exact ⟨h, fun hf => hf, fun _ _ hq => .inl hq⟩
  · exact ⟨h, fun hf => hf, fun _ _ hq => .inl hq⟩
  · obtain ⟨hsound, hf, hrecords, -⟩ := settle_sound ho (h.reweigh hr hreq)
    refine ⟨hsound, fun hs => hf ?_, fun i p hp => ?_⟩
    · exact hs.of_rows fun b => row?_addCosts _ _ _ _
    · rcases (record?_insert_iff hrecords).1 hp with ⟨rfl, rfl⟩ | ⟨-, hp⟩
      · exact .inr ⟨rfl, r, hr, hreq, rfl⟩
      · exact .inl hp

/-! ## Any request -/

/-- A request leaves a sound solver, and a feasible one if it repairs what it moves. It changes
records in its own way only. -/
theorem Sound.perform (h : s.Sound V vs) {q : Request Rat} (hq : q.Within vs)
    {o : Outcome Rat Reply} (ho : s.perform n q = some o) :
    ∃ W, o.solver.Sound W (vs ++ Reply.clients o.answer) ∧
      (s.tableau.Feasible → o.solver.tableau.Feasible ∨
        ¬o.Repaired ∧ ∃ id k, q = .updateConstant id k) ∧
      ∀ i r, o.solver.record? i = some r →
        s.record? i = some r ∨ q.Turns i (s.record? i) r := by
  cases q with
  | newVariable bounded =>
    cases ho
    exact ⟨_, h.newVariable bounded, .inl, fun _ _ hr => .inl hr⟩
  | add c =>
    obtain ⟨p, hp, rfl⟩ := Option.map_eq_some_iff.1 ho
    obtain ⟨W, hsound, hf, hrecords⟩ := h.add hq hp
    rw [append_clients_replying fun _ => rfl]
    exact ⟨W, hsound, fun hs => .inl (hf hs), hrecords⟩
  | remove id =>
    obtain ⟨p, hp, rfl⟩ := Option.map_eq_some_iff.1 ho
    obtain ⟨hsound, hf, hrecords⟩ := h.remove hp
    rw [append_clients_replying fun _ => rfl]
    exact ⟨V, hsound, fun hs => .inl (hf hs), fun i r hr => .inl (hrecords i r hr)⟩
  | updateConstant id k =>
    obtain ⟨p, hp, rfl⟩ := Option.map_eq_some_iff.1 ho
    obtain ⟨hsound, hf, hrecords, -⟩ := h.updateConstant hp
    rw [append_clients_replying fun _ => rfl]
    exact ⟨V, hsound, fun hs => (hf hs).imp_right fun hnot => ⟨hnot, id, k, rfl⟩, hrecords⟩
  | updateStrength id new =>
    obtain ⟨p, hp, rfl⟩ := Option.map_eq_some_iff.1 ho
    obtain ⟨hsound, hf, hrecords⟩ := h.updateStrength hp
    rw [append_clients_replying fun _ => rfl]
    refine ⟨V, hsound, fun hs => .inl (hf hs), fun i r hr => (hrecords i r hr).imp_right ?_⟩
    rintro ⟨rfl, p, hp, hreq, rfl⟩
    exact ⟨rfl, p, hp, hreq, rfl⟩
  | solve =>
    obtain ⟨p, hp, rfl⟩ := Option.map_eq_some_iff.1 ho
    obtain ⟨hsound, hf, hrecords, -⟩ := h.solve hp
    rw [append_clients_replying fun _ => rfl]
    refine ⟨V, hsound, fun hs => .inl (hf hs), fun i r hr => .inl ?_⟩
    rw [← record?_congr hrecords]
    exact hr
  | reset =>
    cases ho
    rw [append_clients_replying fun _ => rfl]
    refine ⟨V, h.reset, fun _ => .inl Tableau.feasible_empty, fun i r hr => ?_⟩
    cases hr
  | setAutoSolve b =>
    cases ho
    refine ⟨V, ?_, .inl, fun _ _ hr => .inl hr⟩
    show (s.setAutoSolve b).Sound V (vs ++ [])
    rw [List.append_nil]
    exact h.of_frame rfl rfl rfl rfl rfl
  | setExplainFailure b =>
    cases ho
    refine ⟨V, ?_, .inl, fun _ _ hr => .inl hr⟩
    show (s.setExplainFailure b).Sound V (vs ++ [])
    rw [List.append_nil]
    exact h.of_frame rfl rfl rfl rfl rfl

/-- Every solver that a client can get to is sound. -/
theorem Reached.sound {allowed : Solver Rat → Request Rat → Outcome Rat Reply → Prop}
    (h : Reached allowed vs s) : ∃ V, s.Sound V vs := by
  induction h with
  | start settings => exact ⟨_, sound_start settings⟩
  | step _ hq ho _ ih =>
    obtain ⟨V, hsound⟩ := ih
    obtain ⟨W, hsound', -⟩ := hsound.perform hq ho
    exact ⟨W, hsound'⟩

/-- The tableau stands for the constraints and for nothing else: after any requests, failed ones
and failed repairs among them, an assignment gives every basic variable the value of its row if and
only if it balances every record. -/
theorem solves_iff_balanced {allowed : Solver Rat → Request Rat → Outcome Rat Reply → Prop}
    (h : Reached allowed vs s) (σ : Assignment Rat) : s.tableau.Solves σ ↔ s.Balanced σ := by
  obtain ⟨V, hsound⟩ := h.sound
  exact hsound.stands.solves σ

/-- A session with a bound, a preference against it and a removal: its tableau stands for the
preference alone. -/
theorem balanced_of_session :
    ∃ y, replay (fun _ _ _ => true) 9
      [.newVariable false, .add (.compare (.var ⟨0, .free⟩) .atLeast (.const 100)),
        .add ((Constraint.compare (.var ⟨0, .free⟩) .equal (.const 40)).withStrength .weak),
        .remove ⟨0⟩] ([], new) = some y ∧
      y.2.size = 1 ∧ ∀ σ, y.2.tableau.Solves σ ↔ y.2.Balanced σ := by
  have hrun : (replay (fun _ _ _ => true) 9
      [.newVariable false, .add (.compare (.var ⟨0, .free⟩) .atLeast (.const 100)),
        .add ((Constraint.compare (.var ⟨0, .free⟩) .equal (.const 40)).withStrength .weak),
        .remove ⟨0⟩] ([], new)).any (fun y => decide (y.2.size = 1)) = true := by
    decide +kernel
  obtain ⟨y, hy, hsize⟩ := (Option.any_eq_true _ _).1 hrun
  have hreached : Reached (fun _ _ _ => True) y.1 y.2 :=
    Reached.replay (fun _ _ _ _ => trivial) (.start {}) hy
  exact ⟨y, hy, of_decide_eq_true hsize, solves_iff_balanced hreached⟩

/-- As long as no repair failed, no restricted row is negative. -/
theorem Reached.feasible {allowed : Solver Rat → Request Rat → Outcome Rat Reply → Prop}
    (hallowed : ∀ s q o, allowed s q o → o.Repaired) (h : Reached allowed vs s) :
    s.tableau.Feasible := by
  induction h with
  | start settings => exact Tableau.feasible_empty
  | step hprev hq ho hok ih =>
    obtain ⟨V, hsound⟩ := hprev.sound
    obtain ⟨W, -, hf, -⟩ := hsound.perform hq ho
    exact (hf ih).resolve_right fun hstuck => hstuck.1 (hallowed _ _ _ hok)

/-- The values a client reads are those of the point. -/
theorem value_eq_point (s : Solver Rat) : s.value = s.tableau.point := by
  funext v
  unfold value value?
  cases hv : s.tableau.row? v with
  | some f => exact (Tableau.point_of_basic hv).symm
  | none =>
    rw [Tableau.point_of_nonbasic hv]
    show (if _ then some (0 : Rat) else none).getD 0 = 0
    split <;> rfl

theorem value_nonneg_of_bounded (hf : s.tableau.Feasible) {v : Variable} (hrole : v.role = .bounded) :
    0 ≤ s.value v := by
  rw [value_eq_point]
  apply hf.point_nonneg
  unfold Variable.isRestricted
  rw [hrole]
  rfl

/-- As long as no repair failed, a restricted variable with a row is not negative, and neither is
any client variable that is bounded. This is so after refused constraints too. -/
theorem restricted_nonneg (h : Reached (fun _ _ o => o.Repaired) vs s) :
    (∀ b f, s.tableau.row? b = some f → b.isRestricted = true → 0 ≤ f.constant) ∧
      ∀ v ∈ vs, v.role = .bounded → 0 ≤ s.value v := by
  have hf := h.feasible fun _ _ _ hok => hok
  exact ⟨fun b f hrow hr => hf hrow hr, fun v _ hrole => value_nonneg_of_bounded hf hrole⟩

/-- Two bounded widths that share at least 100. Letting the second have at most 50 takes a repair,
after which the first has more than the 40 that it would rather have. -/
theorem restricted_nonneg_of_widths :
    ∃ y, replay (fun _ _ o => o.isRepaired) 9
      [.newVariable true, .newVariable true,
        .add (.compare ((var ⟨0, .bounded⟩).addScaled (var ⟨1, .bounded⟩) 1) .atLeast (.const 100)),
        .add ((Constraint.compare (var ⟨0, .bounded⟩) .equal (.const 40)).withStrength .weak),
        .add (.compare (var ⟨1, .bounded⟩) .atMost (.const 200)), .solve,
        .updateConstant ⟨2⟩ 50] ([], new) = some y ∧
      y.1 = [⟨0, .bounded⟩, ⟨1, .bounded⟩] ∧ y.2.value ⟨0, .bounded⟩ = 50 ∧
      (∀ b f, y.2.tableau.row? b = some f → b.isRestricted = true → 0 ≤ f.constant) ∧
      0 ≤ y.2.value ⟨1, .bounded⟩ := by
  have hrun : (replay (fun _ _ o => o.isRepaired) 9
      [.newVariable true, .newVariable true,
        .add (.compare ((var ⟨0, .bounded⟩).addScaled (var ⟨1, .bounded⟩) 1) .atLeast (.const 100)),
        .add ((Constraint.compare (var ⟨0, .bounded⟩) .equal (.const 40)).withStrength .weak),
        .add (.compare (var ⟨1, .bounded⟩) .atMost (.const 200)), .solve,
        .updateConstant ⟨2⟩ 50] ([], new)).any (fun y =>
      decide (y.1 = [⟨0, .bounded⟩, ⟨1, .bounded⟩]) &&
        decide (y.2.value ⟨0, .bounded⟩ = 50)) = true := by
    decide +kernel
  obtain ⟨y, hy, hcheck⟩ := (Option.any_eq_true _ _).1 hrun
  rw [Bool.and_eq_true, decide_eq_true_eq, decide_eq_true_eq] at hcheck
  have hreached : Reached (fun _ _ o => o.Repaired) y.1 y.2 :=
    Reached.replay (fun _ _ _ htest => Outcome.repaired_of_isRepaired htest) (.start {}) hy
  obtain ⟨hrows, hclients⟩ := restricted_nonneg hreached
  exact ⟨y, hy, hcheck.1, hcheck.2, hrows, hclients _ (by simp [hcheck.1]) rfl⟩

end Solver

end SoftSimplex
