import SoftSimplex.Proofs.Upkeep

/-!
# Bookkeeping

What the operations make of the books, whatever they do to the tableau. A constraint is written in
before it is known whether it can be brought in, and struck out again on the way back; so a refused
one leaves the books as they were, but for the numbers that it used up. No number is used twice in a
session, and the constraints stand in the order of theirs. Nothing depends on the arithmetic.
-/

namespace SoftSimplex

namespace Solver

variable {α : Type} {s s' : Solver α} {id : ConstraintId}

/-! ## Names -/

/-- Names in ascending order, all below a bound. -/
def Ascending (bound : Nat) (is : List ConstraintId) : Prop :=
  is.Pairwise (fun i j => i.index < j.index) ∧ ∀ i ∈ is, i.index < bound

theorem ascending_nil (bound : Nat) : Ascending bound [] :=
  ⟨List.Pairwise.nil, fun i hi => by cases hi⟩

theorem Ascending.sublist {bound : Nat} {is js : List ConstraintId} (h : Ascending bound is)
    (hsub : js.Sublist is) : Ascending bound js :=
  ⟨h.1.sublist hsub, fun j hj => h.2 j (hsub.subset hj)⟩

theorem Ascending.append {bound : Nat} {is : List ConstraintId} (h : Ascending bound is) :
    Ascending (bound + 1) (is ++ [⟨bound⟩]) := by
  constructor
  · rw [List.pairwise_append]
    refine ⟨h.1, List.pairwise_singleton _ _, fun i hi j hj => ?_⟩
    rw [List.mem_singleton.1 hj]
    exact h.2 i hi
  · intro i hi
    rcases List.mem_append.1 hi with hi | hi
    · exact Nat.lt_succ_of_lt (h.2 i hi)
    · rw [List.mem_singleton.1 hi]
      exact Nat.lt_succ_self bound

/-- From one solver to the other no name was given out, and none came into the books. -/
structure NoneNamed (s s' : Solver α) : Prop where
  nextId : s'.nextId = s.nextId
  keys : s'.records.keys.Sublist s.records.keys

theorem noneNamed_of_frame (hnext : s'.nextId = s.nextId)
    (hkeys : s'.records.keys = s.records.keys) : s.NoneNamed s' :=
  ⟨hnext, hkeys ▸ List.Sublist.refl _⟩

theorem named?_replying_done (o : Outcome α Unit) :
    Reply.named? (perform.replying (fun _ => Reply.done) o).answer = none := by
  unfold perform.replying
  cases o.answer <;> rfl

theorem named_concat (os : List (Outcome α Reply)) (o : Outcome α Reply) :
    named (os ++ [o]) = named os ++ (Reply.named? o.answer).toList := by
  unfold named
  rw [List.filterMap_append, List.filterMap_cons, List.filterMap_nil]
  cases Reply.named? o.answer <;> rfl

variable [Scalar α] {n : Nat} {o : Outcome α Unit}

theorem NoneNamed.settle {ρ : Type} {o o' : Outcome α ρ} (ho : o.settle n = some o')
    (h : s.NoneNamed o.solver) : s.NoneNamed o'.solver := by
  obtain ⟨t, ht⟩ := solver_of_settle ho
  rw [ht]
  exact ⟨h.nextId, h.keys⟩

theorem noneNamed_retract (s : Solver α) (id : ConstraintId) :
    s.NoneNamed (s.retract id).solver := by
  cases hr : s.record? id with
  | none =>
    rw [retract_of_unknown hr]
    exact noneNamed_of_frame rfl rfl
  | some r =>
    obtain ⟨t, ht⟩ := solver_of_retract hr
    rw [ht]
    exact ⟨rfl, Table.keys_erase_sublist _ _⟩

theorem noneNamed_remove (h : s.remove n id = some o) : s.NoneNamed o.solver := by
  have hback := noneNamed_retract s id
  rcases remove_cases h with ⟨e, -, rfl⟩ | ⟨-, ho⟩
  · exact hback
  · exact NoneNamed.settle ho hback

theorem noneNamed_updateConstant {k : α} (h : s.updateConstant n id k = some o) :
    s.NoneNamed o.solver := by
  rcases updateConstant_cases h with rfl | ⟨r, q, hr, hq, rfl⟩
  · exact noneNamed_of_frame rfl rfl
  · obtain ⟨p, -, hsolver, -⟩ := restore_cases hq
    show s.NoneNamed q.solver
    rw [hsolver]
    exact noneNamed_of_frame rfl (Table.keys_insert_of_get? hr _)

theorem noneNamed_updateStrength {new : Strength α} (h : s.updateStrength n id new = some o) :
    s.NoneNamed o.solver := by
  rcases updateStrength_cases h with ⟨-, rfl⟩ | ⟨log, rfl⟩ | ⟨r, hr, -, ho⟩
  · exact noneNamed_of_frame rfl rfl
  · exact noneNamed_of_frame rfl rfl
  · exact NoneNamed.settle ho (noneNamed_of_frame rfl (Table.keys_insert_of_get? hr _))

/-- Adding uses up the next name, also if it fails. -/
theorem names_of_add {c : Constraint α} {o : Outcome α ConstraintId} (h : s.add n c = some o) :
    o.solver.nextId = s.nextId + 1 ∧
      o.solver.records.keys.Sublist (s.records.keys ++ [⟨s.nextId⟩]) := by
  have hkeys : (s.prepare c).1.records.keys.Sublist (s.records.keys ++ [⟨s.nextId⟩]) :=
    Table.keys_insert_sublist _ _ _
  obtain ⟨supply, t, hsolver | ⟨-, hsolver⟩⟩ := add_ends h
  · rw [hsolver]
    exact ⟨rfl, hkeys⟩
  · rw [hsolver]
    exact ⟨rfl, (Table.keys_erase_sublist _ _).trans hkeys⟩

/-- A request gives out no name, or it adds and gives out the next, if any. -/
theorem names_of_perform {q : Request α} {o : Outcome α Reply} (ho : s.perform n q = some o) :
    s.NoneNamed o.solver ∧ Reply.named? o.answer = none ∨
      o.solver.nextId = s.nextId + 1 ∧
        o.solver.records.keys.Sublist (s.records.keys ++ [⟨s.nextId⟩]) ∧
        ∀ id, Reply.named? o.answer = some id → id = ⟨s.nextId⟩ := by
  cases q with
  | newVariable bounded =>
    cases ho
    exact .inl ⟨noneNamed_of_frame rfl rfl, rfl⟩
  | add c =>
    obtain ⟨p, hp, rfl⟩ := Option.map_eq_some_iff.1 ho
    obtain ⟨hnext, hkeys⟩ := names_of_add hp
    refine .inr ⟨hnext, hkeys, fun id hid => ?_⟩
    unfold perform.replying at hid
    cases hanswer : p.answer with
    | ok i =>
      rw [hanswer] at hid
      cases hid
      exact answer_of_add hp hanswer
    | error e =>
      rw [hanswer] at hid
      cases hid
  | remove id =>
    obtain ⟨p, hp, rfl⟩ := Option.map_eq_some_iff.1 ho
    exact .inl ⟨noneNamed_remove hp, named?_replying_done p⟩
  | updateConstant id k =>
    obtain ⟨p, hp, rfl⟩ := Option.map_eq_some_iff.1 ho
    exact .inl ⟨noneNamed_updateConstant hp, named?_replying_done p⟩
  | updateStrength id new =>
    obtain ⟨p, hp, rfl⟩ := Option.map_eq_some_iff.1 ho
    exact .inl ⟨noneNamed_updateStrength hp, named?_replying_done p⟩
  | solve =>
    obtain ⟨p, hp, rfl⟩ := Option.map_eq_some_iff.1 ho
    obtain ⟨t, ht⟩ := solver_of_solve hp
    refine .inl ⟨?_, named?_replying_done p⟩
    show s.NoneNamed p.solver
    rw [ht]
    exact noneNamed_of_frame rfl rfl
  | reset =>
    cases ho
    exact .inl ⟨⟨rfl, List.nil_sublist _⟩, rfl⟩
  | setAutoSolve b =>
    cases ho
    exact .inl ⟨noneNamed_of_frame rfl rfl, rfl⟩
  | setExplainFailure b =>
    cases ho
    exact .inl ⟨noneNamed_of_frame rfl rfl, rfl⟩

/-- In a session names are given out in ascending order, and the books keep to it. -/
theorem Session.ascending {os : List (Outcome α Reply)} {vs : List Variable} (h : Session os vs s) :
    Ascending s.nextId (named os) ∧ Ascending s.nextId s.records.keys := by
  induction h with
  | start settings => exact ⟨ascending_nil _, ascending_nil _⟩
  | @step os vs s q n o _ _ ho ih =>
    -- a name that was used up for nothing leaves a gap, which does no harm to the order
    obtain ⟨hnamed, hkeys⟩ := ih
    rw [named_concat]
    rcases names_of_perform ho with ⟨hnone, hanswer⟩ | ⟨hnext, hsub, hanswer⟩
    · rw [hanswer, hnone.nextId, Option.toList_none, List.append_nil]
      exact ⟨hnamed, hkeys.sublist hnone.keys⟩
    · rw [hnext]
      refine ⟨hnamed.append.sublist (List.Sublist.append_left ?_ _), hkeys.append.sublist hsub⟩
      cases hid : Reply.named? o.answer with
      | none => exact List.nil_sublist _
      | some id =>
        rw [hanswer id hid]
        exact List.Sublist.refl _

/-! ## The books of a session -/

/-- In any session, with whatever requests failed, and in any arithmetic: names are given out in
ascending order, none of them twice, and the constraints are listed in that order. Exactly the
markers of the constraints are marked, each with the name of its constraint. Two constraints share
no marker or error. An inequality has a slack for its marker, a required equality a dummy, another
equality the first of its errors; there is no error if the constraint is required, else one for an
inequality and two for an equality. -/
theorem books_exact {os : List (Outcome α Reply)} {vs : List Variable} (h : Session os vs s) :
    (named os).Pairwise (fun i j => i.index < j.index) ∧
    (s.constraints.map Prod.fst).Pairwise (fun i j => i.index < j.index) ∧
    (∀ m id, s.markers.get? m = some id ↔ ∃ r, s.record? id = some r ∧ r.marker = m) ∧
    (∀ i j r q, s.record? i = some r → s.record? j = some q → i ≠ j →
      ∀ v ∈ r.marker :: r.errors, v ∉ q.marker :: q.errors) ∧
    ∀ id r, s.record? id = some r →
      (r.constraint.isInequality = true → r.marker.role = .slack) ∧
      (r.constraint.isInequality = false → r.constraint.isRequired = true →
        r.marker.role = .dummy) ∧
      (r.constraint.isInequality = false → r.constraint.isRequired = false →
        r.marker.role = .error ∧ r.errors.head? = some r.marker) ∧
      r.errors.length =
        (if r.constraint.isRequired then 0 else if r.constraint.isInequality then 1 else 2) ∧
      r.errors.Nodup ∧ ∀ e ∈ r.errors, e.role = .error := by
  obtain ⟨⟨hnamed, -⟩, hkeys, -⟩ := h.ascending
  obtain ⟨V, hs⟩ := h.reached.upheld
  have hlisted : s.constraints.map Prod.fst = s.records.keys := by
    unfold constraints Table.keys
    rw [List.map_map]
    rfl
  refine ⟨hnamed, hlisted ▸ hkeys, fun m id => hs.books.marked, ?_, ?_⟩
  · intro i j r q hr hq hne v hv hv'
    exact hne (hs.books.apart hr hq hv hv')
  · intro id r hr
    exact (hs.books.fits hr).described

/-- Make requests one after another and keep what they come to, as long as they speak of the
client's variables. -/
def transcribe (n : Nat) :
    List (Request Rat) → List (Outcome Rat Reply) × List Variable × Solver Rat →
      Option (List (Outcome Rat Reply) × List Variable × Solver Rat)
  | [], x => some x
  | q :: qs, (os, vs, s) =>
    if q.isWithin vs then
      (s.perform n q).bind fun o =>
        transcribe n qs (os ++ [o], vs ++ Reply.clients o.answer, o.solver)
    else none

theorem Session.transcribe {n : Nat} {qs : List (Request Rat)}
    {x y : List (Outcome Rat Reply) × List Variable × Solver Rat} (h : Session x.1 x.2.1 x.2.2)
    (hy : Solver.transcribe n qs x = some y) : Session y.1 y.2.1 y.2.2 := by
  induction qs generalizing x with
  | nil =>
    cases hy
    exact h
  | cons q qs ih =>
    unfold Solver.transcribe at hy
    split at hy
    · next hq =>
      obtain ⟨o, ho, hy⟩ := Option.bind_eq_some_iff.1 hy
      exact ih (h.step (Request.within_of_isWithin hq) ho) hy
    · cases hy

/-- A session with a refused constraint, a removal and a reset. Of seven names that were used up one
was not given out, and the last four are in the books: an inequality, two preferences, an
equality. -/
theorem books_exact_of_reset :
    ∃ y, transcribe 9
      [.newVariable false, .add (.compare (.var ⟨0, .free⟩) .atLeast (.const 100)),
        .add (.compare (.var ⟨0, .free⟩) .atMost (.const 50)), .remove ⟨0⟩,
        .add (.compare (.var ⟨0, .free⟩) .equal (.const 7)), .reset,
        .add (.compare (.var ⟨0, .free⟩) .atLeast (.const 1)),
        .add ((Constraint.compare (.var ⟨0, .free⟩) .equal (.const 9)).withStrength .weak),
        .add ((Constraint.compare (.var ⟨0, .free⟩) .atMost (.const 5)).withStrength .medium),
        .add (.compare (.var ⟨0, .free⟩) .equal (.const 2)), .updateStrength ⟨4⟩ .required]
      ([], [], new) = some y ∧
      (named y.1 = [⟨0⟩, ⟨2⟩, ⟨3⟩, ⟨4⟩, ⟨5⟩, ⟨6⟩] ∧
        y.2.2.constraints.map Prod.fst = [⟨3⟩, ⟨4⟩, ⟨5⟩, ⟨6⟩] ∧
        y.2.2.records.entries.map (fun e => (e.2.marker, e.2.errors)) =
          [(⟨5, .slack⟩, []), (⟨6, .error⟩, [⟨6, .error⟩, ⟨7, .error⟩]),
            (⟨8, .slack⟩, [⟨9, .error⟩]), (⟨10, .dummy⟩, [])]) ∧
      (named y.1).Pairwise (fun i j => i.index < j.index) ∧
      (y.2.2.constraints.map Prod.fst).Pairwise (fun i j => i.index < j.index) ∧
      (∀ m id, y.2.2.markers.get? m = some id ↔ ∃ r, y.2.2.record? id = some r ∧ r.marker = m) ∧
      (∀ i j r q, y.2.2.record? i = some r → y.2.2.record? j = some q → i ≠ j →
        ∀ v ∈ r.marker :: r.errors, v ∉ q.marker :: q.errors) ∧
      ∀ id r, y.2.2.record? id = some r →
        (r.constraint.isInequality = true → r.marker.role = .slack) ∧
        (r.constraint.isInequality = false → r.constraint.isRequired = true →
          r.marker.role = .dummy) ∧
        (r.constraint.isInequality = false → r.constraint.isRequired = false →
          r.marker.role = .error ∧ r.errors.head? = some r.marker) ∧
        r.errors.length =
          (if r.constraint.isRequired then 0 else if r.constraint.isInequality then 1 else 2) ∧
        r.errors.Nodup ∧ ∀ e ∈ r.errors, e.role = .error := by
  have hrun : (transcribe 9
      [.newVariable false, .add (.compare (.var ⟨0, .free⟩) .atLeast (.const 100)),
        .add (.compare (.var ⟨0, .free⟩) .atMost (.const 50)), .remove ⟨0⟩,
        .add (.compare (.var ⟨0, .free⟩) .equal (.const 7)), .reset,
        .add (.compare (.var ⟨0, .free⟩) .atLeast (.const 1)),
        .add ((Constraint.compare (.var ⟨0, .free⟩) .equal (.const 9)).withStrength .weak),
        .add ((Constraint.compare (.var ⟨0, .free⟩) .atMost (.const 5)).withStrength .medium),
        .add (.compare (.var ⟨0, .free⟩) .equal (.const 2)), .updateStrength ⟨4⟩ .required]
      ([], [], new)).any (fun y => decide
        (named y.1 = [⟨0⟩, ⟨2⟩, ⟨3⟩, ⟨4⟩, ⟨5⟩, ⟨6⟩] ∧
          y.2.2.constraints.map Prod.fst = [⟨3⟩, ⟨4⟩, ⟨5⟩, ⟨6⟩] ∧
          y.2.2.records.entries.map (fun e => (e.2.marker, e.2.errors)) =
            [(⟨5, .slack⟩, []), (⟨6, .error⟩, [⟨6, .error⟩, ⟨7, .error⟩]),
              (⟨8, .slack⟩, [⟨9, .error⟩]), (⟨10, .dummy⟩, [])])) = true := by
    decide +kernel
  obtain ⟨y, hy, hcheck⟩ := (Option.any_eq_true _ _).1 hrun
  exact ⟨y, hy, of_decide_eq_true hcheck, books_exact (Session.transcribe (.start {}) hy)⟩

end Solver

end SoftSimplex
