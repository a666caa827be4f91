import SoftSimplex.Proofs.RenamedSolvers

/-!
# Histories of a renamed solver

A renaming that suits a solver goes on to suit it from request to request, as long as no more
constraints are named than it has been made for. So every sequence of requests comes to the renamed
outcomes.
-/

namespace SoftSimplex

variable {α : Type}

/-- Whether a renaming suits a solver that is to name at most `n` more constraints: the variables go
on by one, and these constraints and all that were named before are shifted by `m`. -/
structure Renaming.Suits (ρ : Renaming) (m : Nat) (s : Solver α) (n : Nat) : Prop where
  steady : ρ.vars.Steady s.supply.drawn
  shift : ∀ i, i ≤ s.nextId + n → ρ.ids ⟨i⟩ = ⟨i + m⟩
  marked : ∀ v id, s.markers.get? v = some id → id.index < s.nextId

theorem Supply.drawn_draw_le [Scalar α] (s : Supply) (c : Constraint α) :
    s.drawn ≤ (Auxiliaries.draw s c).2.drawn := by
  unfold Auxiliaries.draw
  split
  · split <;> simp [Supply.advance]; omega
  · split <;> simp [Supply.advance]; omega

namespace Renaming.Suits

variable {ρ : Renaming} {m n : Nat} {s : Solver α}

theorem orders (h : ρ.Suits m s n) : ρ.Orders s := by
  intro v w i j hi hj
  have hlt := h.marked v i hi
  have hlt' := h.marked w j hj
  have hshift : ρ.ids i = ⟨i.index + m⟩ := h.shift i.index (by omega)
  have hshift' : ρ.ids j = ⟨j.index + m⟩ := h.shift j.index (by omega)
  rw [hshift, hshift']
  exact Nat.add_le_add_iff_right

theorem prepare [Scalar α] (h : ρ.Suits m s (n + 1)) (c : Constraint α) : ρ.Suits m (s.prepare c).1 n where
  steady k hk := h.steady k ((s.supply.drawn_draw_le c).trans hk)
  shift i hi := h.shift i (by
    have hnext : (s.prepare c).1.nextId = s.nextId + 1 := rfl
    omega)
  marked v id hid := by
    show id.index < s.nextId + 1
    have hmarkers : (s.prepare c).1.markers =
        s.markers.insert (Auxiliaries.draw s.supply c).1.marker ⟨s.nextId⟩ := rfl
    rw [hmarkers, Table.get?_insert] at hid
    split at hid
    · cases hid
      exact Nat.lt_succ_self _
    · exact (h.marked v id hid).trans (Nat.lt_succ_self _)

theorem next (h : ρ.Suits m s (n + 1)) :
    (ρ.ids ⟨s.nextId + 1⟩).index = (ρ.ids ⟨s.nextId⟩).index + 1 := by
  rw [h.shift _ (by omega), h.shift _ (by omega)]
  show s.nextId + 1 + m = s.nextId + m + 1
  omega

end Renaming.Suits

namespace Solver

variable [Scalar α] {ρ : Renaming} {m n : Nat} {s : Solver α}

theorem add_rename (h : ρ.Suits m s (n + 1)) (budget : Nat) (c : Constraint α) :
    (s.rename ρ).add budget (c.rename ρ.vars) =
      (s.add budget c).map (Outcome.rename ρ ρ.ids) := by
  have hbringIn := bringIn_rename ρ (h.prepare c).orders (h.prepare c).steady budget ⟨s.nextId⟩
    (s.prepare c).2
  have hid : (⟨(s.rename ρ).nextId⟩ : ConstraintId) = ρ.ids ⟨s.nextId⟩ := rfl
  unfold add
  simp only [hid, prepare_rename ρ h.steady h.next, Prod.map_fst, Prod.map_snd]
  simp only [hbringIn]
  cases (s.prepare c).1.bringIn budget ⟨s.nextId⟩ (s.prepare c).2 with
  | none => rfl
  | some o =>
    simp only [Option.map_some, Option.bind_eq_bind, Option.bind_some]
    rw [← Outcome.settle_rename]
    congr 1
    obtain ⟨s', log, f | _⟩ := o <;> rfl

omit [Scalar α] in
/-- A reply is that of the renamed result. -/
theorem replying_rename {β : Type} (ρ : Renaming) (g : β → β) {f : β → Reply}
    (hf : ∀ b, f (g b) = (f b).rename ρ) (x : Option (Outcome α β)) :
    (x.map (Outcome.rename ρ g)).map (perform.replying f) =
      (x.map (perform.replying f)).map (Outcome.rename ρ (Reply.rename ρ)) := by
  rw [Option.map_map, Option.map_map]
  congr 1
  funext o
  obtain ⟨s, log, e | b⟩ := o
  · rfl
  · simp [perform.replying, Outcome.rename, Except.map, Except.mapError, hf]

/-- A request under a renaming comes to the renamed outcome. -/
theorem perform_rename (h : ρ.Suits m s (n + 1)) (budget : Nat) (q : Request α) :
    (s.rename ρ).perform budget (q.rename ρ) =
      (s.perform budget q).map (Outcome.rename ρ (Reply.rename ρ)) := by
  cases q with
  | newVariable bounded =>
    unfold perform
    simp only [Request.rename, newVariable_rename ρ h.steady]
    rfl
  | add c =>
    unfold perform
    simp only [Request.rename, add_rename h]
    apply replying_rename
    exact fun _ => rfl
  | remove _ | updateConstant _ _ | updateStrength _ _ | solve =>
    unfold perform
    simp only [Request.rename, remove_rename, updateConstant_rename, updateStrength_rename,
      solve_rename]
    apply replying_rename
    exact fun _ => rfl
  | reset => rfl
  | setAutoSolve b => rfl
  | setExplainFailure b => rfl

/-! ## From request to request -/

/-- What a request does to the numbers: variables are only drawn, at most one more constraint is
named, and no other comes into the books. -/
structure Later (s s' : Solver α) : Prop where
  drawn : s.supply.drawn ≤ s'.supply.drawn
  named : s'.nextId = s.nextId ∨ s'.nextId = s.nextId + 1
  marked : ∀ v id, s'.markers.get? v = some id →
    s.markers.get? v = some id ∨ id.index = s.nextId ∧ s'.nextId = s.nextId + 1

variable {s' : Solver α} {i : ConstraintId}

omit [Scalar α] in
theorem later_of_frame (hsupply : s'.supply = s.supply) (hnextId : s'.nextId = s.nextId)
    (hmarkers : s'.markers = s.markers) : s.Later s' where
  drawn := (congrArg Supply.drawn hsupply).ge
  named := .inl hnextId
  marked _ _ hid := .inl (hmarkers ▸ hid)

theorem later_retract (s : Solver α) (id : ConstraintId) : s.Later (s.retract id).solver := by
  cases hr : s.record? id with
  | none =>
    rw [retract_of_unknown hr]
    exact later_of_frame rfl rfl rfl
  | some r =>
    obtain ⟨t, ht⟩ := solver_of_retract hr
    rw [ht]
    refine ⟨le_rfl, .inl rfl, fun v i hi => .inl ?_⟩
    have hstruck : (s.markers.erase r.marker).get? v = some i := hi
    rw [Table.get?_erase] at hstruck
    split at hstruck
    · cases hstruck
    · exact hstruck

/-- Bringing an equation in draws a variable at most. -/
theorem drawn_bringIn_le {budget : Nat} {f : LinearForm α} {o : Outcome α Unit}
    (ho : s.bringIn budget i f = some o) : s.supply.drawn ≤ o.solver.supply.drawn := by
  rcases bringIn_cases ho with ⟨v, -, rfl⟩ | ⟨-, p, -, hsolver, -⟩
  · exact le_rfl
  · have hbegun : s.supply.drawn ≤ (s.beginFirstPhase f).supply.drawn := Nat.le_succ _
    rw [hsolver]
    rcases concludeFirstPhase_cases (s.beginFirstPhase f) i (s.supply.next .slack) p with
      hend | ⟨news, e, hend⟩
    · obtain ⟨t, ht⟩ := solver_of_dismiss
        ({ s.beginFirstPhase f with tableau := p.tableau.endFirstPhase } : Solver α) i
        (s.supply.next .slack)
      rw [hend, ht]
      exact hbegun
    · have hback := later_retract ({ s.beginFirstPhase f with
        tableau := p.tableau.endFirstPhase.discard (s.supply.next .slack) } : Solver α) i
      rw [hend, solver_of_rollBack]
      exact hbegun.trans hback.drawn

theorem later_add {budget : Nat} {c : Constraint α} {o : Outcome α ConstraintId}
    (ho : s.add budget c = some o) : s.Later o.solver := by
  have hnew (v : Variable) (i : ConstraintId) (hi : (s.prepare c).1.markers.get? v = some i) :
      s.markers.get? v = some i ∨ i.index = s.nextId := by
    have hmarkers : (s.prepare c).1.markers =
        s.markers.insert (Auxiliaries.draw s.supply c).1.marker ⟨s.nextId⟩ := rfl
    rw [hmarkers, Table.get?_insert] at hi
    split at hi
    · cases hi
      exact .inr rfl
    · exact .inl hi
  have hdrawn : s.supply.drawn ≤ o.solver.supply.drawn := by
    obtain ⟨q, hq, ho⟩ := add_cases ho
    obtain ⟨t, ht⟩ := solver_of_settle ho
    rw [ht]
    exact (s.supply.drawn_draw_le c).trans (drawn_bringIn_le hq)
  obtain ⟨supply, t, hsolver | ⟨-, hsolver⟩⟩ := add_ends ho
  · rw [hsolver] at hdrawn ⊢
    exact ⟨hdrawn, .inr rfl, fun v i hi => (hnew v i hi).imp_right fun hi => ⟨hi, rfl⟩⟩
  · rw [hsolver] at hdrawn ⊢
    refine ⟨hdrawn, .inr rfl, fun v i hi => ?_⟩
    have hstruck : ((s.prepare c).1.markers.erase
        (Auxiliaries.draw s.supply c).1.marker).get? v = some i := hi
    rw [Table.get?_erase] at hstruck
    split at hstruck
    · cases hstruck
    · exact (hnew v i hstruck).imp_right fun hi => ⟨hi, rfl⟩

theorem later_perform {budget : Nat} {q : Request α} {o : Outcome α Reply}
    (ho : s.perform budget q = some o) : s.Later o.solver := by
  cases q with
  | newVariable bounded =>
    cases ho
    exact ⟨Nat.le_succ _, .inl rfl, fun v i hi => .inl hi⟩
  | add c =>
    obtain ⟨p, hp, rfl⟩ := Option.map_eq_some_iff.1 ho
    exact later_add hp
  | remove id =>
    obtain ⟨p, hp, rfl⟩ := Option.map_eq_some_iff.1 ho
    rcases remove_cases hp with ⟨e, -, rfl⟩ | ⟨-, hp⟩
    · exact later_retract s id
    · obtain ⟨t, ht⟩ := solver_of_settle hp
      have hback := later_retract s id
      show s.Later p.solver
      rw [ht]
      exact ⟨hback.drawn, hback.named, hback.marked⟩
  | updateConstant id k =>
    obtain ⟨p, hp, rfl⟩ := Option.map_eq_some_iff.1 ho
    rcases updateConstant_cases hp with rfl | ⟨r, q, -, hq, rfl⟩
    · exact later_of_frame rfl rfl rfl
    · obtain ⟨_, -, hsolver, -⟩ := restore_cases hq
      show s.Later q.solver
      rw [hsolver]
      exact later_of_frame rfl rfl rfl
  | updateStrength id new =>
    obtain ⟨p, hp, rfl⟩ := Option.map_eq_some_iff.1 ho
    rcases updateStrength_cases hp with ⟨-, rfl⟩ | ⟨log, rfl⟩ | ⟨r, -, -, hp⟩
    · exact later_of_frame rfl rfl rfl
    · exact later_of_frame rfl rfl rfl
    · obtain ⟨t, ht⟩ := solver_of_settle hp
      show s.Later p.solver
      rw [ht]
      exact later_of_frame rfl rfl rfl
  | solve =>
    obtain ⟨p, hp, rfl⟩ := Option.map_eq_some_iff.1 ho
    obtain ⟨t, ht⟩ := solver_of_solve hp
    show s.Later p.solver
    rw [ht]
    exact later_of_frame rfl rfl rfl
  | reset =>
    cases ho
    exact ⟨le_rfl, .inl rfl, fun v i hi => by cases hi⟩
  | setAutoSolve b =>
    cases ho
    exact later_of_frame rfl rfl rfl
  | setExplainFailure b =>
    cases ho
    exact later_of_frame rfl rfl rfl

end Solver

theorem Renaming.Suits.later {ρ : Renaming} {m n : Nat} {s s' : Solver α}
    (h : ρ.Suits m s (n + 1)) (hs : s.Later s') :
    ρ.Suits m s' n where
  steady k hk := h.steady k (hs.drawn.trans hk)
  shift i hi := h.shift i (by
    rcases hs.named with hsame | hmore <;> omega)
  marked v id hid := by
    rcases hs.marked v id hid with hold | ⟨hnew, hmore⟩
    · have hlt := h.marked v id hold
      rcases hs.named with hsame | hmore <;> omega
    · omega

namespace Solver

variable [Scalar α] {ρ : Renaming} {m n : Nat} {s : Solver α}

/-! ## Sequences of requests -/

/-- Requests made one after another, each with a budget for its passes: what they come to, and the
solver that they leave. There is no result if a pass would exceed its budget. -/
def run (s : Solver α) : List (Nat × Request α) → Option (List (Outcome α Reply) × Solver α)
  | [] => some ([], s)
  | q :: qs => (s.perform q.1 q.2).bind fun o =>
    (o.solver.run qs).map fun x => (o :: x.1, x.2)

/-- A sequence of requests under a renaming comes to the renamed outcomes. -/
theorem run_rename {qs : List (Nat × Request α)} (h : ρ.Suits m s qs.length) :
    (s.rename ρ).run (qs.map (Prod.map id (Request.rename ρ))) =
      (s.run qs).map (Prod.map (List.map (Outcome.rename ρ (Reply.rename ρ))) (rename ρ)) := by
  induction qs generalizing s with
  | nil => rfl
  | cons q qs ih =>
    simp only [List.map_cons, run, Prod.map_fst, Prod.map_snd, id_eq, perform_rename h]
    cases ho : s.perform q.1 q.2 with
    | none => rfl
    | some o =>
      have hrest := ih (h.later (later_perform ho))
      have hsolver : (o.rename ρ (Reply.rename ρ)).solver = o.solver.rename ρ := rfl
      simp only [Option.map_some, Option.bind_some, hsolver, hrest, Option.map_map]
      rfl

end Solver

end SoftSimplex
