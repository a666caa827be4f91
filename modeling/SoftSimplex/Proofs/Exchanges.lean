import SoftSimplex.Proofs.Termination
import SoftSimplex.Proofs.Upkeep

/-!
# No exchange is refused

Every place where an exchange of variables is asked for, apart from what comes of it: in the steps
of the three passes, at the end of a first phase and when a constraint is taken out. In the tableau
at that moment the variable to leave the basis is in it, and its row mentions the one to enter. So no
row is ever dropped without one in its place, in whatever arithmetic.
-/

namespace SoftSimplex

/-- An exchange that is asked for: of which variables, and in which tableau. -/
structure Call (α : Type) where
  tableau : Tableau α
  swap : Swap

/-- Whether an event is in keeping with the exchanges asked for: one that is told was asked for, and
a repair fails for want of a variable to raise a row. -/
def Event.Backed {α : Type} (calls : Call α → Prop) : Event α → Prop
  | .swapped w => ∃ x, calls x ∧ x.swap = w
  | .repairFailed e => e = .fault .noRepair
  | _ => True

theorem Event.Backed.mono {α : Type} {calls calls' : Call α → Prop}
    (hcalls : ∀ x, calls x → calls' x) {e : Event α} (h : e.Backed calls) : e.Backed calls' := by
  cases e with
  | swapped w =>
    obtain ⟨x, hx, hw⟩ := h
    exact ⟨x, hcalls x hx, hw⟩
  | _ => exact h

variable {α : Type} [Scalar α]

namespace Call

def step (x : Call α) : Step α := .ofExchange x.tableau x.swap.entry x.swap.exit

/-- The variable to leave is basic, its row mentions the one to enter, and the exchange puts the row
solved for that one in the place. -/
def Granted (x : Call α) : Prop :=
  ∃ row t, x.tableau.row? x.swap.exit = some row ∧ x.swap.entry ∈ row.vars ∧
    x.tableau.exchange x.swap.entry x.swap.exit = .ok t ∧
    t.row? x.swap.entry = some (row.exchange x.swap.exit x.swap.entry)

theorem granted_of_mem {t : Tableau α} {entry exit : Variable} {row : LinearForm α}
    (hrow : t.row? exit = some row) (hmem : entry ∈ row.vars) :
    (⟨t, entry, exit⟩ : Call α).Granted := by
  refine ⟨row, _, hrow, hmem, Tableau.exchange_eq_ok.2 ⟨row, hrow, hmem, rfl⟩, ?_⟩
  rw [Tableau.row?_insertRow, if_pos rfl]

/-- A call that is granted is told, and nothing else comes of it. -/
theorem swap_of_step {x : Call α} {u : Tableau α} {w : Swap} (h : x.step = .swapped u w) :
    x.swap = w := by
  unfold step Step.ofExchange at h
  split at h
  · exact (Step.swapped.inj h).2
  · cases h

end Call

namespace Tableau

/-! ## Passes -/

structure AsksBy (step : Tableau α → Step α) (call? : Tableau α → Option (Call α)) : Prop where
  asks : ∀ {t x}, call? t = some x → step t = x.step
  idle : ∀ {t}, call? t = none →
    ∃ u, step t = .done u ∨ step t = .failed u .unbounded ∨ step t = .failed u (.fault .noRepair)

/-- The exchanges that a pass from `t` asks for, however long it goes on. -/
def PassCalls (step : Tableau α → Step α) (call? : Tableau α → Option (Call α)) (t : Tableau α)
    (x : Call α) : Prop :=
  ∃ i u, after step i t = some u ∧ call? u = some x

section

variable {step : Tableau α → Step α} {call? : Tableau α → Option (Call α)} {t u : Tableau α}
variable {x : Call α} {w : Swap} {n : Nat}

theorem AsksBy.of_swapped (h : AsksBy step call?) (hs : step t = .swapped u w) :
    ∃ x, call? t = some x ∧ x.swap = w := by
  cases hc : call? t with
  | some x => exact ⟨x, rfl, Call.swap_of_step ((h.asks hc).symm.trans hs)⟩
  | none =>
    obtain ⟨u', h' | h' | h'⟩ := h.idle hc <;> rw [hs] at h' <;> cases h'

/-- Every exchange of a pass was asked for. -/
theorem AsksBy.backed (h : AsksBy step call?) {p : Pass α} (hp : iterate step n t = some p) :
    ∀ e ∈ p.swaps.map Event.swapped, e.Backed (PassCalls step call? t) := by
  intro e he
  obtain ⟨w, hw, rfl⟩ := List.mem_map.1 he
  obtain ⟨i, u, u', hu, hs⟩ := exists_after_of_swap hp hw
  obtain ⟨x, hx, hswap⟩ := h.of_swapped hs
  exact ⟨x, ⟨i, u, hu, hx⟩, hswap⟩

end

variable {V : Variable → Prop} {t : Tableau α} {x : Call α}

/-! ### Minimising -/

def objectiveCall? (t : Tableau α) : Option (Call α) :=
  match { t with candidates := t.candidates.dropWhile t.isStale }.takeCandidate with
  | (none, _) => none
  | (some entry, t) => (t.tightest? entry).map fun exit => ⟨t, entry, exit⟩

theorem asksBy_objectiveCall? : AsksBy (α := α) objectiveStep objectiveCall? := by
  constructor
  · intro t x hx
    unfold objectiveCall? at hx
    unfold objectiveStep
    generalize { t with candidates := t.candidates.dropWhile t.isStale }.takeCandidate = taken
      at hx ⊢
    obtain ⟨_ | entry, u⟩ := taken
    · cases hx
    · obtain ⟨exit, hexit, rfl⟩ := Option.map_eq_some_iff.1 hx
      simp only [hexit]
      rfl
  · intro t hx
    unfold objectiveCall? at hx
    unfold objectiveStep
    generalize { t with candidates := t.candidates.dropWhile t.isStale }.takeCandidate = taken
      at hx ⊢
    obtain ⟨_ | entry, u⟩ := taken
    · exact ⟨u, .inl rfl⟩
    · simp only [Option.map_eq_none_iff.1 hx]
      exact ⟨_, .inr (.inl rfl)⟩

theorem Orderly.granted_objectiveCall? (h : t.Orderly V) (hx : t.objectiveCall? = some x) :
    x.Granted := by
  unfold objectiveCall? at hx
  split at hx
  · cases hx
  · next entry u htake =>
    obtain ⟨exit, hexit, rfl⟩ := Option.map_eq_some_iff.1 hx
    obtain rfl := (Prod.mk.inj htake).2
    obtain ⟨-, row, hrow, hmem⟩ := h.wellFormed.indexed.row_of_tightest? (t := t) hexit
    exact Call.granted_of_mem hrow hmem

def artificialCall? (t : Tableau α) : Option (Call α) :=
  (Variable.lowest? t.artificialEntries).bind fun entry =>
    (t.tightest? entry).map fun exit => ⟨t, entry, exit⟩

theorem asksBy_artificialCall? : AsksBy (α := α) artificialStep artificialCall? := by
  constructor
  · intro t x hx
    unfold artificialCall? at hx
    obtain ⟨entry, hentry, hx⟩ := Option.bind_eq_some_iff.1 hx
    obtain ⟨exit, hexit, rfl⟩ := Option.map_eq_some_iff.1 hx
    unfold artificialStep
    simp only [hentry, hexit]
    rfl
  · intro t hx
    unfold artificialCall? at hx
    unfold artificialStep
    cases hentry : Variable.lowest? t.artificialEntries with
    | none => exact ⟨t, .inl rfl⟩
    | some entry =>
      rw [hentry, Option.bind_some, Option.map_eq_none_iff] at hx
      simp only [hx]
      exact ⟨_, .inr (.inl rfl)⟩

theorem Orderly.granted_artificialCall? (h : t.Orderly V) (hx : t.artificialCall? = some x) :
    x.Granted := by
  unfold artificialCall? at hx
  obtain ⟨entry, -, hx⟩ := Option.bind_eq_some_iff.1 hx
  obtain ⟨exit, hexit, rfl⟩ := Option.map_eq_some_iff.1 hx
  obtain ⟨-, row, hrow, hmem⟩ := h.wellFormed.indexed.row_of_tightest? hexit
  exact Call.granted_of_mem hrow hmem

/-! ### Repairing -/

def repairCall? (t : Tableau α) : Option (Call α) :=
  match { t with queue := t.queue.dropBackWhile t.isSettled }.takeQueued with
  | (none, _) => none
  | (some exit, t) => ((t.row? exit).bind t.cheapest?).map fun entry => ⟨t, entry, exit⟩

theorem asksBy_repairCall? : AsksBy (α := α) repairStep repairCall? := by
  constructor
  · intro t x hx
    unfold repairCall? at hx
    unfold repairStep
    generalize { t with queue := t.queue.dropBackWhile t.isSettled }.takeQueued = taken at hx ⊢
    obtain ⟨_ | exit, u⟩ := taken
    · cases hx
    · obtain ⟨entry, hentry, rfl⟩ := Option.map_eq_some_iff.1 hx
      simp only [hentry]
      rfl
  · intro t hx
    unfold repairCall? at hx
    unfold repairStep
    generalize { t with queue := t.queue.dropBackWhile t.isSettled }.takeQueued = taken at hx ⊢
    obtain ⟨_ | exit, u⟩ := taken
    · exact ⟨u, .inl rfl⟩
    · simp only [Option.map_eq_none_iff.1 hx]
      exact ⟨u, .inr (.inr rfl)⟩

/-- The row of the variable that leaves is the one looked through for the other. -/
theorem granted_repairCall? (hx : t.repairCall? = some x) : x.Granted := by
  unfold repairCall? at hx
  split at hx
  · cases hx
  · next exit u htake =>
    obtain ⟨entry, hentry, rfl⟩ := Option.map_eq_some_iff.1 hx
    obtain ⟨row, hrow, hcheapest⟩ := Option.bind_eq_some_iff.1 hentry
    exact Call.granted_of_mem hrow (of_cheapest? hcheapest).1

/-! ### Whole passes -/

def MinimizeCalls (t : Tableau α) : Call α → Prop := t.PassCalls objectiveStep objectiveCall?

def FirstPhaseCalls (t : Tableau α) : Call α → Prop := t.PassCalls artificialStep artificialCall?

def RepairCalls (t : Tableau α) : Call α → Prop := t.PassCalls repairStep repairCall?

theorem Orderly.granted_minimize (hV : Numbered V) (h : t.Orderly V) (hf : t.FreeApart)
    (hx : t.MinimizeCalls x) : x.Granted := by
  obtain ⟨i, u, hu, hx⟩ := hx
  have hkeeps := after_meets (I := fun u => u.Orderly V ∧ u.FreeApart)
    (fun _ hu => hu.1.objectiveStep_meets hV hu.2) ⟨h, hf⟩ hu
  exact hkeeps.1.granted_objectiveCall? hx

theorem Orderly.granted_firstPhase (hV : Numbered V) (h : t.Orderly V) (hf : t.FreeApart)
    (hx : t.FirstPhaseCalls x) : x.Granted := by
  obtain ⟨i, u, hu, hx⟩ := hx
  have hkeeps := after_meets (I := fun u => u.Orderly V ∧ u.FreeApart)
    (fun _ hu => hu.1.artificialStep_meets hV hu.2) ⟨h, hf⟩ hu
  exact hkeeps.1.granted_artificialCall? hx

theorem granted_repair (hx : t.RepairCalls x) : x.Granted := by
  obtain ⟨i, u, -, hx⟩ := hx
  exact granted_repairCall? hx

end Tableau

namespace Outcome

def Faultless {ρ : Type} (o : Outcome α ρ) : Prop := ∀ f, o.answer ≠ .error (.fault f)

omit [Scalar α] in
theorem faultless_of_ok {ρ : Type} {o : Outcome α ρ} {x : ρ} (h : o.answer = .ok x) :
    o.Faultless := by
  intro f hf
  rw [h] at hf
  cases hf

end Outcome

namespace Solver

variable {V : Variable → Prop} {vs : List Variable} {s : Solver α} {id : ConstraintId}
variable {f : LinearForm α} {n : Nat} {x : Call α} {o : Outcome α Unit}

/-! ## Minimising after an operation -/

/-- The exchanges that an operation asks for by minimising at its end. -/
def SettleCalls (s : Solver α) (x : Call α) : Prop :=
  s.settings.autoSolve = true ∧ s.tableau.MinimizeCalls x

theorem Upheld.granted_settle (h : s.Upheld V vs) (hx : s.SettleCalls x) : x.Granted :=
  h.orderly.granted_minimize h.books.issued.numbered h.freeApart hx.2

theorem backed_solve (ho : s.solve n = some o) :
    ∀ e ∈ o.log, e.Backed s.tableau.MinimizeCalls := by
  obtain ⟨p, hp, rfl⟩ := solve_cases ho
  exact Tableau.asksBy_objectiveCall?.backed hp

theorem Upheld.faultless_solve (h : s.Upheld V vs) (ho : s.solve n = some o) : o.Faultless := by
  intro f hf
  rcases h.solve_answer ho with hanswer | hanswer <;> rw [hanswer] at hf <;> cases hf

theorem backed_settle {ρ : Type} {o o' : Outcome α ρ} (ho : o.settle n = some o')
    {calls : Call α → Prop} (hlog : ∀ e ∈ o.log, e.Backed calls)
    (hcalls : ∀ x, o.solver.SettleCalls x → calls x) : ∀ e ∈ o'.log, e.Backed calls := by
  unfold Outcome.settle at ho
  split at ho
  · next hauto =>
    obtain ⟨q, hq, rfl⟩ := Option.map_eq_some_iff.1 ho
    intro e he
    rcases List.mem_append.1 he with he | he
    · exact hlog e he
    · exact (backed_solve hq e he).mono fun x hx => hcalls x ⟨hauto, hx⟩
  · cases ho
    exact hlog

theorem Upheld.faultless_settle {ρ : Type} {o o' : Outcome α ρ} (h : o.solver.Upheld V vs)
    (ho : o.settle n = some o') (hfault : o.Faultless) : o'.Faultless := by
  intro f hf
  rcases h.settle_answer ho with hsame | ⟨-, hanswer⟩
  · exact hfault f (hsame.symm.trans hf)
  · rw [hanswer] at hf
    cases hf

/-! ## Taking a constraint out -/

def retractCall? (s : Solver α) (id : ConstraintId) : Option (Call α) :=
  (s.record? id).bind fun r =>
    ((s.strike id r).exitFor? r.marker).map fun exit => ⟨(s.strike id r).tableau, r.marker, exit⟩

theorem retractCall?_eq {r : Record α} (hr : s.record? id = some r) :
    s.retractCall? id = ((s.strike id r).exitFor? r.marker).map fun exit =>
      ⟨(s.strike id r).tableau, r.marker, exit⟩ := by
  unfold retractCall?
  rw [hr]
  rfl

theorem Upheld.granted_retractCall? (h : s.Upheld V vs) (hx : s.retractCall? id = some x) :
    x.Granted := by
  obtain ⟨r, hr, hx⟩ := Option.bind_eq_some_iff.1 hx
  obtain ⟨exit, hexit, rfl⟩ := Option.map_eq_some_iff.1 hx
  have hev : (s.strike id r).tableau.eviction? r.marker = some exit := by
    unfold exitFor? at hexit
    split at hexit
    · cases hexit
    · exact hexit
  -- the row is looked up by way of the columns, which are right after the errors' rows have gone
  obtain ⟨row, hrow, hmem, -⟩ := (h.strike hr).orderly.wellFormed.indexed.row_of_eviction? hev
  exact Call.granted_of_mem hrow hmem

theorem Upheld.retract_ok (h : s.Upheld V vs) {r : Record α} (hr : s.record? id = some r) :
    (s.retract id).answer = .ok () := by
  have hcall := retractCall?_eq hr
  unfold Solver.retract
  simp only [hr]
  cases hexit : (s.strike id r).exitFor? r.marker with
  | none => rfl
  | some exit =>
    rw [hexit] at hcall
    obtain ⟨row, t, -, -, he, -⟩ := h.granted_retractCall? hcall
    simp only [he]

theorem backed_retract (s : Solver α) (id : ConstraintId) :
    ∀ e ∈ (s.retract id).log, e.Backed fun x => s.retractCall? id = some x := by
  unfold retract
  cases hr : s.record? id with
  | none => simp
  | some r =>
    have hcall := retractCall?_eq hr
    cases hexit : (s.strike id r).exitFor? r.marker with
    | none => simp [hexit]
    | some exit =>
      rw [hexit] at hcall
      simp only [hexit]
      split
      · intro e he
        obtain rfl := List.mem_singleton.1 he
        exact ⟨_, hcall, rfl⟩
      · simp

theorem Upheld.faultless_retract (h : s.Upheld V vs) (id : ConstraintId) :
    (s.retract id).Faultless := by
  intro f hf
  cases hr : s.record? id with
  | none =>
    rw [retract_of_unknown hr] at hf
    cases hf
  | some r =>
    rw [h.retract_ok hr] at hf
    cases hf

/-! ## Bringing a constraint in -/

def dismissCall? (s : Solver α) (a : Variable) : Option (Call α) :=
  (s.tableau.row? a).bind fun row => row.successor?.map fun entry => ⟨s.tableau, entry, a⟩

def concludeCall? (s : Solver α) (id : ConstraintId) (a : Variable) (p : Pass α) :
    Option (Call α) :=
  let residual := (p.tableau.artificial.map LinearForm.constant).getD 0
  let s := { s with tableau := p.tableau.endFirstPhase }
  let back := { s with tableau := s.tableau.discard a }
  match p.ending with
  | .error _ => back.retractCall? id
  | .ok () => if Scalar.negligible residual then s.dismissCall? a else back.retractCall? id

inductive BringInCalls (s : Solver α) (id : ConstraintId) (f : LinearForm α) (x : Call α) :
    Prop where
  /-- On the way down from the equation. -/
  | before : s.subject? f = none → (s.beginFirstPhase f).tableau.FirstPhaseCalls x →
      BringInCalls s id f x
  /-- When the artificial variable is to go, alone or with the constraint. -/
  | after {n : Nat} {p : Pass α} : s.subject? f = none →
      (s.beginFirstPhase f).tableau.minimizeArtificial n = some p →
      (s.beginFirstPhase f).concludeCall? id (s.supply.next .slack) p = some x →
      BringInCalls s id f x

theorem granted_dismissCall? {a : Variable} (hx : s.dismissCall? a = some x) : x.Granted := by
  obtain ⟨row, hrow, hx⟩ := Option.bind_eq_some_iff.1 hx
  obtain ⟨entry, hentry, rfl⟩ := Option.map_eq_some_iff.1 hx
  exact Call.granted_of_mem hrow (LinearForm.mem_of_successor? hentry)

theorem dismiss_ok (s : Solver α) (id : ConstraintId) (a : Variable) :
    (s.dismiss id a).answer = .ok () ∧
      ∀ e ∈ (s.dismiss id a).log, e.Backed fun x => s.dismissCall? a = some x := by
  have hnews : ∀ calls : Call α → Prop, (Event.addedByFirstPhase id).Backed calls :=
    fun _ => trivial
  unfold dismiss
  cases hrow : s.tableau.row? a with
  | none => simp [hnews]
  | some row =>
    cases hsucc : row.successor? with
    | none => simp [hsucc, hnews]
    | some entry =>
      have hcall : s.dismissCall? a = some ⟨s.tableau, entry, a⟩ := by
        unfold dismissCall?
        rw [hrow, Option.bind_some, hsucc]
        rfl
      obtain ⟨-, t, -, -, he, -⟩ := granted_dismissCall? hcall
      simp only [Option.map_some, hsucc, he]
      refine ⟨trivial, fun e hmem => ?_⟩
      rcases List.mem_cons.1 hmem with rfl | hmem
      · exact ⟨_, hcall, rfl⟩
      · rw [List.mem_singleton.1 hmem]
        exact hnews _

theorem Upheld.faultless_rollBack (h : s.Upheld V vs) {a : Variable} (ha : V a)
    (news : List (Event α)) {e : Failure} (he : ∀ f, e ≠ .fault f) :
    (s.rollBack id a news e).Faultless := by
  have hback := (h.discard ha).faultless_retract id
  unfold Solver.rollBack
  simp only
  split
  · intro f hf
    exact he f (Except.error.inj hf)
  · exact hback

theorem backed_rollBack (s : Solver α) (id : ConstraintId) (a : Variable) {news : List (Event α)}
    (hnews : ∀ calls, ∀ e ∈ news, Event.Backed calls e) (f : Failure) :
    ∀ e ∈ (s.rollBack id a news f).log, e.Backed fun x =>
      ({ s with tableau := s.tableau.discard a } : Solver α).retractCall? id = some x := by
  have hback := backed_retract { s with tableau := s.tableau.discard a } id
  unfold rollBack
  simp only
  split
  · intro e he
    rcases List.mem_append.1 he with he | he
    · exact hback e he
    · exact hnews _ e he
  · exact hback

/-- The end of a first phase is that of an artificial variable which goes alone or with the
constraint. -/
theorem Upheld.concludes (h : s.Upheld V vs) (id : ConstraintId) {a : Variable} (ha : V a)
    {p : Pass α} (hp : s.tableau.minimizeArtificial n = some p) :
    (∀ x, s.concludeCall? id a p = some x → x.Granted) ∧
      (s.concludeFirstPhase id a p).Faultless ∧
      ∀ e ∈ (s.concludeFirstPhase id a p).log, e.Backed fun x =>
        s.concludeCall? id a p = some x := by
  have hmeets := h.orderly.minimizeArtificial_meets h.books.issued.numbered h.freeApart hp
  have hafter := h.endFirstPhase hp
  have hback : ∀ x,
      ({ s with tableau := p.tableau.endFirstPhase.discard a } : Solver α).retractCall? id = some x →
        x.Granted :=
    fun x hx => (hafter.discard ha).granted_retractCall? hx
  unfold concludeCall? Solver.concludeFirstPhase
  unfold Pass.Meets at hmeets
  cases hend : p.ending with
  | error e =>
    -- a first phase that failed can only have been without a bound
    rw [hend] at hmeets
    obtain ⟨-, rfl⟩ := hmeets
    exact ⟨hback, hafter.faultless_rollBack ha [] (fun f hf => by cases hf),
      backed_rollBack _ id a (fun _ => List.forall_mem_nil _) _⟩
  | ok _ =>
    simp only
    split
    · obtain ⟨hok, hlog⟩ := dismiss_ok { s with tableau := p.tableau.endFirstPhase } id a
      exact ⟨fun x => granted_dismissCall?, Outcome.faultless_of_ok hok, hlog⟩
    · refine ⟨hback, hafter.faultless_rollBack ha _ (fun f hf => ?_),
        backed_rollBack _ id a (fun calls e he => ?_) _⟩
      · rcases refusal_cases _ id a with hr | ⟨ids, hr⟩ <;> rw [hr] at hf <;> cases hf
      · rw [List.mem_singleton.1 he]
        trivial

theorem Upheld.bringsIn (h : s.Upheld V vs) (id : ConstraintId)
    (hvars : ∀ w ∈ f.vars, V w ∧ s.tableau.row? w = none) :
    (∀ x, s.BringInCalls id f x → x.Granted) ∧
      ∀ n o, s.bringIn n id f = some o →
        o.Faultless ∧ ∀ e ∈ o.log, e.Backed (s.BringInCalls id f) := by
  constructor
  · intro x hx
    cases hx with
    | before hnone hx =>
      have hbegun := h.beginFirstPhase hvars hnone
      exact hbegun.orderly.granted_firstPhase hbegun.books.issued.numbered hbegun.freeApart hx
    | after hnone hp hx =>
      exact ((h.beginFirstPhase hvars hnone).concludes id (.inr rfl) hp).1 x hx
  · intro n o ho
    unfold Solver.bringIn at ho
    cases hx : s.subject? f with
    | some v =>
      simp only [hx, Option.some.injEq] at ho
      subst ho
      exact ⟨Outcome.faultless_of_ok rfl, List.forall_mem_nil _⟩
    | none =>
      simp only [hx] at ho
      obtain ⟨p, hp, rfl⟩ := Option.map_eq_some_iff.1 ho
      obtain ⟨-, hfault, hlog⟩ := (h.beginFirstPhase hvars hx).concludes id (.inr rfl) hp
      refine ⟨hfault, fun e he => ?_⟩
      rcases List.mem_append.1 he with he | he
      · exact (Tableau.asksBy_artificialCall?.backed hp e he).mono fun x hc => .before hx hc
      · exact (hlog e he).mono fun x hc => .after hx hp hc

/-! ## Any request -/

/-- The exchanges that a request asks for. -/
inductive Calls (s : Solver α) : Request α → Call α → Prop where
  | solve {x : Call α} : s.tableau.MinimizeCalls x → Calls s .solve x
  | broughtIn {c : Constraint α} {x : Call α} :
    (s.prepare c).1.BringInCalls ⟨s.nextId⟩ (s.prepare c).2 x → Calls s (.add c) x
  | added {c : Constraint α} {n : Nat} {o : Outcome α Unit} {x : Call α} :
    (s.prepare c).1.bringIn n ⟨s.nextId⟩ (s.prepare c).2 = some o → o.solver.SettleCalls x →
      Calls s (.add c) x
  | retracted {id : ConstraintId} {x : Call α} : s.retractCall? id = some x → Calls s (.remove id) x
  | removed {id : ConstraintId} {x : Call α} : (s.retract id).answer = .ok () →
    (s.retract id).solver.SettleCalls x → Calls s (.remove id) x
  | shifted {id : ConstraintId} {k : α} {r : Record α} {x : Call α} : s.record? id = some r →
    Scalar.negligible (r.constraint.constantFor k - r.constraint.form.constant) = false →
      (s.shifted id r k).tableau.RepairCalls x → Calls s (.updateConstant id k) x
  | reweighed {id : ConstraintId} {new : Strength α} {r : Record α} {x : Call α} :
    s.record? id = some r → r.constraint.strength.same new = false →
      r.constraint.strength.isRequired = false → new.isRequired = false →
      (s.reweighed id r new).SettleCalls x → Calls s (.updateStrength id new) x

theorem Upheld.adds (h : s.Upheld V vs) {c : Constraint α} (hc : ∀ v ∈ c.form.vars, v ∈ vs) :
    (∀ x, s.Calls (.add c) x → x.Granted) ∧
      ∀ n o, s.add n c = some o → o.Faultless ∧ ∀ e ∈ o.log, e.Backed (s.Calls (.add c)) := by
  obtain ⟨hprepared, hvars⟩ := h.prepare hc
  obtain ⟨hgranted, hbrought⟩ := hprepared.bringsIn ⟨s.nextId⟩ hvars
  constructor
  · intro x hx
    cases hx with
    | broughtIn hx => exact hgranted x hx
    | added ho hx =>
      obtain ⟨W, hadded⟩ := hprepared.bringIn hvars ho
      exact hadded.granted_settle hx
  · intro n o ho
    obtain ⟨q, hq, ho⟩ := add_cases ho
    obtain ⟨hfault, hlog⟩ := hbrought n q hq
    obtain ⟨W, hadded⟩ := hprepared.bringIn hvars hq
    constructor
    · refine Upheld.faultless_settle hadded ho fun f hf => ?_
      exact hfault f (error_of_map hf)
    · refine backed_settle ho (fun e he => ?_) fun x hx => .added hq hx
      rcases List.mem_cons.1 he with rfl | he
      · trivial
      · exact (hlog e he).mono fun x hx => .broughtIn hx

theorem Upheld.removes (h : s.Upheld V vs) (id : ConstraintId) :
    (∀ x, s.Calls (.remove id) x → x.Granted) ∧
      ∀ n o, s.remove n id = some o →
        o.Faultless ∧ ∀ e ∈ o.log, e.Backed (s.Calls (.remove id)) := by
  -- minimising starts from what the retraction leaves, which is in order
  have hback := h.retract id
  have hlog : ∀ e ∈ (s.retract id).log, e.Backed (s.Calls (.remove id)) :=
    fun e he => (backed_retract s id e he).mono fun x hx => .retracted hx
  constructor
  · intro x hx
    cases hx with
    | retracted hx => exact h.granted_retractCall? hx
    | removed hok hx => exact hback.granted_settle hx
  · intro n o ho
    rcases remove_cases ho with ⟨e, -, rfl⟩ | ⟨hok, ho⟩
    · exact ⟨h.faultless_retract id, hlog⟩
    · refine ⟨Upheld.faultless_settle (by exact hback) ho (Outcome.faultless_of_ok rfl), ?_⟩
      refine backed_settle ho (fun e he => ?_) fun x hx => .removed hok hx
      rcases List.mem_append.1 he with he | he
      · exact hlog e he
      · rw [List.mem_singleton.1 he]
        trivial

theorem Upheld.backed_restore (h : s.Upheld V vs) (ho : s.restore n = some o) :
    o.Faultless ∧ ∀ e ∈ o.log, e.Backed s.tableau.RepairCalls := by
  unfold Solver.restore Solver.repair at ho
  obtain ⟨q, hq, rfl⟩ := Option.map_eq_some_iff.1 ho
  obtain ⟨p, hp, rfl⟩ := Option.map_eq_some_iff.1 hq
  have hmeets := h.orderly.repair_meets h.books.issued.numbered h.freeApart hp
  refine ⟨Outcome.faultless_of_ok rfl, fun e he => ?_⟩
  rcases List.mem_append.1 he with he | he
  · exact Tableau.asksBy_repairCall?.backed hp e he
  · unfold Pass.Meets at hmeets
    have hanswer : (s.afterPass p).answer = p.ending := rfl
    rw [hanswer] at he
    cases hend : p.ending with
    | ok _ =>
      rw [hend] at he
      cases he
    | error f =>
      rw [hend] at he hmeets
      rw [List.mem_singleton.1 he]
      exact hmeets.2

theorem Upheld.updatesConstant (h : s.Upheld V vs) (id : ConstraintId) (k : α) :
    (∀ x, s.Calls (.updateConstant id k) x → x.Granted) ∧
      ∀ n o, s.updateConstant n id k = some o →
        o.Faultless ∧ ∀ e ∈ o.log, e.Backed (s.Calls (.updateConstant id k)) := by
  constructor
  · intro x hx
    cases hx with
    | shifted hr hchange hx => exact Tableau.granted_repair hx
  · intro n o ho
    unfold Solver.updateConstant at ho
    cases hr : s.record? id with
    | none =>
      simp only [hr, Option.some.injEq] at ho
      subst ho
      exact ⟨Outcome.faultless_of_ok rfl, List.forall_mem_nil _⟩
    | some r =>
      simp only [hr] at ho
      split at ho
      · cases ho
        exact ⟨Outcome.faultless_of_ok rfl, List.forall_mem_nil _⟩
      · next hchange =>
        obtain ⟨q, hq, rfl⟩ := Option.map_eq_some_iff.1 ho
        obtain ⟨hfault, hlog⟩ := (h.shift hr k).backed_restore hq
        refine ⟨hfault, fun e he => ?_⟩
        rcases List.mem_cons.1 he with rfl | he
        · trivial
        · exact (hlog e he).mono fun x hx => .shifted hr (by simpa using hchange) hx

theorem Upheld.updatesStrength (h : s.Upheld V vs) (id : ConstraintId) (new : Strength α) :
    (∀ x, s.Calls (.updateStrength id new) x → x.Granted) ∧
      ∀ n o, s.updateStrength n id new = some o →
        o.Faultless ∧ ∀ e ∈ o.log, e.Backed (s.Calls (.updateStrength id new)) := by
  constructor
  · intro x hx
    cases hx with
    | reweighed hr _ hold hnew hx => exact (h.reweigh hr (hnew.trans hold.symm)).granted_settle hx
  · intro n o ho
    unfold Solver.updateStrength at ho
    cases hr : s.record? id with
    | none =>
      simp only [hr, Option.some.injEq] at ho
      subst ho
      exact ⟨(fun f hf => by cases hf), List.forall_mem_nil _⟩
    | some r =>
      simp only [hr] at ho
      split at ho
      · cases ho
        exact ⟨Outcome.faultless_of_ok rfl, List.forall_mem_nil _⟩
      · next hsame =>
        split at ho
        · cases ho
          refine ⟨Outcome.faultless_of_ok rfl, fun e he => ?_⟩
          rw [List.mem_singleton.1 he]
          trivial
        · next hkind =>
          rw [Bool.not_eq_true] at hsame
          rw [Bool.or_eq_true, not_or, Bool.not_eq_true, Bool.not_eq_true] at hkind
          have hedited := h.reweigh hr (hkind.2.trans hkind.1.symm)
          refine ⟨Upheld.faultless_settle (by exact hedited) ho (Outcome.faultless_of_ok rfl), ?_⟩
          refine backed_settle ho (fun e he => ?_) fun x hx =>
            .reweighed hr hsame hkind.1 hkind.2 hx
          rw [List.mem_singleton.1 he]
          trivial

omit [Scalar α] in
/-- What holds of the outcomes of an operation holds of the replies. -/
theorem replied {ρ : Type} {g : ρ → Reply} {y : Option (Outcome α ρ)} {calls : Call α → Prop}
    (h : ∀ o, y = some o → o.Faultless ∧ ∀ e ∈ o.log, e.Backed calls) {o : Outcome α Reply}
    (ho : y.map (perform.replying g) = some o) : o.Faultless ∧ ∀ e ∈ o.log, e.Backed calls := by
  obtain ⟨p, hp, rfl⟩ := Option.map_eq_some_iff.1 ho
  obtain ⟨hfault, hlog⟩ := h p hp
  exact ⟨fun f hf => hfault f (error_of_map hf), hlog⟩

theorem Upheld.performs (h : s.Upheld V vs) {q : Request α} (hq : q.Within vs) :
    (∀ x, s.Calls q x → x.Granted) ∧
      ∀ n o, s.perform n q = some o → o.Faultless ∧ ∀ e ∈ o.log, e.Backed (s.Calls q) := by
  cases q with
  | add c =>
    obtain ⟨hgranted, hdone⟩ := h.adds hq
    exact ⟨hgranted, fun n o ho => replied (hdone n) ho⟩
  | remove id =>
    obtain ⟨hgranted, hdone⟩ := h.removes id
    exact ⟨hgranted, fun n o ho => replied (hdone n) ho⟩
  | updateConstant id k =>
    obtain ⟨hgranted, hdone⟩ := h.updatesConstant id k
    exact ⟨hgranted, fun n o ho => replied (hdone n) ho⟩
  | updateStrength id new =>
    obtain ⟨hgranted, hdone⟩ := h.updatesStrength id new
    exact ⟨hgranted, fun n o ho => replied (hdone n) ho⟩
  | solve =>
    constructor
    · intro x hx
      cases hx with
      | solve hx => exact h.orderly.granted_minimize h.books.issued.numbered h.freeApart hx
    · refine fun n o ho => replied (fun o ho => ⟨h.faultless_solve ho, fun e he => ?_⟩) ho
      exact (backed_solve ho e he).mono fun x hx => .solve hx
  | reset =>
    refine ⟨nofun, fun n o ho => ?_⟩
    cases ho
    refine ⟨Outcome.faultless_of_ok rfl, fun e he => ?_⟩
    rw [List.mem_singleton.1 he]
    trivial
  | newVariable _ | setAutoSolve _ | setExplainFailure _ =>
    refine ⟨nofun, fun n o ho => ?_⟩
    cases ho
    exact ⟨Outcome.faultless_of_ok rfl, List.forall_mem_nil _⟩

/-- In any state that a client can get to, with failures behind it or not, and in any arithmetic: no
exchange that a request asks for is refused, in the midst of a pass, at the end of a first phase or
when a constraint goes. The exchanges that it tells of are among those, no fault is reported, and a
repair fails for want of a variable to raise a row only. -/
theorem exchanges_granted {allowed : Solver α → Request α → Outcome α Reply → Prop}
    (h : Reached allowed vs s) {q : Request α} (hq : q.Within vs) :
    (∀ x, s.Calls q x → x.Granted) ∧
      ∀ n o, s.perform n q = some o → o.Faultless ∧ ∀ e ∈ o.log, e.Backed (s.Calls q) := by
  obtain ⟨V, hs⟩ := h.upheld
  exact hs.performs hq

/-- A width of at least 100 and at most 120 that would rather be 140. To have it at most 50 as well
is refused: one exchange is made before that is known, and another when the constraint goes. -/
theorem exchanges_granted_of_refusal :
    ∃ y o, replay (fun _ _ _ => true) 9
      [.newVariable false, .add (.compare (.var ⟨0, .free⟩) .atLeast (.const 100)),
        .add ((Constraint.compare (.var ⟨0, .free⟩) .equal (.const 140)).withStrength .weak),
        .setAutoSolve true, .add (.compare (.var ⟨0, .free⟩) .atMost (.const 120))] ([], new) =
        some y ∧
      y.2.perform 9 (.add (.compare (.var ⟨0, .free⟩) .atMost (.const 50))) = some o ∧
      (o.log.filterMap fun e => match e with
        | .swapped w => some w
        | _ => none) = [⟨⟨4, .slack⟩, ⟨1, .slack⟩⟩, ⟨⟨1, .slack⟩, ⟨4, .slack⟩⟩] ∧
      (∀ x, y.2.Calls (.add (.compare (.var ⟨0, .free⟩) .atMost (.const 50))) x → x.Granted) ∧
      o.Faultless ∧
      ∀ e ∈ o.log,
        e.Backed (y.2.Calls (.add (.compare (.var ⟨0, .free⟩) .atMost (.const 50)))) := by
  have hrun : (replay (fun _ _ _ => true) 9
      [.newVariable false, .add (.compare (.var ⟨0, .free⟩) .atLeast (.const 100)),
        .add ((Constraint.compare (.var ⟨0, .free⟩) .equal (.const 140)).withStrength .weak),
        .setAutoSolve true, .add (.compare (.var ⟨0, .free⟩) .atMost (.const 120))]
      ([], new)).any (fun y =>
        (Request.add (.compare (.var ⟨0, .free⟩) .atMost (.const 50))).isWithin y.1 &&
        (y.2.perform 9 (.add (.compare (.var ⟨0, .free⟩) .atMost (.const 50)))).any fun o =>
          decide ((o.log.filterMap fun e => match e with
            | .swapped w => some w
            | _ => none) = [⟨⟨4, .slack⟩, ⟨1, .slack⟩⟩, ⟨⟨1, .slack⟩, ⟨4, .slack⟩⟩])) = true := by
    decide +kernel
  obtain ⟨y, hy, hcheck⟩ := (Option.any_eq_true _ _).1 hrun
  rw [Bool.and_eq_true] at hcheck
  obtain ⟨hwithin, hcheck⟩ := hcheck
  obtain ⟨o, ho, hswaps⟩ := (Option.any_eq_true _ _).1 hcheck
  have hreached : Reached (fun _ _ _ => True) y.1 y.2 :=
    Reached.replay (fun _ _ _ _ => trivial) (.start {}) hy
  obtain ⟨hgranted, hdone⟩ :=
    exchanges_granted hreached (Request.within_of_isWithin hwithin)
  exact ⟨y, o, hy, ho, of_decide_eq_true hswaps, hgranted, hdone 9 o ho⟩

end Solver

end SoftSimplex
