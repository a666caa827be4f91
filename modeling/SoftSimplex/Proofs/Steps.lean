import SoftSimplex.Proofs.Orderly
import SoftSimplex.Proofs.Ratios

/-!
# One step of a pass

A step of each pass is opened once: what it found, and what it did about it. The two primal steps
differ in how they choose the variable that enters and agree in what they do with it; `descend` is
what they have in common. An exchange that a pass asks for is never refused. Nothing here depends
on the arithmetic.
-/

namespace SoftSimplex

variable {α : Type}

/-! ## Repeating a step -/

/-- What a step leads to: another state, the goal, or a state in which it is stuck. -/
def Step.Meets (next goal : Tableau α → Prop)
    (stuck : Tableau α → Failure → Prop) : Step α → Prop
  | .done t => goal t
  | .swapped t _ => next t
  | .failed t f => stuck t f

def Pass.Meets (goal : Tableau α → Prop)
    (stuck : Tableau α → Failure → Prop) (p : Pass α) : Prop :=
  match p.ending with
  | .ok () => goal p.tableau
  | .error f => stuck p.tableau f

theorem Step.Meets.mono {next next' goal goal' : Tableau α → Prop}
    {stuck stuck' : Tableau α → Failure → Prop} {x : Step α} (h : x.Meets next goal stuck)
    (hnext : ∀ u, next u → next' u) (hgoal : ∀ u, goal u → goal' u)
    (hstuck : ∀ u f, stuck u f → stuck' u f) : x.Meets next' goal' stuck' := by
  cases x with
  | done t => exact hgoal t h
  | swapped t w => exact hnext t h
  | failed t f => exact hstuck t f h

/-- What holds however a pass ends. -/
theorem Pass.Meets.tableau {goal : Tableau α → Prop} {stuck : Tableau α → Failure → Prop}
    {p : Pass α} (h : p.Meets goal stuck) {Q : Tableau α → Prop} (hgoal : ∀ u, goal u → Q u)
    (hstuck : ∀ u f, stuck u f → Q u) : Q p.tableau := by
  unfold Meets at h
  split at h
  · exact hgoal _ h
  · exact hstuck _ _ h

theorem Pass.Meets.mono {goal goal' : Tableau α → Prop} {stuck stuck' : Tableau α → Failure → Prop}
    {p : Pass α} (h : p.Meets goal stuck) (hgoal : ∀ u, goal u → goal' u)
    (hstuck : ∀ u f, stuck u f → stuck' u f) : p.Meets goal' stuck' := by
  unfold Meets at h ⊢
  cases hend : p.ending with
  | ok _ =>
    rw [hend] at h
    exact hgoal _ h
  | error f =>
    rw [hend] at h
    exact hstuck _ f h

/-- Two things that a pass leads to. -/
theorem Pass.Meets.and {goal goal' : Tableau α → Prop} {stuck stuck' : Tableau α → Failure → Prop}
    {p : Pass α} (h : p.Meets goal stuck) (h' : p.Meets goal' stuck') :
    p.Meets (fun u => goal u ∧ goal' u) fun u f => stuck u f ∧ stuck' u f := by
  unfold Meets at h h' ⊢
  cases hend : p.ending with
  | ok _ =>
    rw [hend] at h h'
    exact ⟨h, h'⟩
  | error f =>
    rw [hend] at h h'
    exact ⟨h, h'⟩

theorem Tableau.iterate_meets {step : Tableau α → Step α} {I goal : Tableau α → Prop}
    {stuck : Tableau α → Failure → Prop} (hstep : ∀ u, I u → (step u).Meets I goal stuck)
    {n : Nat} {t : Tableau α} {p : Pass α} (ht : I t) (h : iterate step n t = some p) :
    p.Meets goal stuck := by
  have hmeets := hstep t ht
  induction n, t using iterate.induct step generalizing p with
  | case1 n t t' hs =>
    unfold iterate at h
    simp only [hs, Option.some.injEq] at h
    subst h
    rw [hs] at hmeets
    exact hmeets
  | case2 n t t' f hs =>
    unfold iterate at h
    simp only [hs, Option.some.injEq] at h
    subst h
    rw [hs] at hmeets
    exact hmeets
  | case3 t t' w hs =>
    unfold iterate at h
    simp [hs] at h
  | case4 t t' w hs n ih =>
    unfold iterate at h
    simp only [hs, Option.map_eq_some_iff] at h
    obtain ⟨q, hq, rfl⟩ := h
    rw [hs] at hmeets
    have hrest := ih hmeets hq (hstep t' hmeets)
    exact hrest

namespace Tableau

variable [Scalar α] {V : Variable → Prop} {t : Tableau α}

/-! ## The primal steps -/

/-- Let the given variable enter, in the place of the row that limits it most. -/
def descend (t : Tableau α) : Option Variable → Step α
  | none => .done t
  | some entry =>
    match t.tightest? entry with
    | none => .failed t .unbounded
    | some exit => .ofExchange t entry exit

theorem descend_of_exchange {t' : Tableau α} {entry exit : Variable}
    (hx : t.tightest? entry = some exit) (he : t.exchange entry exit = .ok t') :
    t.descend (some entry) = .swapped t' ⟨entry, exit⟩ := by
  unfold descend
  simp only [hx, Step.ofExchange, he]

theorem descend_of_unlimited {entry : Variable} (hx : t.tightest? entry = none) :
    t.descend (some entry) = .failed t .unbounded := by
  unfold descend
  simp only [hx]

theorem Indexed.exists_exchange_tightest (h : t.Indexed) {entry exit : Variable}
    (hx : t.tightest? entry = some exit) : ∃ t', t.exchange entry exit = .ok t' := by
  obtain ⟨-, row, hrow, hmem⟩ := h.row_of_tightest? hx
  exact exchange_ok_of_mem hrow hmem

/-- The step is over if nothing is to enter, stuck if no row limits what does, and else an
exchange. -/
theorem Indexed.descend_meets (h : t.Indexed) (chosen : Option Variable) :
    (t.descend chosen).Meets
      (fun u => ∃ entry exit, chosen = some entry ∧ t.tightest? entry = some exit ∧
        t.exchange entry exit = .ok u)
      (fun u => u = t ∧ chosen = none)
      fun u f => u = t ∧ f = .unbounded ∧ ∃ entry, chosen = some entry ∧
        t.tightest? entry = none := by
  cases chosen with
  | none => exact And.intro rfl rfl
  | some entry =>
    cases hx : t.tightest? entry with
    | none =>
      rw [descend_of_unlimited hx]
      exact And.intro rfl ⟨rfl, entry, rfl, hx⟩
    | some exit =>
      obtain ⟨t', he⟩ := h.exists_exchange_tightest hx
      rw [descend_of_exchange hx he]
      exact Exists.intro entry ⟨exit, rfl, hx, he⟩

/-- Candidates are never out of date, so none is dropped on the way to the lowest. -/
theorem Orderly.dropStale (h : t.Orderly V) :
    ({ t with candidates := t.candidates.dropWhile t.isStale } : Tableau α) = t := by
  have hfresh : ∀ v ∈ t.candidates.members, t.isStale v = false := by
    intro v hv
    have hp := (h.scouted v).1 hv
    unfold profitable at hp
    rw [Bool.and_eq_true] at hp
    obtain ⟨c, hc, hneg⟩ := (Option.any_eq_true _ _).1 hp.2
    have hopen := h.wellFormed.objective_open (LinearForm.mem_vars_iff.2 ⟨c, hc⟩)
    have hbasic : t.isBasic v = false := isBasic_eq_false_iff.2 hopen
    unfold isStale LinearForm.coeff
    rw [hbasic, hc, Bool.false_or, Option.getD_some]
    exact Scalar.isNonneg_of_isNeg hneg
  have hmem : t.candidates.members.dropWhile t.isStale = t.candidates.members := by
    cases hc : t.candidates.members with
    | nil => rfl
    | cons v vs =>
      have hv := hfresh v (hc ▸ List.mem_cons_self)
      rw [List.dropWhile_cons, hv]
      rfl
  have hc : t.candidates.dropWhile t.isStale = t.candidates := Candidates.ext hmem
  rw [hc]

/-- The lowest candidate enters. It is taken out of the candidates first, which makes no
difference. -/
theorem Orderly.objectiveStep_eq (h : t.Orderly V) :
    t.objectiveStep = t.descend t.candidates.head? := by
  unfold objectiveStep
  rw [h.dropStale]
  cases hc : t.candidates.members with
  | nil =>
    simp only [takeCandidate, Candidates.head?_of_nil hc, Candidates.tail_of_nil hc]
    rfl
  | cons entry vs =>
    have hlimit : ({ t with candidates := t.candidates.tail } : Tableau α).tightest? entry =
        t.tightest? entry := rfl
    simp only [takeCandidate, Candidates.head?_of_cons hc, hlimit]
    cases hx : t.tightest? entry with
    | none =>
      have hp : ({ t with candidates := t.candidates.tail } : Tableau α).profitable entry = true :=
        (h.scouted entry).1 (hc ▸ List.mem_cons_self)
      have hback : ({ t with candidates := t.candidates.tail } : Tableau α).refresh entry = t := by
        unfold refresh
        rw [if_pos hp, Candidates.insert_tail hc]
      rw [descend_of_unlimited hx]
      simp only [hback]
    | some exit =>
      obtain ⟨t', he⟩ := h.wellFormed.indexed.exists_exchange_tightest hx
      have he' : ({ t with candidates := t.candidates.tail } : Tableau α).exchange entry exit =
          .ok t' := (exchange_withCandidates t (Candidates.erase_tail hc) exit).trans he
      rw [descend_of_exchange hx he]
      simp only [Step.ofExchange, he']

/-- The variables of the artificial objective that may enter and would lower it. -/
theorem mem_artificialEntries_iff {g : LinearForm α} (hg : t.artificial = some g) {v : Variable} :
    v ∈ t.artificialEntries ↔
      v.mayEnter = true ∧ v ∈ g.vars ∧ Scalar.isNeg (g.coeff v) = true := by
  unfold artificialEntries
  simp only [hg, List.mem_map, List.mem_filter, Bool.and_eq_true]
  constructor
  · rintro ⟨e, ⟨he, hmay, hneg⟩, rfl⟩
    rw [LinearForm.coeff_of_entry he]
    exact ⟨hmay, LinearForm.mem_vars_of_entry he, hneg⟩
  · rintro ⟨hmay, hmem, hneg⟩
    exact ⟨(v, g.coeff v), ⟨LinearForm.entry_of_mem_vars hmem, hmay, hneg⟩, rfl⟩

/-- The lowest variable that lowers the artificial objective enters. -/
theorem Orderly.artificialStep_eq (hV : Numbered V) (h : t.Orderly V) :
    t.artificialStep = t.descend (Variable.lowest? t.artificialEntries) := by
  unfold artificialStep
  cases hl : Variable.lowest? t.artificialEntries with
  | none => rfl
  | some entry =>
    cases hx : t.tightest? entry with
    | none =>
      have hin : V entry := by
        have hmem := Variable.mem_of_lowest? hl
        cases ha : t.artificial with
        | none =>
          unfold artificialEntries at hmem
          rw [ha] at hmem
          cases hmem
        | some g => exact h.within.artificial ha entry ((mem_artificialEntries_iff ha).1 hmem).2.1
      rw [descend_of_unlimited hx]
      simp only [hx, h.scouted.refresh_eq hV h.within hin]
    | some exit => simp only [hx, descend]

/-! ## The dual step -/

/-- The step is over if all queued rows need no repair. Else it looks at the row queued last that
does: it is stuck if nothing raises that row, and an exchange otherwise. -/
theorem WellFormed.repairStep_meets (h : t.WellFormed) :
    t.repairStep.Meets
      (fun u => ∃ q exit row entry, (∀ b ∈ q.keys, b ∈ t.queue.keys) ∧
        (∀ b ∈ t.queue.keys, t.isSettled b = false → b ≠ exit → b ∈ q.keys) ∧
        t.row? exit = some row ∧ exit.isRestricted = true ∧ t.isSettled exit = false ∧
        t.cheapest? row = some entry ∧
        ({ t with queue := q } : Tableau α).exchange entry exit = .ok u)
      (fun u => (∀ b ∈ t.queue.keys, t.isSettled b = true) ∧ u = { t with queue := ∅ })
      fun u f => f = .fault .noRepair ∧ ∃ q exit row, (∀ b ∈ q.keys, b ∈ t.queue.keys) ∧
        t.row? exit = some row ∧ exit.isRestricted = true ∧ t.isSettled exit = false ∧
        t.cheapest? row = none ∧ u = { t with queue := q } := by
  unfold repairStep
  set q := t.queue.dropBackWhile t.isSettled with hq
  have hsub : ∀ b ∈ q.keys, b ∈ t.queue.keys := fun b hb => Table.mem_of_mem_keys_dropBackWhile hb
  have hkeep : ∀ b ∈ t.queue.keys, t.isSettled b = false → b ∈ q.keys :=
    fun b hb hs => Table.mem_keys_dropBackWhile hb hs
  have hlast : ∀ b ∈ q.dropLast.keys, b ∈ t.queue.keys := by
    intro b hb
    rw [Table.keys_dropLast] at hb
    exact hsub b ((List.dropLast_sublist _).subset hb)
  simp only [takeQueued]
  cases hl : q.lastKey? with
  | none =>
    have hempty : q.keys = [] := List.getLast?_eq_none_iff.1 hl
    have hdrop : q.dropLast = ∅ := by
      apply Table.ext
      show q.entries.dropLast = []
      rw [List.map_eq_nil_iff.1 hempty]
      rfl
    refine And.intro (fun b hb => ?_) (by rw [hdrop])
    cases hs : t.isSettled b with
    | true => rfl
    | false =>
      have hmem := hkeep b hb hs
      rw [hempty] at hmem
      cases hmem
  | some exit =>
    obtain ⟨hr, row, hrow⟩ := h.queued (hsub exit (Table.mem_of_lastKey? hl))
    have hset := Table.lastKey?_dropBackWhile hl
    have hcheap : (({ t with queue := q.dropLast } : Tableau α).row? exit).bind
        ({ t with queue := q.dropLast } : Tableau α).cheapest? = t.cheapest? row := by
      show (t.row? exit).bind t.cheapest? = _
      rw [hrow]
      rfl
    simp only [hcheap]
    cases hx : t.cheapest? row with
    | none => exact And.intro rfl ⟨q.dropLast, exit, row, hlast, hrow, hr, hset, hx, rfl⟩
    | some entry =>
      have hrow' : ({ t with queue := q.dropLast } : Tableau α).row? exit = some row := hrow
      obtain ⟨t', he⟩ := exchange_ok_of_mem hrow' (of_cheapest? hx).1
      simp only [Step.ofExchange, he]
      refine Exists.intro q.dropLast ⟨exit, row, entry, hlast, ?_, hrow, hr, hset, hx, he⟩
      exact fun b hb hs hne => Table.mem_keys_dropLast hl (hkeep b hb hs) hne

/-! ## Passes keep order -/

theorem Orderly.descend_meets (hV : Numbered V) (h : t.Orderly V) (hf : t.FreeApart)
    (chosen : Option Variable) :
    (t.descend chosen).Meets (fun u => u.Orderly V ∧ u.FreeApart)
      (fun u => u.Orderly V ∧ u.FreeApart)
      fun u f => (u.Orderly V ∧ u.FreeApart) ∧ f = .unbounded := by
  apply (h.wellFormed.indexed.descend_meets chosen).mono
  · rintro u ⟨entry, exit, -, hx, he⟩
    obtain ⟨hr, -⟩ := h.wellFormed.indexed.row_of_tightest? hx
    exact ⟨h.exchange hV he, hf.exchange h.wellFormed.indexed hr he⟩
  · rintro u ⟨rfl, -⟩
    exact ⟨h, hf⟩
  · rintro u f ⟨rfl, hunbounded, -⟩
    exact ⟨⟨h, hf⟩, hunbounded⟩

theorem Orderly.objectiveStep_meets (hV : Numbered V) (h : t.Orderly V) (hf : t.FreeApart) :
    t.objectiveStep.Meets (fun u => u.Orderly V ∧ u.FreeApart)
      (fun u => u.Orderly V ∧ u.FreeApart)
      fun u f => (u.Orderly V ∧ u.FreeApart) ∧ f = .unbounded := by
  rw [h.objectiveStep_eq]
  exact h.descend_meets hV hf _

theorem Orderly.artificialStep_meets (hV : Numbered V) (h : t.Orderly V) (hf : t.FreeApart) :
    t.artificialStep.Meets (fun u => u.Orderly V ∧ u.FreeApart)
      (fun u => u.Orderly V ∧ u.FreeApart)
      fun u f => (u.Orderly V ∧ u.FreeApart) ∧ f = .unbounded := by
  rw [h.artificialStep_eq hV]
  exact h.descend_meets hV hf _

theorem Orderly.repairStep_meets (hV : Numbered V) (h : t.Orderly V) (hf : t.FreeApart) :
    t.repairStep.Meets (fun u => u.Orderly V ∧ u.FreeApart)
      (fun u => u.Orderly V ∧ u.FreeApart)
      fun u f => (u.Orderly V ∧ u.FreeApart) ∧ f = .fault .noRepair := by
  have hqueue : ∀ {q : Roster Variable}, (∀ b ∈ q.keys, b ∈ t.queue.keys) →
      ({ t with queue := q } : Tableau α).Orderly V ∧
        ({ t with queue := q } : Tableau α).FreeApart :=
    fun hq => ⟨h.withQueue hq, hf.of_rows fun _ => rfl⟩
  apply h.wellFormed.repairStep_meets.mono
  · rintro u ⟨q, exit, row, entry, hq, -, -, hr, -, -, he⟩
    obtain ⟨hu, hfree⟩ := hqueue hq
    exact ⟨hu.exchange hV he, hfree.exchange hu.wellFormed.indexed hr he⟩
  · rintro u ⟨-, rfl⟩
    exact hqueue fun b hb => by cases hb
  · rintro u f ⟨rfl, q, exit, row, hq, -, -, -, -, rfl⟩
    exact ⟨hqueue hq, rfl⟩

theorem Orderly.minimize_meets (hV : Numbered V) (h : t.Orderly V) (hf : t.FreeApart) {n : Nat}
    {p : Pass α} (hp : t.minimize n = some p) :
    p.Meets (fun u => u.Orderly V ∧ u.FreeApart)
      fun u f => (u.Orderly V ∧ u.FreeApart) ∧ f = .unbounded :=
  iterate_meets (I := fun u => u.Orderly V ∧ u.FreeApart)
    (fun _ hu => hu.1.objectiveStep_meets hV hu.2) ⟨h, hf⟩ hp

theorem Orderly.minimizeArtificial_meets (hV : Numbered V) (h : t.Orderly V) (hf : t.FreeApart)
    {n : Nat} {p : Pass α} (hp : t.minimizeArtificial n = some p) :
    p.Meets (fun u => u.Orderly V ∧ u.FreeApart)
      fun u f => (u.Orderly V ∧ u.FreeApart) ∧ f = .unbounded :=
  iterate_meets (I := fun u => u.Orderly V ∧ u.FreeApart)
    (fun _ hu => hu.1.artificialStep_meets hV hu.2) ⟨h, hf⟩ hp

theorem Orderly.repair_meets (hV : Numbered V) (h : t.Orderly V) (hf : t.FreeApart) {n : Nat}
    {p : Pass α} (hp : t.repair n = some p) :
    p.Meets (fun u => u.Orderly V ∧ u.FreeApart)
      fun u f => (u.Orderly V ∧ u.FreeApart) ∧ f = .fault .noRepair :=
  iterate_meets (I := fun u => u.Orderly V ∧ u.FreeApart)
    (fun _ hu => hu.1.repairStep_meets hV hu.2) ⟨h, hf⟩ hp

end Tableau

end SoftSimplex
