import Mathlib.Algebra.Order.Field.Rat
import SoftSimplex.Proofs.Requests

/-!
# What the objective's constant leaves out

The constant of the objective is what the errors cost, as long as whatever moves a row moves the
objective with it. An exchange does, and so do new costs and lost rows; moving the constant of a
constraint moves rows only. What is left out is a number that nothing but such moves and a reset
can change, and that each of them changes by an amount known beforehand: how far the marker moves,
times what it costs beyond what the objective says of it.
-/

namespace SoftSimplex

open LinearForm

def Request.movesConstant {α : Type} : Request α → Bool
  | .updateConstant _ _ => true
  | _ => false

/-! ## Solutions carried along -/

namespace Tableau

variable {V W : Variable → Prop} {P Q : Assignment Rat → Prop} {C D : Assignment Rat → Rat}
variable {t t' t'' : Tableau Rat} {σ : Assignment Rat} {c d : Assignment Rat → Rat}

/-- From `t` to `t'` solutions stay solutions, and the objective grows by `c` on them. -/
structure Carries (c : Assignment Rat → Rat) (t t' : Tableau Rat) : Prop where
  solves : ∀ σ, t.Solves σ → t'.Solves σ
  objective : ∀ σ, t.Solves σ → t'.objective.eval σ = t.objective.eval σ + c σ

theorem Carries.congr (h : Carries c t t') (hcd : ∀ σ, c σ = d σ) : Carries d t t' :=
  ⟨h.solves, fun σ hσ => hcd σ ▸ h.objective σ hσ⟩

theorem Carries.trans (h : Carries c t t') (h' : Carries d t' t'') :
    Carries (fun σ => c σ + d σ) t t'' where
  solves := fun σ hσ => h'.solves σ (h.solves σ hσ)
  objective := fun σ hσ => by
    rw [h'.objective σ (h.solves σ hσ), h.objective σ hσ, add_assoc]

/-- What does not change the objective can come after. -/
theorem Carries.andThen (h : Carries c t t') (h' : Carries (fun _ => 0) t' t'') : Carries c t t'' :=
  (h.trans h').congr fun _ => add_zero _

theorem Recast.carries (h : t'.Recast t) : Carries (fun _ => 0) t t' where
  solves := fun σ hσ => (h.solves σ).2 hσ
  objective := fun σ hσ => (h.objective σ hσ).trans (add_zero _).symm

theorem carries_addCost (t : Tableau Rat) (v : Variable) (w : Rat) :
    Carries (fun σ => w * σ v) t (t.addCost v w) where
  solves := fun _ hσ => (solves_congr fun b => row?_addCost t v b w).2 hσ
  objective := fun _ hσ => by rw [objective_addCost, eval_accumulate hσ]

theorem carries_removeRow (t : Tableau Rat) (b : Variable) :
    Carries (fun _ => 0) t (t.removeRow b) where
  solves := fun _ hσ => solves_iff.2 fun _ _ hg => hσ.row (row?_of_removeRow hg).2
  objective := fun _ _ => by rw [objective_removeRow, add_zero]

/-- Costs are added one after the other. -/
theorem carries_addCosts (t : Tableau Rat) (w : Rat) (es : List Variable) :
    Carries (fun σ => w * (es.map σ).sum) t (es.foldl (fun t v => t.addCost v w) t) := by
  induction es generalizing t with
  | nil => exact (Recast.refl t).carries.congr fun σ => by simp
  | cons e es ih =>
    apply ((carries_addCost t e w).trans (ih (t.addCost e w))).congr
    intro σ
    rw [List.map_cons, List.sum_cons, mul_add]

/-- So are errors waived. -/
theorem carries_waive (t : Tableau Rat) (w : Rat) (es : List Variable) :
    Carries (fun σ => -(w * (es.map σ).sum)) t (es.foldl (Tableau.waive w) t) := by
  induction es generalizing t with
  | nil => exact (Recast.refl t).carries.congr fun σ => by simp
  | cons e es ih =>
    have hfirst := (carries_addCost t e (-w)).andThen (carries_removeRow _ e)
    apply (hfirst.trans (ih (t.waive w e))).congr
    intro σ
    rw [List.map_cons, List.sum_cons]
    ring

/-! ## Excess -/

/-- What `C` comes to beyond the constant of the objective, where the tableau stands. -/
def excess (t : Tableau Rat) (C : Assignment Rat → Rat) : Rat := C t.point - t.objective.constant

/-- At any other solution `C` exceeds the objective by as much. -/
theorem Stands.excess_eq (h : t.Stands V P C) (hσ : t.Solves σ) :
    t.excess C = C σ - t.objective.eval σ := by
  have hwf := h.tidy.wellFormed
  obtain ⟨K, hK⟩ := h.measures
  unfold excess
  rw [hK _ hσ, hK _ hwf.solves_point, eval_point fun v hv => hwf.objective_open hv]
  ring

/-- Costs that grow as the objective does exceed it by the same amount. -/
theorem Stands.excess_carries (h : t.Stands V P C) (h' : t'.Stands W Q D) (hc : Carries c t t')
    (hD : ∀ σ, D σ = C σ + c σ) : t'.excess D = t.excess C := by
  have hσ := h.tidy.wellFormed.solves_point
  rw [h'.excess_eq (hc.solves _ hσ), h.excess_eq hσ, hc.objective _ hσ, hD]
  ring

theorem Stands.excess_keeps (h : t.Stands V P C) (hk : Keeps V t t') :
    t'.excess C = t.excess C :=
  h.excess_carries (h.keeps hk) hk.recast.carries fun _ => (add_zero _).symm

/-- A variable that costs nothing may be forgotten. -/
theorem Stands.excess_discard (h : t.Stands V P C) {a : Variable}
    (hC : ∀ σ k, C (Function.update σ a k) = C σ) (h' : (t.discard a).Stands W Q C) :
    (t.discard a).excess C = t.excess C := by
  have hwf := h.tidy.wellFormed
  have hpoint := hwf.solves_point
  -- without a row it is zero already, and with one nothing else mentions it
  have hτ : (t.removeRow a).Solves (Function.update t.point a 0) ∧
      t.objective.eval (Function.update t.point a 0) = t.objective.eval t.point := by
    cases hb : t.row? a with
    | none =>
      rw [removeRow_of_nonbasic hb, ← point_of_nonbasic hb, Function.update_eq_self]
      exact ⟨hpoint, rfl⟩
    | some row =>
      refine ⟨(hwf.solves_removeRow hb).2 ⟨t.point a, ?_⟩, eval_update_of_not_mem ?_ 0⟩
      · rw [Function.update_idem, Function.update_eq_self]
        exact hpoint
      · intro hm
        rw [hwf.objective_open hm] at hb
        cases hb
  have hsolves : (t.discard a).Solves (Function.update t.point a 0) := by
    apply ((hwf.removeRow a).indexed.solves_removeColumn (row?_removeRow_self t a)).2
    rw [Function.update_idem]
    exact hτ.1
  have hobj : (t.discard a).objective.eval (Function.update t.point a 0) =
      t.objective.eval t.point := by
    show ((t.removeRow a).objective.erase a).eval _ = _
    rw [objective_removeRow, eval_erase, Function.update_self, mul_zero, sub_zero, hτ.2]
  rw [h'.excess_eq hsolves, h.excess_eq hpoint, hC, hobj]

end Tableau

namespace Solver

variable {V : Variable → Prop} {vs : List Variable} {s : Solver Rat} {id : ConstraintId}
variable {r : Record Rat} {f : LinearForm Rat} {v : Variable} {u : Tableau Rat} {n : Nat}

def excess (s : Solver Rat) : Rat := s.tableau.excess s.penalty

/-! ## Adding and removing -/

theorem Books.carries_retract (h : s.Books V vs) (hr : s.record? id = some r)
    (ht : s.tableau.Releases V (s.BalancedBut id) r.Balanced s.penalty) :
    Tableau.Carries (fun σ => -r.penalty σ) s.tableau (s.retract id).solver.tableau := by
  have hstrike : Tableau.Carries (fun σ => -r.penalty σ) s.tableau (s.strike id r).tableau :=
    Tableau.carries_waive s.tableau r.constraint.weight r.errors
  have htidy := (h.strike_releases hr ht).tidy
  unfold Solver.retract
  simp only [hr]
  cases (s.strike id r).exitFor? r.marker with
  | none => exact hstrike.andThen (Tableau.carries_removeRow _ _)
  | some exit =>
    cases he : (s.strike id r).tableau.exchange r.marker exit with
    | ok t =>
      have hrecast := htidy.wellFormed.recast_exchange htidy.trim he
      simp only [he]
      exact (hstrike.andThen hrecast.carries).andThen (Tableau.carries_removeRow _ _)
    | error e =>
      simp only [he]
      exact hstrike.andThen (Tableau.carries_removeRow _ _)

theorem Books.excess_retract (h : s.Books V vs) (hr : s.record? id = some r)
    (ht : s.tableau.Releases V (s.BalancedBut id) r.Balanced s.penalty) :
    (s.retract id).solver.excess = s.excess := by
  obtain ⟨-, hsound, hrecords, -⟩ := h.retract hr ht
  have hcarries := h.carries_retract hr ht
  have hpenalty : ∀ σ, (s.retract id).solver.penalty σ = s.penalty σ + -r.penalty σ := by
    intro σ
    rw [penalty_erase _ hr hrecords, sub_eq_add_neg]
  rcases ht with ht | ht
  · exact ht.excess_carries hsound.stands hcarries hpenalty
  · exact ht.excess_carries hsound.stands hcarries hpenalty

theorem Sound.excess_prepare (h : s.Sound V vs) {c : Constraint Rat}
    (hc : ∀ v ∈ c.form.vars, v ∈ vs) : (s.prepare c).1.excess = s.excess := by
  refine h.stands.excess_carries (h.prepare hc).stands (Tableau.carries_addCosts _ _ _) fun σ => ?_
  rw [penalty_insert (s.prepare c).1 ⟨s.nextId⟩ ⟨(Auxiliaries.draw s.supply c).1, c⟩ (s := s) rfl,
    h.books.unnamed]
  exact sub_zero _

theorem Pending.excess_insertSolved (h : s.Pending V vs id r f) (hx : s.subject? f = some v) :
    (s.insertSolved v f).excess = s.excess := by
  obtain ⟨hmem, -⟩ := subject?_eq_some hx
  obtain ⟨hsound, -⟩ := h.insertSolved hx
  have hcoeff := h.trim v hmem
  have hpoint := hsound.stands.tidy.wellFormed.solves_point
  obtain ⟨hσ, hzero⟩ :=
    (h.stands.tidy.wellFormed.solves_insertSolved (h.vars v hmem).2 hcoeff).1 hpoint
  have hobj : (s.insertSolved v f).tableau.objective =
      s.tableau.objective.substitute v (f.isolate v) := by
    show (Tableau.insertRow _ _ _).objective = _
    rw [Tableau.objective_insertRow, Tableau.objective_substitute]
  have hnew := hsound.stands.excess_eq hpoint
  rw [hobj, eval_substitute _ _ _ ((eval_isolate_iff _ f hcoeff).2 hzero)] at hnew
  exact hnew.trans (h.stands.excess_eq hσ).symm

section FirstPhase

variable (h : s.Pending V vs id r f) (hx : s.subject? f = none)
  (hk : Tableau.Keeps (fun w => V w ∨ w = s.artificialVariable) (s.beginFirstPhase f).tableau u)

include h hx hk

theorem Pending.excess_opened : u.endFirstPhase.excess s.penalty = s.excess := by
  have hu := hk.tidy.wellFormed.solves_point
  have hbegin := (hk.recast.solves _).1 hu
  have hσ : s.tableau.Solves u.point := by
    have habsent := h.stands.tidy.within.absent (h.books.issued.fresh .slack)
    exact ((Tableau.solves_insertRow habsent.nonbasic).1 hbegin).1
  have hobj : u.endFirstPhase.objective.eval u.point = s.tableau.objective.eval u.point :=
    hk.recast.objective _ hbegin
  rw [(h.opened hx hk).excess_eq hu, hobj]
  exact (h.stands.excess_eq hσ).symm

theorem Pending.excess_rollBack (news : List (Event Rat)) (e : Failure) :
    ((s.afterFirstPhase f u).rollBack id s.artificialVariable news e).solver.excess = s.excess := by
  obtain ⟨-, hC, -⟩ := h.artificial_ignored
  have hgone := h.discarded hx hk
  set t := u.endFirstPhase.discard s.artificialVariable with ht
  have hdiscard : t.excess s.penalty = u.endFirstPhase.excess s.penalty := by
    rcases hgone with hst | hst
    · exact (h.opened hx hk).excess_discard hC hst
    · exact (h.opened hx hk).excess_discard hC hst
  rw [solver_of_rollBack]
  calc (({ s.beginFirstPhase f with tableau := t } : Solver Rat).retract id).solver.excess
      = t.excess s.penalty := (h.booksAfter t).excess_retract h.record hgone
    _ = u.endFirstPhase.excess s.penalty := hdiscard
    _ = s.excess := h.excess_opened hx hk

theorem Pending.excess_dismiss {g : LinearForm Rat} (hg : u.artificial = some g)
    (hzero : g.constant = 0) :
    ((s.afterFirstPhase f u).dismiss id s.artificialVariable).solver.excess = s.excess := by
  obtain ⟨-, hC, -⟩ := h.artificial_ignored
  obtain ⟨-, hsound, -, -⟩ := h.dismiss hx hk hg hzero
  have hopen := h.opened hx hk
  have hstart := h.excess_opened hx hk
  set t := u.endFirstPhase with ht
  have hdrop : ∀ {t' : Tableau Rat}, t'.row? s.artificialVariable = none →
      t'.removeColumn s.artificialVariable = t'.discard s.artificialVariable := by
    intro t' hb
    unfold Tableau.discard
    rw [Tableau.removeRow_of_nonbasic hb]
  have htab : (s.afterFirstPhase f u).tableau = t := rfl
  unfold Solver.dismiss at hsound ⊢
  simp only [htab] at hsound ⊢
  cases hb : t.row? s.artificialVariable with
  | none =>
    simp only [hb, Option.map_none, hdrop hb] at hsound ⊢
    exact (hopen.excess_discard hC hsound.stands).trans hstart
  | some row =>
    cases hsucc : row.successor? with
    | none =>
      simp only [hb, Option.map_some, hsucc] at hsound ⊢
      exact (hopen.excess_discard hC hsound.stands).trans hstart
    | some entry =>
      obtain ⟨t', he⟩ := Tableau.exchange_ok_of_mem hb (mem_of_successor? hsucc)
      have hwf := hopen.tidy.wellFormed
      have hkeeps := hopen.tidy.keeps_exchange (h.books.issued.next .slack).numbered rfl he
      have hout : t'.row? s.artificialVariable = none := by
        rw [hwf.row?_exchange hb he,
          if_neg (hwf.ne_of_mem hb (mem_of_successor? hsucc) hb).symm, if_pos rfl]
      simp only [hb, Option.map_some, hsucc, he, hdrop hout] at hsound ⊢
      have hgone := (hopen.keeps hkeeps).excess_discard hC hsound.stands
      exact hgone.trans ((hopen.excess_keeps hkeeps).trans hstart)

theorem Pending.excess_concludeFirstPhase {p : Pass Rat} (hp : p.tableau = u) :
    ((s.beginFirstPhase f).concludeFirstPhase id s.artificialVariable p).solver.excess =
      s.excess := by
  have hafter : ({ s.beginFirstPhase f with tableau := p.tableau.endFirstPhase } : Solver Rat) =
      s.afterFirstPhase f u := by
    rw [hp]
    rfl
  unfold Solver.concludeFirstPhase
  simp only [hafter]
  cases p.ending with
  | error e => exact h.excess_rollBack hx hk [] e
  | ok _ =>
    obtain ⟨g, hg⟩ := h.exists_artificial hk
    simp only [hp, hg, Option.map_some, Option.getD_some]
    by_cases hzero : Scalar.negligible g.constant = true
    · rw [if_pos hzero]
      exact h.excess_dismiss hx hk hg ((Scalar.negligible_rat _).1 hzero)
    · rw [if_neg hzero]
      exact h.excess_rollBack hx hk _ _

end FirstPhase

theorem Pending.excess_bringIn (h : s.Pending V vs id r f) {o : Outcome Rat Unit}
    (ho : s.bringIn n id f = some o) : o.solver.excess = s.excess := by
  rcases bringIn_cases ho with ⟨v, hx, rfl⟩ | ⟨hx, p, hp, hsolver, -⟩
  · exact h.excess_insertSolved hx
  · obtain ⟨htidy, -⟩ := h.beginFirstPhase
    have hmeets := htidy.minimizeArtificial_meets (h.books.issued.next .slack).numbered hp
    have hk : Tableau.Keeps (fun w => V w ∨ w = s.artificialVariable)
        (s.beginFirstPhase f).tableau p.tableau :=
      hmeets.tableau (fun _ hu => hu.1.toKeeps) fun _ _ hu => hu.1.toKeeps
    rw [hsolver]
    exact h.excess_concludeFirstPhase hx hk rfl

/-! ## Passes -/

theorem Sound.excess_solve (h : s.Sound V vs) {o : Outcome Rat Unit} (ho : s.solve n = some o) :
    o.solver.excess = s.excess := by
  obtain ⟨p, hp, rfl⟩ := solve_cases ho
  have hmeets := h.stands.tidy.minimize_meets h.books.issued.numbered hp
  exact h.stands.excess_keeps (hmeets.tableau (fun _ hu => hu.1.toKeeps) fun _ _ hu => hu.1.toKeeps)

theorem excess_settle {ρ : Type} {o o' : Outcome Rat ρ} (ho : o.settle n = some o')
    (h : o.solver.Sound V vs) : o'.solver.excess = o.solver.excess := by
  rcases o.settle_cases ho with rfl | ⟨q, hq, hsolver, -⟩
  · rfl
  · rw [hsolver]
    exact h.excess_solve hq

theorem Sound.excess_restore (h : s.Sound V vs) {o : Outcome Rat Unit}
    (ho : s.restore n = some o) : o.solver.excess = s.excess := by
  obtain ⟨p, hp, hsolver, -⟩ := restore_cases ho
  have hmeets := h.stands.tidy.repair_meets h.books.issued.numbered hp
  have hk : Tableau.Keeps V s.tableau p.tableau :=
    hmeets.tableau (fun _ hu => hu.1) fun _ _ hu => hu.1.1
  have hsame : p.tableau.excess s.penalty = s.excess := h.stands.excess_keeps hk
  rw [hsolver]
  exact hsame

/-! ## Edits -/

/-- A moved constant takes its marker along, in the books at the marker's own cost, in the objective
at none: the objective stays as it is while the marker in it moves. -/
theorem Sound.excess_shift (h : s.Sound V vs) (hr : s.record? id = some r) (k : Rat) :
    (s.shifted id r k).excess = s.excess +
      (r.constraint.constantFor k - r.constraint.form.constant) *
        (r.markerCost - s.tableau.objective.coeff r.marker) := by
  set δ := r.constraint.constantFor k - r.constraint.form.constant with hδ
  set σ := s.tableau.point with hσ
  set τ := Function.update σ r.marker (σ r.marker + δ) with hτ
  have hpoint : s.tableau.Solves σ := h.stands.tidy.wellFormed.solves_point
  have hback : Function.update τ r.marker (τ r.marker - δ) = σ := by
    rw [hτ, Function.update_self, Function.update_idem, add_sub_cancel_right,
      Function.update_eq_self]
  have hmoved : (s.shifted id r k).tableau.Solves τ := by
    apply (h.stands.tidy.wellFormed.solves_shiftConstant r.marker δ).2
    rw [hback]
    exact hpoint
  have hpenalty : (s.shifted id r k).penalty τ = s.penalty τ := by
    rw [penalty_insert (s.shifted id r k) id
      { r with constraint := r.constraint.withRightSide k } (s := s) rfl, hr]
    exact add_sub_cancel_right _ _
  have hobj : (s.shifted id r k).tableau.objective.eval τ =
      s.tableau.objective.eval σ + s.tableau.objective.coeff r.marker * δ := by
    obtain ⟨-, hobj, -⟩ := Tableau.shiftConstant_frame s.tableau r.marker δ
    show (s.tableau.shiftConstant r.marker δ).objective.eval τ = _
    rw [hobj, hτ, Tableau.eval_update]
    ring
  unfold excess
  rw [(h.shift hr k).stands.excess_eq hmoved, h.stands.excess_eq hpoint, hpenalty, hobj,
    penalty_shift h.books hr δ τ, hback]
  ring

theorem Sound.excess_reweigh (h : s.Sound V vs) (hr : s.record? id = some r)
    {new : Strength Rat} (hreq : new.isRequired = r.constraint.isRequired) :
    (s.reweighed id r new).excess = s.excess := by
  refine h.stands.excess_carries (h.reweigh hr hreq).stands
    (Tableau.carries_addCosts _ (new.weight - r.constraint.strength.weight) r.errors) fun σ => ?_
  rw [penalty_insert (s.reweighed id r new) id
    { r with constraint := r.constraint.withStrength new } (s := s) rfl, hr]
  show s.penalty σ + new.weight * (r.errors.map σ).sum -
    r.constraint.strength.weight * (r.errors.map σ).sum = _
  ring

/-! ## Every request -/

/-- What an edit of a constant adds to the cost of the errors and not to the objective. -/
def overlooked (s : Solver Rat) (id : ConstraintId) (k : Rat) : Rat :=
  match s.record? id with
  | some r => (r.constraint.constantFor k - r.constraint.form.constant) *
      (r.markerCost - s.tableau.objective.coeff r.marker)
  | none => 0

/-- What is left out of the objective's constant after a request, if it was `d` before. -/
def driftAfter (s : Solver Rat) (d : Rat) : Request Rat → Rat
  | .updateConstant id k => d + s.overlooked id k
  | .reset => 0
  | _ => d

theorem Sound.excess_add (h : s.Sound V vs) {c : Constraint Rat} (hc : ∀ v ∈ c.form.vars, v ∈ vs)
    {o : Outcome Rat ConstraintId} (ho : s.add n c = some o) : o.solver.excess = s.excess := by
  obtain ⟨q, hq, ho⟩ := add_cases ho
  have hpending := h.prepare hc
  obtain ⟨W, hsound, -⟩ := hpending.bringIn hq
  calc o.solver.excess
      = q.solver.excess := excess_settle ho hsound
    _ = (s.prepare c).1.excess := hpending.excess_bringIn hq
    _ = s.excess := h.excess_prepare hc

theorem Sound.excess_remove (h : s.Sound V vs) {o : Outcome Rat Unit}
    (ho : s.remove n id = some o) : o.solver.excess = s.excess := by
  rcases h.remove_cases ho with ⟨-, rfl⟩ | ⟨r, hr, ho⟩
  · rfl
  · obtain ⟨-, hsound, -⟩ := h.retract hr
    refine (excess_settle ho hsound).trans (h.books.excess_retract hr (.inl ?_))
    exact h.stands.congr (fun _ => balanced_iff_but hr) fun _ => rfl

theorem Sound.excess_updateConstant (h : s.Sound V vs) {k : Rat} {o : Outcome Rat Unit}
    (ho : s.updateConstant n id k = some o) :
    o.solver.excess = s.excess + s.overlooked id k := by
  unfold overlooked
  cases hr : s.record? id with
  | none =>
    rcases updateConstant_cases ho with rfl | ⟨r, -, hr', -⟩
    · exact (add_zero _).symm
    · rw [hr] at hr'
      cases hr'
  | some r =>
    unfold Solver.updateConstant at ho
    simp only [hr] at ho ⊢
    split at ho
    · next hsame =>
      obtain rfl := Option.some.inj ho
      rw [(Scalar.negligible_rat _).1 hsame, zero_mul, add_zero]
    · obtain ⟨q, hq, rfl⟩ := Option.map_eq_some_iff.1 ho
      exact ((h.shift hr k).excess_restore hq).trans (h.excess_shift hr k)

theorem Sound.excess_updateStrength (h : s.Sound V vs) {new : Strength Rat}
    {o : Outcome Rat Unit} (ho : s.updateStrength n id new = some o) :
    o.solver.excess = s.excess := by
  rcases updateStrength_cases ho with ⟨-, rfl⟩ | ⟨log, rfl⟩ | ⟨r, hr, hreq, ho⟩
  · rfl
  · rfl
  · exact (excess_settle ho (h.reweigh hr hreq)).trans (h.excess_reweigh hr hreq)

theorem Sound.excess_perform (h : s.Sound V vs) {q : Request Rat} (hq : q.Within vs)
    {o : Outcome Rat Reply} (ho : s.perform n q = some o) :
    o.solver.excess = s.driftAfter s.excess q := by
  cases q with
  | newVariable bounded =>
    cases ho
    rfl
  | add c =>
    obtain ⟨p, hp, rfl⟩ := Option.map_eq_some_iff.1 ho
    exact h.excess_add hq hp
  | remove id =>
    obtain ⟨p, hp, rfl⟩ := Option.map_eq_some_iff.1 ho
    exact h.excess_remove hp
  | updateConstant id k =>
    obtain ⟨p, hp, rfl⟩ := Option.map_eq_some_iff.1 ho
    exact h.excess_updateConstant hp
  | updateStrength id new =>
    obtain ⟨p, hp, rfl⟩ := Option.map_eq_some_iff.1 ho
    exact h.excess_updateStrength hp
  | solve =>
    obtain ⟨p, hp, rfl⟩ := Option.map_eq_some_iff.1 ho
    exact h.excess_solve hp
  | reset =>
    cases ho
    exact sub_self 0
  | setAutoSolve b =>
    cases ho
    rfl
  | setExplainFailure b =>
    cases ho
    rfl

/-- Any history, with what its edits have left out of the objective's constant. -/
inductive Drifts : Rat → List Variable → Solver Rat → Prop where
  | start (settings : Settings) : Drifts 0 [] (ofSettings settings)
  | step {d : Rat} {vs : List Variable} {s : Solver Rat} {q : Request Rat} {n : Nat}
    {o : Outcome Rat Reply} : Drifts d vs s → q.Within vs → s.perform n q = some o →
      Drifts (s.driftAfter d q) (vs ++ Reply.clients o.answer) o.solver

variable {d : Rat}

theorem Drifts.reached (h : Drifts d vs s) : Reached (fun _ _ _ => True) vs s := by
  induction h with
  | start settings => exact .start settings
  | step _ hq ho ih => exact ih.step hq ho trivial

/-- Every history leaves some amount out, and only if it moves constants an amount that is not
zero. -/
theorem Reached.drifts {allowed : Solver Rat → Request Rat → Outcome Rat Reply → Prop}
    (h : Reached allowed vs s) : ∃ d, Drifts d vs s ∧
      ((∀ s q o, allowed s q o → q.movesConstant = false) → d = 0) := by
  induction h with
  | start settings => exact ⟨0, .start settings, fun _ => rfl⟩
  | @step _ s q _ o _ hq ho hok ih =>
    obtain ⟨d, hd, hzero⟩ := ih
    refine ⟨_, hd.step hq ho, fun hno => ?_⟩
    have hmoves := hno s q o hok
    cases q with
    | updateConstant id k => cases hmoves
    | reset => rfl
    | _ => exact hzero hno

theorem Drifts.excess (h : Drifts d vs s) : s.excess = d := by
  induction h with
  | start settings => exact sub_self 0
  | @step d _ s q _ o hprev hq ho ih =>
    obtain ⟨V, hsound⟩ := hprev.reached.sound
    rw [hsound.excess_perform hq ho, ih]

/-- What the errors of the constraints that may be missed cost at the values that a client reads. -/
def errorCost (s : Solver Rat) : Rat :=
  ((s.records.entries.filter fun e => !e.2.constraint.isRequired).map fun e =>
    e.2.constraint.weight * (e.2.errors.map s.value).sum).sum

/-- Required constraints have no errors. -/
theorem Books.errorCost_eq (h : s.Books V vs) : s.errorCost = s.penalty s.tableau.point := by
  have hsum : ∀ es : List (ConstraintId × Record Rat), (∀ e ∈ es, e.2.Proper) →
      ((es.filter fun e => !e.2.constraint.isRequired).map fun e =>
        e.2.constraint.weight * (e.2.errors.map s.value).sum).sum =
      (es.map fun e => e.2.penalty s.tableau.point).sum := by
    intro es
    induction es with
    | nil => exact fun _ => rfl
    | cons e es ih =>
      intro hes
      have hrest := ih fun e he => hes e (List.mem_cons_of_mem _ he)
      rw [List.map_cons, List.sum_cons, ← hrest]
      cases hreq : e.2.constraint.isRequired with
      | true =>
        rw [(hes e List.mem_cons_self).penalty_of_required hreq, zero_add]
        simp [hreq]
      | false =>
        rw [List.filter_cons_of_pos (by simp [hreq]), List.map_cons, List.sum_cons, value_eq_point]
        rfl
  exact hsum _ fun e he => h.proper (Table.get?_eq_some_iff.2 he)

/-- The errors cost the constant of the objective and what edits of constants have left out of it
since the last reset, in every state that a history leads to. An edit leaves out how far it moves
its marker, times what the marker costs beyond its coefficient in the objective at that time; nothing
else leaves anything out. -/
theorem errorCost_eq_constant_add (h : Drifts d vs s) :
    s.errorCost = s.tableau.objective.constant + d := by
  obtain ⟨V, hsound⟩ := h.reached.sound
  rw [hsound.books.errorCost_eq, ← h.excess]
  exact (add_sub_cancel _ _).symm

/-- A width that would strongly be 5 and weakly 10. Letting it weakly be 20 raises what the errors
cost by 10 times 10, and the constant of the objective not at all. -/
theorem errorCost_of_edit :
    ∃ y o, replay (fun _ q _ => !q.movesConstant) 9
      [.newVariable false,
        .add ((Constraint.compare (var ⟨0, .free⟩) .equal (.const 5)).withStrength .strong),
        .add ((Constraint.compare (var ⟨0, .free⟩) .equal (.const 10)).withStrength .weak),
        .solve] ([], new) = some y ∧
      y.2.perform 9 (.updateConstant ⟨1⟩ 20) = some o ∧ Drifts 100 y.1 o.solver ∧
      o.solver.tableau.objective.constant = 50 ∧ o.solver.errorCost = 150 := by
  have hrun : (replay (fun _ q _ => !q.movesConstant) 9
      [.newVariable false,
        .add ((Constraint.compare (var ⟨0, .free⟩) .equal (.const 5)).withStrength .strong),
        .add ((Constraint.compare (var ⟨0, .free⟩) .equal (.const 10)).withStrength .weak),
        .solve] ([], new)).any (fun y => decide (y.2.overlooked ⟨1⟩ 20 = 100) &&
      (y.2.perform 9 (.updateConstant ⟨1⟩ 20)).any fun o =>
        decide (Reply.clients o.answer = []) &&
          decide (o.solver.tableau.objective.constant = 50)) = true := by
    decide +kernel
  obtain ⟨y, hy, hrest⟩ := (Option.any_eq_true _ _).1 hrun
  rw [Bool.and_eq_true, decide_eq_true_eq] at hrest
  obtain ⟨hover, hrest⟩ := hrest
  obtain ⟨o, ho, hcheck⟩ := (Option.any_eq_true _ _).1 hrest
  rw [Bool.and_eq_true, decide_eq_true_eq, decide_eq_true_eq] at hcheck
  have hreached : Reached (fun _ q _ => q.movesConstant = false) y.1 y.2 :=
    Reached.replay (fun _ _ _ hq => Bool.not_eq_true' _ ▸ hq) (.start {}) hy
  obtain ⟨d, hd, hzero⟩ := hreached.drifts
  obtain rfl := hzero fun _ _ _ hq => hq
  have hdrift : Drifts 100 y.1 o.solver := by
    have hstep := hd.step (q := .updateConstant ⟨1⟩ 20) trivial ho
    rw [hcheck.1, List.append_nil] at hstep
    have hsum : y.2.driftAfter 0 (.updateConstant ⟨1⟩ 20) = 100 := (zero_add _).trans hover
    rwa [hsum] at hstep
  refine ⟨y, o, hy, ho, hdrift, hcheck.2, ?_⟩
  rw [errorCost_eq_constant_add hdrift, hcheck.2]
  norm_num

/-- So the constant of the objective is not always what the errors cost. -/
theorem constant_stale : ¬∀ (vs : List Variable) (s : Solver Rat),
    Reached (fun _ _ _ => True) vs s → s.tableau.objective.constant = s.errorCost := by
  intro hall
  have hrun : (replay (fun _ _ _ => true) 9
      [.newVariable false,
        .add ((Constraint.compare (var ⟨0, .free⟩) .equal (.const 5)).withStrength .strong),
        .add ((Constraint.compare (var ⟨0, .free⟩) .equal (.const 10)).withStrength .weak),
        .solve, .updateConstant ⟨1⟩ 20] ([], new)).any (fun y =>
      decide (y.2.tableau.objective.constant ≠ y.2.errorCost)) = true := by
    decide +kernel
  obtain ⟨y, hy, hcheck⟩ := (Option.any_eq_true _ _).1 hrun
  exact of_decide_eq_true hcheck
    (hall _ _ (Reached.replay (fun _ _ _ _ => trivial) (.start {}) hy))

/-- In a history that moves no constant, the constant of the objective is what the errors cost. -/
theorem Reached.errorCost_eq_constant
    (h : Reached (fun _ q _ => q.movesConstant = false) vs s) :
    s.errorCost = s.tableau.objective.constant := by
  obtain ⟨V, hsound⟩ := h.sound
  obtain ⟨d, hd, hzero⟩ := h.drifts
  have hexcess := hd.excess
  rw [hzero fun _ _ _ hq => hq] at hexcess
  rw [hsound.books.errorCost_eq]
  exact sub_eq_zero.1 hexcess

end Solver

end SoftSimplex
