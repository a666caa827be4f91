import SoftSimplex.Proofs.Balance
import SoftSimplex.Proofs.CandidateCache
import SoftSimplex.Solver.History

/-!
# The books

The records of a solver, apart from any tableau: what the constraints demand together, what their
errors cost together, and the order in which the books are kept. Variables carry numbers that were
drawn once, no two records share a variable, and a marker leads back to its constraint. There is
one law for each way in which an operation changes the books.
-/

namespace SoftSimplex

/-! ## Sums over a table -/

namespace Table

variable {κ β : Type} [DecidableEq κ]

theorem perm_cons_erase {t : Table κ β} {k : κ} {v : β} (h : t.get? k = some v) :
    t.entries.Perm ((k, v) :: (t.erase k).entries) := by
  have hmem := get?_eq_some_iff.1 h
  show t.entries.Perm ((k, v) :: t.entries.eraseP fun e => decide (e.1 = k))
  have hkey : decide ((k, v).1 = k) = true := decide_eq_true rfl
  obtain ⟨e, l₁, l₂, hl, hk, hes, her⟩ :=
    List.exists_of_eraseP (p := fun e : κ × β => decide (e.1 = k)) hmem hkey
  have hk : e.1 = k := by simpa using hk
  have he : e = (k, v) := by
    have hget : t.get? e.1 = some e.2 := get?_eq_some_iff.2 (hes ▸ by simp)
    rw [hk, h, Option.some.injEq] at hget
    rw [hget, ← hk]
  rw [her, hes, he]
  exact List.perm_middle

theorem sum_erase (f : κ × β → Rat) {t : Table κ β} {k : κ} {v : β} (h : t.get? k = some v) :
    (t.entries.map f).sum = f (k, v) + ((t.erase k).entries.map f).sum := by
  rw [((perm_cons_erase h).map f).sum_eq, List.map_cons, List.sum_cons]

theorem sum_insert (f : κ × β → Rat) (t : Table κ β) (k : κ) (v : β) :
    ((t.insert k v).entries.map f).sum =
      (t.entries.map f).sum + f (k, v) - ((t.get? k).map fun w => f (k, w)).getD 0 := by
  show ((Entries.put k v t.entries).map f).sum =
    (t.entries.map f).sum + f (k, v) - ((Entries.find? k t.entries).map fun w => f (k, w)).getD 0
  induction t.entries with
  | nil => simp [Entries.put, Entries.find?]
  | cons e es ih =>
    by_cases hk : e.1 = k
    · have he : (k, e.2) = e := by rw [← hk]
      simp [Entries.put, Entries.find?, hk, he]
      ring
    · simp only [Entries.put, Entries.find?, hk, if_false, List.map_cons, List.sum_cons, ih]
      ring

end Table

/-! ## Numbers drawn once -/

/-- `V` has variables with numbers that were drawn, one for each number. -/
structure Supply.Issued (s : Supply) (V : Variable → Prop) : Prop where
  numbered : Numbered V
  drawn : ∀ v, V v → v.id < s.drawn

namespace Supply

variable {V : Variable → Prop} {s : Supply}

theorem Issued.fresh (h : s.Issued V) (role : Role) : ¬V (s.next role) := by
  intro hv
  have hlt := h.drawn _ hv
  simp [next] at hlt

theorem Issued.next (h : s.Issued V) (role : Role) :
    s.advance.Issued fun v => V v ∨ v = s.next role where
  numbered := by
    rintro v w (hv | rfl) (hw | rfl) hid
    · exact h.numbered v w hv hw hid
    · have hlt := h.drawn v hv
      simp only [Supply.next] at hid
      omega
    · have hlt := h.drawn w hw
      simp only [Supply.next] at hid
      omega
    · rfl
  drawn := by
    rintro v (hv | rfl)
    · have hlt := h.drawn v hv
      simp only [advance]
      omega
    · simp [Supply.next, advance]

theorem Issued.congr {W : Variable → Prop} (h : s.Issued V) (hVW : ∀ v, W v ↔ V v) :
    s.Issued W :=
  ⟨fun v w hv hw => h.numbered v w ((hVW v).1 hv) ((hVW w).1 hw),
    fun v hv => h.drawn v ((hVW v).1 hv)⟩

/-- What a constraint draws is new. -/
theorem Issued.draw (h : s.Issued V) {α : Type} [Scalar α] (c : Constraint α) :
    (Auxiliaries.draw s c).2.Issued (fun v => V v ∨ v ∈ (Auxiliaries.draw s c).1.own) ∧
      ∀ v ∈ (Auxiliaries.draw s c).1.own, ¬V v := by
  unfold Auxiliaries.draw Auxiliaries.own
  cases c.isInequality with
  | true =>
    cases c.isRequired with
    | true =>
      refine ⟨(h.next .slack).congr fun v => by simp, fun v hv => ?_⟩
      obtain rfl : v = s.next .slack := by simpa using hv
      exact h.fresh _
    | false =>
      refine ⟨((h.next .slack).next .error).congr fun v => by simp [or_assoc], fun v hv => ?_⟩
      obtain rfl | rfl : v = s.next .slack ∨ v = s.advance.next .error := by simpa using hv
      · exact h.fresh _
      · exact fun hV => (h.next .slack).fresh .error (.inl hV)
  | false =>
    cases c.isRequired with
    | true =>
      refine ⟨(h.next .dummy).congr fun v => by simp, fun v hv => ?_⟩
      obtain rfl : v = s.next .dummy := by simpa using hv
      exact h.fresh _
    | false =>
      refine ⟨((h.next .error).next .error).congr fun v => by simp [or_assoc], fun v hv => ?_⟩
      obtain rfl | rfl : v = s.next .error ∨ v = s.advance.next .error := by simpa using hv
      · exact h.fresh _
      · exact fun hV => (h.next .error).fresh .error (.inl hV)

end Supply

/-! ## Kept in order -/

namespace Solver

section Any

variable {α : Type} {s s' : Solver α} {id i : ConstraintId} {r q : Record α}

theorem record?_congr (h : s'.records = s.records) (i : ConstraintId) :
    s'.record? i = s.record? i := by
  unfold record?
  rw [h]

theorem record?_insert (h : s'.records = s.records.insert id r) (i : ConstraintId) :
    s'.record? i = if i = id then some r else s.record? i := by
  unfold record?
  rw [h, Table.get?_insert]

theorem record?_insert_self (h : s'.records = s.records.insert id r) : s'.record? id = some r := by
  rw [record?_insert h, if_pos rfl]

theorem record?_insert_iff (h : s'.records = s.records.insert id r) :
    s'.record? i = some q ↔ i = id ∧ r = q ∨ i ≠ id ∧ s.record? i = some q := by
  rw [record?_insert h]
  by_cases hi : i = id <;> simp [hi]

theorem record?_erase_iff (h : s'.records = s.records.erase id) :
    s'.record? i = some q ↔ i ≠ id ∧ s.record? i = some q := by
  unfold record?
  rw [h, Table.get?_erase]
  by_cases hi : i = id <;> simp [hi]

variable [Scalar α]

/-- Records speak of the client's variables `vs`, own variables in `V` that they do not share, and
are found by their markers. -/
structure Books (V : Variable → Prop) (vs : List Variable) (s : Solver α) : Prop where
  issued : s.supply.Issued V
  clients : ∀ v ∈ vs, V v ∧ v.isClient = true
  fits : ∀ {id r}, s.record? id = some r →
    r.Fits r.constraint.isInequality r.constraint.isRequired
  forms : ∀ {id r}, s.record? id = some r → ∀ v ∈ r.constraint.form.vars, v ∈ vs
  own : ∀ {id r}, s.record? id = some r → ∀ v ∈ r.own, V v
  apart : ∀ {i j r q v}, s.record? i = some r → s.record? j = some q → v ∈ r.own → v ∈ q.own →
    i = j
  marked : ∀ {m id}, s.markers.get? m = some id ↔ ∃ r, s.record? id = some r ∧ r.marker = m
  named : ∀ {id r}, s.record? id = some r → id.index < s.nextId

variable {V : Variable → Prop} {vs : List Variable}

theorem Books.proper (h : Books V vs s) (hr : s.record? id = some r) : r.Proper :=
  ⟨h.fits hr, fun v hv => (h.clients v (h.forms hr v hv)).2⟩

/-- Own variables occur in no form. -/
theorem Books.own_foreign (h : Books V vs s) (hr : s.record? id = some r)
    (hq : s.record? i = some q) {v : Variable} (hv : v ∈ r.own) : v ∉ q.constraint.form.vars := by
  intro hm
  have hc := (h.proper hq).clients v hm
  rw [(h.proper hr).own_not_client hv] at hc
  cases hc

/-! ## Changes to the books -/

theorem books_of_no_records (hissued : s.supply.Issued V)
    (hclients : ∀ v ∈ vs, V v ∧ v.isClient = true) (hrecords : s.records = ∅)
    (hmarkers : s.markers = ∅) : Books V vs s := by
  have hnone : ∀ {i q}, s.record? i ≠ some q := by
    intro i q hq
    unfold record? at hq
    rw [hrecords] at hq
    cases hq
  constructor
  · exact hissued
  · exact hclients
  · exact fun hq => absurd hq hnone
  · exact fun hq => absurd hq hnone
  · exact fun hq => absurd hq hnone
  · exact fun hq => absurd hq hnone
  · intro m i
    rw [hmarkers]
    constructor
    · intro hm
      cases hm
    · rintro ⟨q, hq, -⟩
      exact absurd hq hnone
  · exact fun hq => absurd hq hnone

theorem books_start (settings : Settings) : Books (fun _ => False) [] (ofSettings settings : Solver α) := by
  apply books_of_no_records _ _ rfl rfl
  · exact ⟨fun _ _ hv => hv.elim, fun _ hv => hv.elim⟩
  · intro v hv
    cases hv

theorem Books.reset (h : Books V vs s) : Books V vs s.reset.solver :=
  books_of_no_records h.issued h.clients rfl rfl

/-- Neither the tableau nor the settings are part of the books. -/
theorem Books.of_frame (h : Books V vs s) {s' : Solver α} (hsupply : s'.supply = s.supply)
    (hrecords : s'.records = s.records) (hmarkers : s'.markers = s.markers)
    (hnext : s'.nextId = s.nextId) : Books V vs s' := by
  have hget := record?_congr hrecords
  constructor
  · rw [hsupply]
    exact h.issued
  · exact h.clients
  · intro i q hq
    exact h.fits (hget i ▸ hq)
  · intro i q hq
    exact h.forms (hget i ▸ hq)
  · intro i q hq
    exact h.own (hget i ▸ hq)
  · intro i j q q' v hq hq'
    exact h.apart (hget i ▸ hq) (hget j ▸ hq')
  · intro m i
    rw [hmarkers, hget]
    exact h.marked
  · intro i q hq
    rw [hnext]
    exact h.named (hget i ▸ hq)

/-- A variable is drawn that no record knows. -/
theorem Books.advance (h : Books V vs s) (role : Role) :
    Books (fun v => V v ∨ v = s.supply.next role) vs { s with supply := s.supply.advance } where
  issued := h.issued.next role
  clients := fun v hv => ⟨.inl (h.clients v hv).1, (h.clients v hv).2⟩
  fits := h.fits
  forms := h.forms
  own := fun hq v hv => .inl (h.own hq v hv)
  apart := h.apart
  marked := h.marked
  named := h.named

/-- The client gets a new variable. -/
theorem Books.newVariable (h : Books V vs s) (bounded : Bool) :
    Books (fun v => V v ∨ v = (s.newVariable bounded).1) (vs ++ [(s.newVariable bounded).1])
      (s.newVariable bounded).2 where
  issued := h.issued.next _
  clients := by
    intro v hv
    rcases List.mem_append.1 hv with hv | hv
    · exact ⟨.inl (h.clients v hv).1, (h.clients v hv).2⟩
    · obtain rfl := List.mem_singleton.1 hv
      refine ⟨.inr rfl, ?_⟩
      cases bounded <;> rfl
  fits := h.fits
  forms := fun hq v hv => List.mem_append_left _ (h.forms hq v hv)
  own := fun hq v hv => .inl (h.own hq v hv)
  apart := h.apart
  marked := h.marked
  named := h.named

theorem Books.unnamed (h : Books V vs s) : s.record? ⟨s.nextId⟩ = none := by
  cases hr : s.record? ⟨s.nextId⟩ with
  | none => rfl
  | some q =>
    have hlt := h.named hr
    simp at hlt

/-- A marker that no record has leads to the record that is put in with it. -/
theorem Books.marked_insert (h : Books V vs s) (hnone : s.record? id = none)
    (hnew : ∀ {i q}, s.record? i = some q → q.marker ≠ r.marker) {s' : Solver α}
    (hrecords : s'.records = s.records.insert id r)
    (hmarkers : s'.markers = s.markers.insert r.marker id) {m : Variable} {i : ConstraintId} :
    s'.markers.get? m = some i ↔ ∃ q, s'.record? i = some q ∧ q.marker = m := by
  rw [hmarkers, Table.get?_insert]
  split
  · next hm =>
    constructor
    · intro hi
      cases hi
      exact ⟨r, record?_insert_self hrecords, hm.symm⟩
    · rintro ⟨q, hq, hqm⟩
      rcases (record?_insert_iff hrecords).1 hq with ⟨rfl, -⟩ | ⟨-, hq⟩
      · rfl
      · exact absurd (hqm.trans hm) (hnew hq)
  · next hm =>
    rw [h.marked]
    constructor
    · rintro ⟨q, hq, hqm⟩
      refine ⟨q, (record?_insert_iff hrecords).2 (.inr ⟨?_, hq⟩), hqm⟩
      rintro rfl
      rw [hnone] at hq
      cases hq
    · rintro ⟨q, hq, hqm⟩
      rcases (record?_insert_iff hrecords).1 hq with ⟨-, rfl⟩ | ⟨-, hq⟩
      · exact absurd hqm.symm hm
      · exact ⟨q, hq, hqm⟩

/-- A constraint is written in, with the variables drawn for it. -/
theorem Books.register (h : Books V vs s) {c : Constraint α} (hc : ∀ v ∈ c.form.vars, v ∈ vs) :
    Books (fun v => V v ∨ v ∈ (Auxiliaries.draw s.supply c).1.own) vs
      (({ s with nextId := s.nextId + 1 } : Solver α).register ⟨s.nextId⟩ c
        (Auxiliaries.draw s.supply c).1 (Auxiliaries.draw s.supply c).2) := by
  obtain ⟨hissued, hnew⟩ := h.issued.draw c
  set a := (Auxiliaries.draw s.supply c).1 with ha
  set s' := ({ s with nextId := s.nextId + 1 } : Solver α).register ⟨s.nextId⟩ c a
    (Auxiliaries.draw s.supply c).2 with hs'
  have hrecords : s'.records = s.records.insert ⟨s.nextId⟩ ⟨a, c⟩ := rfl
  have hget : ∀ {i q}, s'.record? i = some q →
      i = ⟨s.nextId⟩ ∧ ⟨a, c⟩ = q ∨ i ≠ ⟨s.nextId⟩ ∧ s.record? i = some q :=
    (record?_insert_iff hrecords).1
  constructor
  · exact hissued
  · exact fun v hv => ⟨.inl (h.clients v hv).1, (h.clients v hv).2⟩
  · intro i q hq
    rcases hget hq with ⟨-, rfl⟩ | ⟨-, hq⟩
    · exact Auxiliaries.draw_fits s.supply c
    · exact h.fits hq
  · intro i q hq
    rcases hget hq with ⟨-, rfl⟩ | ⟨-, hq⟩
    · exact hc
    · exact h.forms hq
  · intro i q hq v hv
    rcases hget hq with ⟨-, rfl⟩ | ⟨-, hq⟩
    · exact .inr hv
    · exact .inl (h.own hq v hv)
  · intro i j q q' v hq hq' hv hv'
    rcases hget hq with ⟨rfl, rfl⟩ | ⟨-, hq⟩
    · rcases hget hq' with ⟨rfl, -⟩ | ⟨-, hq'⟩
      · rfl
      · exact absurd (h.own hq' v hv') (hnew v hv)
    · rcases hget hq' with ⟨-, rfl⟩ | ⟨-, hq'⟩
      · exact absurd (h.own hq v hv) (hnew v hv')
      · exact h.apart hq hq' hv hv'
  · refine h.marked_insert h.unnamed (fun hq hm => ?_) hrecords rfl
    exact hnew a.marker List.mem_cons_self (hm ▸ h.own hq _ (Record.marker_mem_own _))
  · intro i q hq
    show i.index < s.nextId + 1
    rcases hget hq with ⟨rfl, -⟩ | ⟨-, hq⟩
    · exact Nat.lt_succ_self _
    · exact Nat.lt_succ_of_lt (h.named hq)

/-- A constraint is struck out. -/
theorem Books.strike (h : Books V vs s) (hr : s.record? id = some r) :
    Books V vs (s.strike id r) := by
  have hget : ∀ {i q}, (s.strike id r).record? i = some q ↔ i ≠ id ∧ s.record? i = some q :=
    record?_erase_iff rfl
  constructor
  · exact h.issued
  · exact h.clients
  · exact fun hq => h.fits (hget.1 hq).2
  · exact fun hq => h.forms (hget.1 hq).2
  · exact fun hq => h.own (hget.1 hq).2
  · exact fun hq hq' => h.apart (hget.1 hq).2 (hget.1 hq').2
  · intro m i
    show (s.markers.erase r.marker).get? m = some i ↔ _
    rw [Table.get?_erase]
    split
    · next hm =>
      constructor
      · intro hi
        cases hi
      · rintro ⟨q, hq, hqm⟩
        obtain ⟨hi, hq⟩ := hget.1 hq
        refine absurd (h.apart hq hr q.marker_mem_own ?_) hi
        rw [hqm, hm]
        exact r.marker_mem_own
    · next hm =>
      rw [h.marked]
      constructor
      · rintro ⟨q, hq, hqm⟩
        refine ⟨q, hget.2 ⟨?_, hq⟩, hqm⟩
        rintro rfl
        rw [hr] at hq
        cases hq
        exact hm hqm.symm
      · rintro ⟨q, hq, hqm⟩
        exact ⟨q, (hget.1 hq).2, hqm⟩
  · exact fun hq => h.named (hget.1 hq).2

/-- A constraint is edited: it keeps its variables and its kind. -/
theorem Books.edit (h : Books V vs s) (hr : s.record? id = some r) {c : Constraint α}
    (hvars : c.form.vars = r.constraint.form.vars)
    (hineq : c.isInequality = r.constraint.isInequality)
    (hreq : c.isRequired = r.constraint.isRequired) {s' : Solver α}
    (hsupply : s'.supply = s.supply)
    (hrecords : s'.records = s.records.insert id { r with constraint := c })
    (hmarkers : s'.markers = s.markers) (hnext : s'.nextId = s.nextId) : Books V vs s' := by
  have hget := record?_insert hrecords
  -- in place of the edited record stands one with the same variables
  have hold : ∀ {i q}, s'.record? i = some q → ∃ p, s.record? i = some p ∧
      p.toAuxiliaries = q.toAuxiliaries ∧
      p.constraint.form.vars = q.constraint.form.vars ∧
      p.constraint.isInequality = q.constraint.isInequality ∧
      p.constraint.isRequired = q.constraint.isRequired := by
    intro i q hq
    rcases (record?_insert_iff hrecords).1 hq with ⟨rfl, rfl⟩ | ⟨-, hq⟩
    · exact ⟨r, hr, rfl, hvars.symm, hineq.symm, hreq.symm⟩
    · exact ⟨q, hq, rfl, rfl, rfl, rfl⟩
  constructor
  · rw [hsupply]
    exact h.issued
  · exact h.clients
  · intro i q hq
    obtain ⟨p, hp, ha, -, hi, hreq'⟩ := hold hq
    rw [← ha, ← hi, ← hreq']
    exact h.fits hp
  · intro i q hq
    obtain ⟨p, hp, -, hv, -⟩ := hold hq
    rw [← hv]
    exact h.forms hp
  · intro i q hq
    obtain ⟨p, hp, ha, -⟩ := hold hq
    rw [← ha]
    exact h.own hp
  · intro i j q q' v hq hq' hv hv'
    obtain ⟨p, hp, ha, -⟩ := hold hq
    obtain ⟨p', hp', ha', -⟩ := hold hq'
    rw [← ha] at hv
    rw [← ha'] at hv'
    exact h.apart hp hp' hv hv'
  · intro m i
    rw [hmarkers, h.marked, hget]
    by_cases hi : i = id
    · subst hi
      rw [if_pos rfl, hr]
      simp
    · rw [if_neg hi]
  · intro i q hq
    obtain ⟨p, hp, -⟩ := hold hq
    rw [hnext]
    exact h.named hp

end Any

/-! ## Demands and costs together -/

variable {s : Solver Rat} {σ : Assignment Rat}

def Balanced (s : Solver Rat) (σ : Assignment Rat) : Prop :=
  ∀ id r, s.record? id = some r → r.Balanced σ

def BalancedBut (s : Solver Rat) (id : ConstraintId) (σ : Assignment Rat) : Prop :=
  ∀ i r, i ≠ id → s.record? i = some r → r.Balanced σ

def penalty (s : Solver Rat) (σ : Assignment Rat) : Rat :=
  (s.records.entries.map fun e => e.2.penalty σ).sum

theorem balanced_iff_but {id : ConstraintId} {r : Record Rat} (hr : s.record? id = some r) :
    s.Balanced σ ↔ s.BalancedBut id σ ∧ r.Balanced σ := by
  constructor
  · intro h
    exact ⟨fun i r' _ hr' => h i r' hr', h id r hr⟩
  · rintro ⟨hbut, hself⟩ i r' hr'
    by_cases hi : i = id
    · subst hi
      rw [hr] at hr'
      cases hr'
      exact hself
    · exact hbut i r' hi hr'

/-- What a record demands is left out or put in with its entry. -/
theorem balanced_insert_iff (s' : Solver Rat) (id : ConstraintId) (r : Record Rat)
    (hs' : s'.records = s.records.insert id r) :
    s'.Balanced σ ↔ s.BalancedBut id σ ∧ r.Balanced σ := by
  rw [balanced_iff_but (record?_insert_self hs')]
  apply and_congr_left'
  apply forall₃_congr
  intro i q hi
  rw [record?_insert hs', if_neg hi]

theorem balanced_erase_iff (s' : Solver Rat) (id : ConstraintId)
    (hs' : s'.records = s.records.erase id) : s'.Balanced σ ↔ s.BalancedBut id σ := by
  apply forall₂_congr
  intro i q
  rw [record?_erase_iff hs', and_imp]

theorem penalty_insert (s' : Solver Rat) (id : ConstraintId) (r : Record Rat)
    (hs' : s'.records = s.records.insert id r) :
    s'.penalty σ =
      s.penalty σ + r.penalty σ - ((s.record? id).map fun q => q.penalty σ).getD 0 := by
  unfold penalty
  rw [hs', Table.sum_insert]
  rfl

theorem penalty_erase (s' : Solver Rat) {id : ConstraintId} {r : Record Rat}
    (hr : s.record? id = some r) (hs' : s'.records = s.records.erase id) :
    s'.penalty σ = s.penalty σ - r.penalty σ := by
  unfold penalty
  rw [hs', Table.sum_erase (fun e => e.2.penalty σ) hr]
  ring

theorem penalty_congr {τ : Assignment Rat}
    (h : ∀ id r, s.record? id = some r → ∀ v ∈ r.errors, σ v = τ v) :
    s.penalty σ = s.penalty τ := by
  unfold penalty
  congr 1
  apply List.map_congr_left
  rintro ⟨id, r⟩ he
  exact Record.penalty_congr (h id r (Table.get?_eq_some_iff.2 he))

variable {V : Variable → Prop} {vs : List Variable} {id : ConstraintId} {r : Record Rat}

/-- The other records do not mind what becomes of an own variable. -/
theorem Books.balancedBut_update_iff (h : Books V vs s) (hr : s.record? id = some r)
    {v : Variable} (hv : v ∈ r.own) (k : Rat) :
    s.BalancedBut id (Function.update σ v k) ↔ s.BalancedBut id σ := by
  unfold BalancedBut
  apply forall₃_congr
  intro i q hi
  apply forall_congr'
  intro hq
  apply (h.proper hq).balanced_update_foreign _ (h.own_foreign hr hq hv)
  intro hvq
  exact hi (h.apart hq hr hvq hv)

theorem penalty_update {v : Variable} (hv : ∀ id r, s.record? id = some r → v ∉ r.own) (k : Rat) :
    s.penalty (Function.update σ v k) = s.penalty σ := by
  apply penalty_congr
  intro i q hq w hw
  apply Function.update_of_ne
  rintro rfl
  exact hv i q hq (Record.error_mem_own hw)

end Solver

end SoftSimplex
