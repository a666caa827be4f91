import Mathlib.Algebra.Order.Ring.Abs
import SoftSimplex.Proofs.Coarse
import SoftSimplex.Proofs.Trim

/-!
# Which forms can be built

`Built allowed f` says that the operations on forms, those of formulas among them, can put `f`
together, where `allowed g k` says that `g` may be multiplied by `k`. Sums are looked at before they
are stored, products are not, so everything depends on the factors. With no restriction on them
every form can be built, with whatever coefficients; without the factor zero the forms that store no
zero; and if no product may be negligible, the forms that store nothing negligible.
-/

namespace SoftSimplex

namespace LinearForm

section Any

variable {α : Type} [Scalar α]

/-- Solving for `v` multiplies what is left. -/
def MaySolve (allowed : LinearForm α → α → Prop) (f : LinearForm α) (v : Variable) : Prop :=
  v ∈ f.vars → allowed (f.erase v) (-1 / f.coeff v)

/-- What can be built if `g` may be multiplied by `k` where `allowed g k`. To divide is to multiply
by the reciprocal. -/
inductive Built (allowed : LinearForm α → α → Prop) : LinearForm α → Prop
  | const (k : α) : Built allowed (.const k)
  | term (v : Variable) (c : α) : Built allowed (.term v c)
  | setConstant {f : LinearForm α} (k : α) :
      Built allowed f → Built allowed { f with constant := k }
  | shift {f : LinearForm α} (k : α) : Built allowed f → Built allowed (f.shift k)
  | addTerm {f : LinearForm α} (v : Variable) (c : α) :
      Built allowed f → Built allowed (f.addTerm v c)
  | addScaled {f g : LinearForm α} (m : α) :
      Built allowed f → Built allowed g → Built allowed (f.addScaled g m)
  | scale {f : LinearForm α} {k : α} : Built allowed f → allowed f k → Built allowed (f.scale k)
  | negate {f : LinearForm α} : Built allowed f → Built allowed f.negate
  | isolate {f : LinearForm α} {v : Variable} :
      Built allowed f → MaySolve allowed f v → Built allowed (f.isolate v)
  | exchange {f : LinearForm α} {old new : Variable} : Built allowed f →
      MaySolve allowed (f.addTerm old (-1)) new → Built allowed (f.exchange old new)
  | substitute {f g : LinearForm α} (v : Variable) :
      Built allowed f → Built allowed g → Built allowed (f.substitute v g)
  | erase {f : LinearForm α} (v : Variable) : Built allowed f → Built allowed (f.erase v)
  | plus {f : LinearForm α} {o : Operand α} : Built allowed f →
      (∀ g, o = .form g → Built allowed g) → Built allowed (f.plus o)
  | minus {f : LinearForm α} {o : Operand α} : Built allowed f →
      (∀ g, o = .form g → Built allowed g) → Built allowed (f.minus o)
  | times {o : Operand α} {k : α} : (∀ g, o = .form g → Built allowed g) →
      (∀ g, o = .form g → allowed g k) → Built allowed (o.scale k)

variable {allowed : LinearForm α → α → Prop} {f : LinearForm α}

/-! ## What operations keep -/

/-- Whatever is true of sums that are not negligible is true of all that is stored, as long as the
products are no exception. -/
theorem Built.stores {P : α → Prop} (hkept : ∀ {c : α}, Scalar.negligible c = false → P c)
    (hneg : ∀ c, P c → P (c * -1))
    (hallowed : ∀ {g k}, allowed g k → g.Stores P → (g.scale k).Stores P)
    (h : Built allowed f) : f.Stores P := by
  have hsolve : ∀ {g : LinearForm α} {v}, g.Stores P → MaySolve allowed g v →
      (g.isolate v).Stores P :=
    fun hg hk => hg.isolate fun hv => hallowed (hk hv) (hg.erase _)
  have hterm : ∀ v c, (LinearForm.term v c).Stores P := fun v c =>
    (stores_const P 0).addTerm hkept v c
  induction h with
  | const k => exact stores_const P k
  | term v c => exact hterm v c
  | setConstant _ _ ih => exact ih
  | shift _ _ ih => exact ih
  | addTerm v c _ ih => exact ih.addTerm hkept v c
  | addScaled m _ _ ih => exact ih.addScaled hkept _ m
  | scale _ hk ih => exact hallowed hk ih
  | negate _ ih => exact ih.scale hneg
  | isolate _ hk ih => exact hsolve ih hk
  | @exchange f old new _ hk ih => exact hsolve (ih.addTerm hkept old (-1)) hk
  | substitute v _ _ ih => exact ih.substitute hkept v _
  | erase v _ ih => exact ih.erase v
  | @plus f o _ _ ih _ =>
    cases o with
    | number k => exact ih
    | var v => exact ih.addTerm hkept v 1
    | form g => exact ih.addScaled hkept g 1
  | @minus f o _ _ ih _ =>
    cases o with
    | number k => exact ih
    | var v => exact ih.addTerm hkept v (-1)
    | form g => exact ih.addScaled hkept g (-1)
  | @times o k _ hk ih =>
    cases o with
    | number c => exact stores_const P (c * k)
    | var v => exact hterm v k
    | form g => exact hallowed (hk g rfl) (ih g rfl)

/-- What is built without the factor zero stores no zero. -/
theorem Built.trim [Scalar.Sharp α] (h : Built (fun _ k => k ≠ 0) f) : f.Trim :=
  trim_iff.2 (h.stores Scalar.Sharp.ne_zero_of_kept
    (fun _ hc => Scalar.Sharp.mul_ne_zero hc Scalar.Sharp.neg_one_ne_zero)
    fun hk hg => hg.scale fun _ hc => Scalar.Sharp.mul_ne_zero hc hk)

/-! ## Forms from their terms -/

theorem Built.addTerms (h : Built allowed f) (ts : List (Variable × α)) :
    Built allowed (f.addTerms ts) := by
  induction ts generalizing f with
  | nil => exact h
  | cons t ts ih => exact ih (h.addTerm t.1 t.2)

/-- New terms that are not negligible go to the end. -/
theorem entries_addTerms {ts : List (Variable × α)} (hnew : ∀ t ∈ ts, t.1 ∉ f.vars)
    (hnodup : (ts.map Prod.fst).Nodup) (hkept : ∀ t ∈ ts, Scalar.negligible t.2 = false) :
    (f.addTerms ts).terms.entries = f.terms.entries ++ ts := by
  induction ts generalizing f with
  | nil => exact (List.append_nil _).symm
  | cons t ts ih =>
    obtain ⟨hout, hnodup⟩ := List.nodup_cons.1 hnodup
    have hv := hnew t List.mem_cons_self
    have hone : (f.addTerm t.1 t.2).terms.entries = f.terms.entries ++ [t] := by
      unfold addTerm
      rw [Table.get?_eq_none_iff.2 hv]
      simp only [hkept t List.mem_cons_self, Bool.false_eq_true, if_false]
      exact Entries.put_of_not_mem hv t.2
    have hrest : ∀ u ∈ ts, u.1 ∉ (f.addTerm t.1 t.2).vars := by
      intro u hu hmem
      rcases mem_vars_addTerm hmem with heq | hmem
      · exact hout (heq ▸ List.mem_map_of_mem hu)
      · exact hnew u (List.mem_cons_of_mem _ hu) hmem
    have hrun := ih hrest hnodup fun u hu => hkept u (List.mem_cons_of_mem _ hu)
    rw [addTerms, hrun, hone, List.append_assoc, List.singleton_append]

/-- A form that stores nothing negligible is the sum of its terms. -/
theorem Stores.addTerms_entries (h : f.Stores fun c => Scalar.negligible c = false) :
    (LinearForm.const f.constant).addTerms f.terms.entries = f := by
  have hentries : ((const f.constant).addTerms f.terms.entries).terms.entries =
      [] ++ f.terms.entries :=
    entries_addTerms (fun _ _ => List.not_mem_nil) f.terms.nodup
      fun t ht => h t.1 t.2 (Table.get?_eq_some_iff.2 ht)
  exact LinearForm.ext (constant_addTerms _ _) (Table.ext hentries)

/-- Such a form takes no factors. -/
theorem Stores.built (h : f.Stores fun c => Scalar.negligible c = false) : Built allowed f := by
  rw [← h.addTerms_entries]
  exact (Built.const f.constant).addTerms _

end Any

/-! ## Coarse forms -/

variable {allowed : LinearForm Coarse → Coarse → Prop} {f : LinearForm Coarse}

theorem isConstant_iff {α : Type} {f : LinearForm α} : f.isConstant = true ↔ f.vars = [] := by
  unfold isConstant vars Table.isEmpty Table.keys
  rw [List.isEmpty_iff, List.map_eq_nil_iff]

/-- A form that stores no zero depends on each of its variables. -/
theorem Trim.isConstant_iff_eval (h : f.Trim) :
    f.isConstant = true ↔ ∀ σ τ, f.toRat.eval σ = f.toRat.eval τ := by
  rw [isConstant_iff]
  constructor
  · intro hnone σ τ
    apply eval_congr
    intro v hv
    rw [vars_toRat, hnone] at hv
    cases hv
  · intro hsame
    apply List.eq_nil_iff_forall_not_mem.2
    intro v hv
    apply h v hv
    show f.toRat.coeff v = 0
    rw [coeff_eq_eval, hsame (unit v) fun _ => 0, sub_self]

theorem Built.substantial (h : Built (fun g k => (g.scale k).Substantial) f) : f.Substantial := by
  refine substantial_iff.2 (h.stores id (fun c hc => ?_) fun hk _ => substantial_iff.1 hk)
  rw [← Bool.not_eq_true, Scalar.negligible_coarse] at hc ⊢
  have habs : |(c * -1).toRat| = |c.toRat| := by
    show |c.toRat * -1| = |c.toRat|
    rw [mul_neg_one, abs_neg]
  rwa [habs]

/-- Some factor makes all coefficients but the zeros large enough. -/
theorem exists_factor (ts : List (Variable × Coarse)) :
    ∃ k : Rat, 0 < k ∧ ∀ t ∈ ts, t.2.toRat ≠ 0 → Coarse.bound ≤ |t.2.toRat| * k := by
  induction ts with
  | nil => exact ⟨1, one_pos, fun t ht => by cases ht⟩
  | cons t ts ih =>
    obtain ⟨k, hk, hall⟩ := ih
    refine ⟨max k (Coarse.bound / |t.2.toRat|), lt_max_of_lt_left hk, fun u hu hne => ?_⟩
    have habs : 0 < |u.2.toRat| := abs_pos.2 hne
    rcases List.mem_cons.1 hu with rfl | hu
    · calc Coarse.bound = |u.2.toRat| * (Coarse.bound / |u.2.toRat|) :=
          (mul_div_cancel₀ _ habs.ne').symm
        _ ≤ _ := mul_le_mul_of_nonneg_left (le_max_right _ _) habs.le
    · exact (hall u hu hne).trans (mul_le_mul_of_nonneg_left (le_max_left _ _) habs.le)

/-- Factors that cancel out. -/
theorem scale_scale {k l : Coarse} (h : k.toRat * l.toRat = 1) : (f.scale k).scale l = f := by
  have hback : ∀ c : Coarse, c * k * l = c := fun c => by
    show c.toRat * k.toRat * l.toRat = c.toRat
    rw [mul_assoc, h, mul_one]
  refine LinearForm.ext (hback f.constant) (Table.ext ?_)
  show (f.terms.entries.map fun t => (t.1, t.2 * k)).map (fun t => (t.1, t.2 * l)) = _
  simp only [List.map_map, Function.comp_def, hback, Prod.mk.eta, List.map_id']

/-- Every form is, up to a factor, one whose coefficients are zero or not negligible. -/
theorem exists_scale (f : LinearForm Coarse) :
    ∃ k l : Coarse, k ≠ 0 ∧ l ≠ 0 ∧ (f.scale k).scale l = f ∧
      (f.scale k).Stores fun c => c ≠ 0 → Scalar.negligible c = false := by
  obtain ⟨k, hk, hlarge⟩ := exists_factor f.terms.entries
  refine ⟨.ofRat k, .ofRat (1 / k), hk.ne', (one_div_pos.2 hk).ne',
    scale_scale (mul_one_div_cancel hk.ne'), ?_⟩
  intro v c hc hne
  rw [get?_scale, Option.map_eq_some_iff] at hc
  obtain ⟨d, hd, rfl⟩ := hc
  have hd0 : d.toRat ≠ 0 := by
    intro hzero
    apply hne
    show d.toRat * k = 0
    rw [hzero, zero_mul]
  have hbound := hlarge (v, d) (Table.get?_eq_some_iff.1 hd) hd0
  rw [← Bool.not_eq_true, Scalar.negligible_coarse, not_lt]
  show Coarse.bound ≤ |d.toRat * k|
  rwa [abs_mul, abs_of_pos hk]

theorem Trim.built (h : f.Trim) (hallowed : ∀ g k, k ≠ 0 → allowed g k) : Built allowed f := by
  obtain ⟨k, l, hk, hl, hback, hlarge⟩ := exists_scale f
  have hkept : (f.scale k).Stores fun c => Scalar.negligible c = false :=
    fun v c hc => hlarge v c hc (trim_iff.1 (h.scale hk) v c hc)
  rw [← hback]
  exact hkept.built.scale (hallowed _ l hl)

/-! ## With the factor zero -/

def level (f : LinearForm Coarse) (c : Coarse) : LinearForm Coarse :=
  { f with terms := f.terms.mapValues fun _ => c }

/-- One times the variables, times zero. -/
theorem built_level_zero (f : LinearForm Coarse) (hallowed : ∀ g k, allowed g k) :
    Built allowed (f.level 0) := by
  have hone : (f.level 1).Stores fun c => Scalar.negligible c = false := by
    intro v c hc
    rw [level, Table.get?_mapValues, Option.map_eq_some_iff] at hc
    obtain ⟨-, -, rfl⟩ := hc
    decide +kernel
  have hzero : f.level 0 = { (f.level 1).scale 0 with constant := f.constant } := by
    refine LinearForm.ext rfl (Table.ext ?_)
    show f.terms.entries.map (fun t => (t.1, (0 : Coarse))) =
      (f.terms.entries.map fun t => (t.1, (1 : Coarse))).map fun t => (t.1, t.2 * 0)
    have hprod : (1 : Coarse) * 0 = 0 := mul_zero (1 : Coarse).toRat
    simp only [List.map_map, Function.comp_def, hprod]
  rw [hzero]
  exact (hone.built.scale (hallowed _ _)).setConstant _

/-- A zero is replaced in place. -/
theorem entries_addTerm_of_zero {g : LinearForm Coarse} {es es' : List (Variable × Coarse)}
    {t : Variable × Coarse} (h : g.terms.entries = es ++ (t.1, 0) :: es')
    (ht : Scalar.negligible t.2 = false) :
    (g.addTerm t.1 t.2).terms.entries = es ++ t :: es' := by
  have hnodup := g.terms.nodup
  rw [h, List.map_append, List.nodup_append] at hnodup
  have hout : t.1 ∉ es.map Prod.fst := fun hmem => hnodup.2.2 _ hmem _ List.mem_cons_self rfl
  have hold : g.terms.get? t.1 = some 0 := by
    rw [Table.get?_eq_some_iff, h]
    exact List.mem_append_right _ List.mem_cons_self
  have hsum : (0 : Coarse) + t.2 = t.2 := zero_add t.2.toRat
  unfold addTerm
  rw [hold]
  simp only [hsum, ht, Bool.false_eq_true, if_false]
  show Entries.put t.1 t.2 g.terms.entries = _
  rw [h]
  exact Entries.put_middle hout t.2 0 es'

/-- So are all of them but those that are to stay zero. -/
theorem entries_addTerms_of_zeros {g : LinearForm Coarse} (es : List (Variable × Coarse))
    {ts : List (Variable × Coarse)} (h : g.terms.entries = es ++ ts.map fun t => (t.1, 0))
    (hlarge : ∀ t ∈ ts, t.2 ≠ 0 → Scalar.negligible t.2 = false) :
    (g.addTerms (ts.filter fun t => decide (t.2.toRat ≠ 0))).terms.entries = es ++ ts := by
  induction ts generalizing g es with
  | nil => exact h
  | cons t ts ih =>
    have hrest : ∀ u ∈ ts, u.2 ≠ 0 → Scalar.negligible u.2 = false :=
      fun u hu => hlarge u (List.mem_cons_of_mem _ hu)
    rw [List.map_cons] at h
    rw [List.append_cons]
    by_cases ht : t.2.toRat = 0
    · have hsame : (t.1, (0 : Coarse)) = t := Prod.ext rfl ht.symm
      rw [hsame, List.append_cons] at h
      rw [List.filter_cons_of_neg (by simpa using ht)]
      exact ih (es ++ [t]) h hrest
    · have hplace := entries_addTerm_of_zero h (hlarge t List.mem_cons_self ht)
      rw [List.append_cons] at hplace
      rw [List.filter_cons_of_pos (by simpa using ht)]
      exact ih (es ++ [t]) hplace hrest

theorem built_of_any (f : LinearForm Coarse) (hallowed : ∀ g k, allowed g k) :
    Built allowed f := by
  obtain ⟨k, l, -, -, hback, hlarge⟩ := exists_scale f
  have hfill : ((f.scale k).level 0).addTerms
      ((f.scale k).terms.entries.filter fun t => decide (t.2.toRat ≠ 0)) = f.scale k := by
    refine LinearForm.ext (constant_addTerms _ _) (Table.ext ?_)
    exact entries_addTerms_of_zeros [] rfl
      fun t ht => hlarge t.1 t.2 (Table.get?_eq_some_iff.2 ht)
  have hscaled : Built allowed (f.scale k) :=
    hfill ▸ (built_level_zero (f.scale k) hallowed).addTerms _
  exact hback ▸ hscaled.scale (hallowed _ l)

/-- In rational arithmetic with the tolerance of the doubles: with arbitrary factors every form can
be built, with factors that are not zero exactly those that store no zero, and with factors that
make no coefficient negligible exactly those that store nothing negligible. If no factor was zero,
the variables are listed once each and are those with a coefficient that is not zero, and the form
is reported constant exactly if its value does not depend on the variables. -/
theorem built_iff_coefficients (f : LinearForm Coarse) :
    Built (fun _ _ => True) f ∧
    (Built (fun _ k => k ≠ 0) f ↔ f.Trim) ∧
    (Built (fun g k => (g.scale k).Substantial) f ↔ f.Substantial) ∧
    (Built (fun _ k => k ≠ 0) f →
      (∀ v, v ∈ f.vars ↔ f.coeff v ≠ 0) ∧ f.vars.Nodup ∧ f.size = f.vars.length ∧
      (f.isConstant = true ↔ ∀ σ τ, f.toRat.eval σ = f.toRat.eval τ)) := by
  refine ⟨built_of_any f fun _ _ => trivial, ⟨Built.trim, fun h => h.built fun _ _ hk => hk⟩,
    ⟨Built.substantial, fun h => (substantial_iff.1 h).built⟩, fun h => ?_⟩
  have hlength : f.size = f.vars.length := (List.length_map _).symm
  exact ⟨fun _ => h.trim.mem_iff, f.terms.nodup, hlength, h.trim.isConstant_iff_eval⟩

/-- A large multiple of `x` and a small one of `y`, solved for `x`: the coefficient of `y` is
negligible, but no zero, and `y` is counted. -/
theorem built_of_solving :
    ∃ (f : LinearForm Coarse) (y : Variable), Built (fun _ k => k ≠ 0) f ∧ ¬f.Substantial ∧
      f.vars = [y] ∧ f.coeff y ≠ 0 ∧ f.isConstant = false ∧
      ¬∀ σ τ, f.toRat.eval σ = f.toRat.eval τ := by
  let x : Variable := ⟨0, .free⟩
  let y : Variable := ⟨1, .free⟩
  let g : LinearForm Coarse := (term x (.ofRat 100000)).addTerm y (.ofRat (1 / 10000))
  have hfactor : (-1 / g.coeff x).toRat ≠ 0 := by decide +kernel
  have hbuilt : Built (fun _ k => k ≠ 0) (g.isolate x) :=
    .isolate (.addTerm y _ (.term x _)) fun _ => hfactor
  have hvars : (g.isolate x).vars = [y] := by decide +kernel
  have hy : y ∈ (g.isolate x).vars := hvars ▸ List.mem_singleton_self y
  obtain ⟨-, -, -, hcounted⟩ := built_iff_coefficients (g.isolate x)
  obtain ⟨hmem, -, -, hconstant⟩ := hcounted hbuilt
  have hopen : (g.isolate x).isConstant = false := by decide +kernel
  have hsmall : Scalar.negligible ((g.isolate x).coeff y) = true := by decide +kernel
  refine ⟨g.isolate x, y, hbuilt, fun hs => ?_, hvars, (hmem y).1 hy, hopen, fun hsame => ?_⟩
  · rw [hs.coeff hy] at hsmall
    cases hsmall
  · rw [hconstant.2 hsame] at hopen
    cases hopen

/-- Once `x` is multiplied by zero, the form still has a term, with the coefficient zero, and is not
reported constant, although its value depends on nothing. -/
theorem zero_stored :
    ∃ (f : LinearForm Coarse) (x : Variable), Built (fun _ _ => True) f ∧ f.vars = [x] ∧
      f.size = 1 ∧ (f.coeff x).toRat = 0 ∧ Scalar.negligible (f.coeff x) = true ∧
      f.isConstant = false ∧ ∀ σ τ, f.toRat.eval σ = f.toRat.eval τ := by
  let x : Variable := ⟨0, .free⟩
  let f : LinearForm Coarse := (var x).scale 0
  have hvalue : ∀ σ, f.toRat.eval σ = 0 := fun σ =>
    (eval_scale σ (toRat (var x)) 0).trans (mul_zero _)
  exact ⟨f, x, .scale (.term x 1) trivial, by decide +kernel, by decide +kernel,
    by decide +kernel, by decide +kernel, by decide +kernel,
    fun σ τ => (hvalue σ).trans (hvalue τ).symm⟩

end LinearForm

end SoftSimplex
