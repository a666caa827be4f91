import SoftSimplex.Proofs.Reversal

/-!
# Choices do not depend on order

Every choice that a pass makes is the first of a class of candidates, by ratio and then by number.
Where no two candidates have the same number there is at most one such, and the running comparison
finds it in whatever order it meets them. Who is a candidate, and with what ratio, is read off the
rows, the columns and the objective regardless of order. So tableaus that differ in order only make
the same choices.
-/

namespace SoftSimplex

/-! ## The first of a class -/

namespace Ratio

/-- Every other candidate has a greater ratio than `v`, or the same and a greater number. -/
def Least (C : Variable → Rat → Prop) (v : Variable) : Prop :=
  ∃ x, C v x ∧ ∀ w y, C w y → (w, y) ≠ (v, x) → x < y ∨ x = y ∧ v.id < w.id

/-- Candidates have one ratio each, and no two have the same number. -/
structure Distinct (C : Variable → Rat → Prop) : Prop where
  ratio : ∀ {v x y}, C v x → C v y → x = y
  number : ∀ {v w x y}, C v x → C w y → v.id = w.id → v = w

variable {C : Variable → Rat → Prop} {cs : List (Variable × Rat)} {u v : Variable}

/-- No class has two first ones. -/
theorem Least.unique (hu : Least C u) (hv : Least C v) : u = v := by
  obtain ⟨x, hux, hufirst⟩ := hu
  obtain ⟨y, hvy, hvfirst⟩ := hv
  by_contra hne
  have hpair : (v, y) ≠ (u, x) := fun h => hne (Prod.mk.inj h).1.symm
  rcases hufirst v y hvy hpair with hxy | ⟨hxy, huv⟩
  · rcases hvfirst u x hux hpair.symm with hyx | ⟨hyx, -⟩
    · exact lt_asymm hxy hyx
    · exact hxy.ne hyx.symm
  · rcases hvfirst u x hux hpair.symm with hyx | ⟨-, hvu⟩
    · exact hyx.ne hxy.symm
    · exact lt_asymm huv hvu

variable (hcs : ∀ w x, (w, x) ∈ cs ↔ C w x)
include hcs

theorem best?_eq_none_iff : best? cs = none ↔ ∀ w x, ¬C w x := by
  rw [best?_eq_none, List.eq_nil_iff_forall_not_mem]
  constructor
  · exact fun h w x hw => h (w, x) ((hcs w x).2 hw)
  · exact fun h c hc => h c.1 c.2 ((hcs c.1 c.2).1 hc)

theorem least_of_best? (hC : Distinct C) (h : best? cs = some v) : Least C v := by
  obtain ⟨x, hmem, hbefore⟩ := best?_before h
  have hv := (hcs v x).1 hmem
  refine ⟨x, hv, fun w y hw hne => ?_⟩
  rcases hbefore (w, y) ((hcs w y).2 hw) with hlt | ⟨heq, hle⟩
  · exact .inl hlt
  · refine .inr ⟨heq, lt_of_le_of_ne hle fun hid => hne ?_⟩
    obtain rfl := hC.number hv hw hid
    exact Prod.ext rfl heq.symm

/-- The running comparison finds the first of its class, and nothing else. -/
theorem best?_eq_some_iff (hC : Distinct C) : best? cs = some v ↔ Least C v := by
  refine ⟨least_of_best? hcs hC, fun hv => ?_⟩
  cases hbest : best? cs with
  | none =>
    obtain ⟨x, hvx, -⟩ := hv
    exact absurd hvx ((best?_eq_none_iff hcs).1 hbest v x)
  | some w => rw [(least_of_best? hcs hC hbest).unique hv]

end Ratio

/-- Where no two variables have the same number, one has the lowest. -/
theorem Variable.lowest?_eq_some_iff {vs : List Variable}
    (hids : ∀ v ∈ vs, ∀ w ∈ vs, v.id = w.id → v = w) {v : Variable} :
    lowest? vs = some v ↔ v ∈ vs ∧ ∀ w ∈ vs, w ≠ v → v.id < w.id := by
  constructor
  · intro h
    have hv := mem_of_lowest? h
    refine ⟨hv, fun w hw hne => lt_of_le_of_ne (id_le_of_lowest? h hw) fun hid => ?_⟩
    exact hne (hids v hv w hw hid).symm
  · rintro ⟨hv, hfirst⟩
    cases hlow : lowest? vs with
    | none =>
      rw [lowest?_eq_none.1 hlow] at hv
      cases hv
    | some w =>
      by_contra hne
      have hlt := hfirst w (mem_of_lowest? hlow) fun heq => hne (congrArg some heq)
      exact absurd (id_le_of_lowest? hlow hv) (Nat.not_le.2 hlt)

namespace Tableau

open Ratio

variable {V : Variable → Prop} {t t' : Tableau Rat} {entry m b v : Variable} {x : Rat}

/-! ## Candidates -/

/-- A restricted row listed with `entry` that falls as `entry` rises, and the value at which it
reaches zero. -/
def Limiting (t : Tableau Rat) (entry b : Variable) (x : Rat) : Prop :=
  b ∈ t.column entry ∧ b.isRestricted = true ∧
    ∃ f, t.row? b = some f ∧ f.coeff entry < 0 ∧ x = -f.constant / f.coeff entry

/-- A restricted row listed with `m` that falls as `m` falls, if it mentions it, and the value at
which it reaches zero, downwards. -/
def Receding (t : Tableau Rat) (m b : Variable) (x : Rat) : Prop :=
  b ∈ t.column m ∧ b.isRestricted = true ∧
    ∃ f, t.row? b = some f ∧ (m ∈ f.vars → 0 < f.coeff m) ∧ x = f.constant / f.coeff m

def Loose (t : Tableau Rat) (m b : Variable) : Prop :=
  b ∈ t.column m ∧ b.isRestricted = false ∧ t.isBasic b = true

/-- A variable that may enter and raises `row`, and what it costs the objective to raise the row by
one. -/
def Raising (t : Tableau Rat) (row : LinearForm Rat) (v : Variable) (x : Rat) : Prop :=
  v.mayEnter = true ∧ v ∈ row.vars ∧ 0 < row.coeff v ∧ x = t.objective.coeff v / row.coeff v

section Same

variable (h : t'.Rearranges t)
include h

theorem Rearranges.mem_limits_iff : (b, x) ∈ t'.limits entry ↔ t.Limiting entry b x := by
  rw [mem_limits, h.mem_column]
  apply and_congr_right' (and_congr_right' _)
  refine LinearForm.exists_iff_of_rearranges (h.row b) fun f g hfg => ?_
  rw [hfg.coeff, hfg.constant]

/-- As no zero is stored, a row that mentions the marker rises or falls with it. -/
theorem Rearranges.mem_rising_iff (ht : t.Trim) : (b, x) ∈ t'.rising m ↔ t.Receding m b x := by
  rw [mem_rising, h.mem_column]
  apply and_congr_right' (and_congr_right' _)
  rw [LinearForm.exists_iff_of_rearranges (h.row b)
    (P := fun f => 0 ≤ f.coeff m ∧ x = f.constant / f.coeff m)
    fun f g hfg => by rw [hfg.coeff, hfg.constant]]
  refine exists_congr fun f => and_congr_right fun hf => and_congr_left' ?_
  constructor
  · exact fun hnn hmem => lt_of_le_of_ne hnn (ht.row hf m hmem).symm
  · intro hpos
    by_cases hmem : m ∈ f.vars
    · exact (hpos hmem).le
    · rw [LinearForm.coeff_of_not_mem hmem]

theorem Rearranges.mem_loose_iff :
    b ∈ (t'.column m).filter (fun b => !b.isRestricted && t'.isBasic b) ↔ t.Loose m b := by
  rw [List.mem_filter, h.mem_column, h.isBasic, Bool.and_eq_true, Bool.not_eq_true']
  rfl

theorem Rearranges.mem_raisers_iff {row' row : LinearForm Rat} (hrow : row'.Rearranges row) :
    (v, x) ∈ t'.raisers row' ↔ t.Raising row v x := by
  rw [mem_raisers, hrow.mem_vars_iff, hrow.coeff, h.objective.coeff]
  rfl

end Same

/-! ## What is chosen -/

section Chosen

variable (hV : Numbered V) (ht : t.Over V)
include hV ht

theorem Over.distinct {C : Variable → Rat → Prop} {ratio : LinearForm Rat → Rat}
    (hC : ∀ b x, C b x → ∃ f, t.row? b = some f ∧ x = ratio f) : Distinct C where
  ratio := by
    intro b x y hx hy
    obtain ⟨f, hf, rfl⟩ := hC b x hx
    obtain ⟨g, hg, rfl⟩ := hC b y hy
    rw [Option.some.inj (hf.symm.trans hg)]
  number := by
    intro b c x y hx hy hid
    obtain ⟨f, hf, -⟩ := hC b x hx
    obtain ⟨g, hg, -⟩ := hC c y hy
    exact hV b c (ht.row hf).1 (ht.row hg).1 hid

theorem Over.distinct_limiting : Distinct (t.Limiting entry) :=
  ht.distinct hV fun _ _ ⟨_, _, f, hf, _, hx⟩ => ⟨f, hf, hx⟩

theorem Over.distinct_receding : Distinct (t.Receding m) :=
  ht.distinct hV fun _ _ ⟨_, _, f, hf, _, hx⟩ => ⟨f, hf, hx⟩

theorem Over.distinct_raising {row : LinearForm Rat} (hrow : t.row? b = some row) :
    Distinct (t.Raising row) where
  ratio hx hy := hx.2.2.2.trans hy.2.2.2.symm
  number hv hw hid := hV _ _ ((ht.row hrow).2 _ hv.2.1) ((ht.row hrow).2 _ hw.2.1) hid

theorem Over.loose_distinct {c : Variable} (hb : t.Loose m b) (hc : t.Loose m c)
    (hid : b.id = c.id) : b = c := by
  obtain ⟨f, hf⟩ := isBasic_iff.1 hb.2.2
  obtain ⟨g, hg⟩ := isBasic_iff.1 hc.2.2
  exact hV b c (ht.row hf).1 (ht.row hg).1 hid

variable (h : t'.Rearranges t)
include h

theorem Rearranges.tightest?_eq_some_iff :
    t'.tightest? entry = some v ↔ Least (t.Limiting entry) v :=
  best?_eq_some_iff (fun _ _ => h.mem_limits_iff) (ht.distinct_limiting hV)

theorem Rearranges.eviction?_eq_some_iff (htrim : t.Trim) :
    t'.eviction? m = some v ↔ Least (t.Limiting m) v ∨
      (∀ w x, ¬t.Limiting m w x) ∧ (Least (t.Receding m) v ∨
        (∀ w x, ¬t.Receding m w x) ∧ t.Loose m v ∧
          ∀ w, t.Loose m w → w ≠ v → v.id < w.id) := by
  have hlimits : ∀ w x, (w, x) ∈ t'.limits m ↔ t.Limiting m w x := fun _ _ => h.mem_limits_iff
  have hrising : ∀ w x, (w, x) ∈ t'.rising m ↔ t.Receding m w x :=
    fun _ _ => h.mem_rising_iff htrim
  have hids : ∀ b ∈ (t'.column m).filter (fun b => !b.isRestricted && t'.isBasic b),
      ∀ c ∈ (t'.column m).filter (fun b => !b.isRestricted && t'.isBasic b),
        b.id = c.id → b = c :=
    fun b hb c hc => ht.loose_distinct hV (h.mem_loose_iff.1 hb) (h.mem_loose_iff.1 hc)
  unfold eviction?
  rw [Option.or_eq_some_iff, Option.or_eq_some_iff, sinking_eq_limits,
    best?_eq_some_iff hlimits (ht.distinct_limiting hV), best?_eq_none_iff hlimits,
    best?_eq_some_iff hrising (ht.distinct_receding hV), best?_eq_none_iff hrising,
    Variable.lowest?_eq_some_iff hids]
  simp only [h.mem_loose_iff]

theorem Rearranges.cheapest?_eq_some_iff {exit : Variable} :
    (t'.row? exit).bind t'.cheapest? = some v ↔
      ∃ row, t.row? exit = some row ∧ Least (t.Raising row) v := by
  have hdistinct : ∀ row, t.row? exit = some row → Distinct (t.Raising row) :=
    fun _ => ht.distinct_raising hV
  have hexit := h.row exit
  rw [Option.bind_eq_some_iff]
  generalize t'.row? exit = popped', t.row? exit = popped at hexit hdistinct
  cases hexit with
  | none => simp
  | @some row' row hsame =>
    have hbest : t'.cheapest? row' = some v ↔ Least (t.Raising row) v :=
      best?_eq_some_iff (fun _ _ => h.mem_raisers_iff hsame) (hdistinct row rfl)
    simpa using hbest

end Chosen

/-- What a step of a repair lets enter is the choice for the row that it looks at. -/
theorem entry_of_repairStep {u : Tableau Rat} {w : Swap} (hs : t.repairStep = .swapped u w) :
    (t.row? w.exit).bind t.cheapest? = some w.entry := by
  unfold repairStep at hs
  simp only [takeQueued] at hs
  split at hs
  · cases hs
  · next exit taken htake =>
    obtain rfl := (Prod.mk.inj htake).2
    split at hs
    · cases hs
    · next entry hentry =>
      unfold Step.ofExchange at hs
      split at hs
      · cases hs
        exact hentry
      · cases hs

/-- Tableaus over variables without common numbers that differ in order only make the same choices:
of the row that limits a variable, of the row that gives way to a marker, and of the variable that is
to raise a row, so that steps of a repair that look at the same row make the same exchange. What is
chosen is the one first candidate of its class, by ratio and then by number, and in the case of a
marker of the first class that is not empty. -/
theorem choices_of_rearranged (hV : Numbered V) (ht : t.Over V) (htrim : t.Trim)
    (h : t'.Rearranges t) :
    (∀ entry, t'.tightest? entry = t.tightest? entry ∧
      ∀ v, t.tightest? entry = some v ↔ Least (t.Limiting entry) v) ∧
    (∀ m, t'.eviction? m = t.eviction? m ∧
      ∀ v, t.eviction? m = some v ↔ Least (t.Limiting m) v ∨
        (∀ w x, ¬t.Limiting m w x) ∧ (Least (t.Receding m) v ∨
          (∀ w x, ¬t.Receding m w x) ∧ t.Loose m v ∧
            ∀ w, t.Loose m w → w ≠ v → v.id < w.id)) ∧
    (∀ exit, (t'.row? exit).bind t'.cheapest? = (t.row? exit).bind t.cheapest? ∧
      ∀ v, (t.row? exit).bind t.cheapest? = some v ↔
        ∃ row, t.row? exit = some row ∧ Least (t.Raising row) v) ∧
    ∀ u u' w w', t.repairStep = .swapped u w → t'.repairStep = .swapped u' w' →
      w'.exit = w.exit → w' = w := by
  have hself := Rearranges.refl t
  have hcheapest : ∀ exit,
      (t'.row? exit).bind t'.cheapest? = (t.row? exit).bind t.cheapest? :=
    fun _ => Option.ext fun _ =>
      (h.cheapest?_eq_some_iff hV ht).trans (hself.cheapest?_eq_some_iff hV ht).symm
  refine ⟨fun entry => ⟨Option.ext fun v => ?_, fun v => hself.tightest?_eq_some_iff hV ht⟩,
    fun m => ⟨Option.ext fun v => ?_, fun v => hself.eviction?_eq_some_iff hV ht htrim⟩,
    fun exit => ⟨hcheapest exit, fun v => hself.cheapest?_eq_some_iff hV ht⟩, ?_⟩
  · exact (h.tightest?_eq_some_iff hV ht).trans (hself.tightest?_eq_some_iff hV ht).symm
  · exact (h.eviction?_eq_some_iff hV ht htrim).trans
      (hself.eviction?_eq_some_iff hV ht htrim).symm
  · rintro u u' ⟨entry, exit⟩ ⟨entry', exit'⟩ hs hs' hexit
    obtain rfl : exit' = exit := hexit
    have hentry := (entry_of_repairStep hs').symm.trans
      ((hcheapest exit').trans (entry_of_repairStep hs))
    obtain rfl : entry' = entry := Option.some.inj hentry
    rfl

/-- Two lengths of at most 50 that are equal, the first of which would rather be 80. An exchange that
is undone leaves the rows and the column of the bound's slack in another order. Both lengths reach
zero at 50, and the first one is chosen all the same. -/
theorem choices_of_exchange_undone :
    ∃ y t' t'', Solver.replay (fun _ _ _ => true) 9 [.newVariable true, .newVariable true,
        .add (.compare (.var ⟨0, .bounded⟩) .atMost (.const 50)),
        .add (.compare (.var ⟨1, .bounded⟩) .equal (.var ⟨0, .bounded⟩)),
        .add ((Constraint.compare (.var ⟨0, .bounded⟩) .equal (.const 80)).withStrength .weak)]
        ([], .new) = some y ∧
      y.2.tableau.exchange ⟨2, .slack⟩ ⟨0, .bounded⟩ = .ok t' ∧
      t'.exchange ⟨0, .bounded⟩ ⟨2, .slack⟩ = .ok t'' ∧ t''.Rearranges y.2.tableau ∧
      y.2.tableau.column ⟨2, .slack⟩ = [⟨0, .bounded⟩, ⟨1, .bounded⟩, ⟨5, .error⟩] ∧
      t''.column ⟨2, .slack⟩ = [⟨5, .error⟩, ⟨1, .bounded⟩, ⟨0, .bounded⟩] ∧
      y.2.tableau.Limiting ⟨2, .slack⟩ ⟨1, .bounded⟩ 50 ∧
      Least (y.2.tableau.Limiting ⟨2, .slack⟩) ⟨0, .bounded⟩ ∧
      t''.tightest? ⟨2, .slack⟩ = some ⟨0, .bounded⟩ ∧
      t''.eviction? ⟨2, .slack⟩ = some ⟨0, .bounded⟩ ∧
      (t''.row? ⟨5, .error⟩).bind t''.cheapest? = some ⟨2, .slack⟩ := by
  have hrun : (Solver.replay (fun _ _ _ => true) 9 [.newVariable true, .newVariable true,
      .add (.compare (.var ⟨0, .bounded⟩) .atMost (.const 50)),
      .add (.compare (.var ⟨1, .bounded⟩) .equal (.var ⟨0, .bounded⟩)),
      .add ((Constraint.compare (.var ⟨0, .bounded⟩) .equal (.const 80)).withStrength .weak)]
      ([], .new)).any (fun y =>
        decide (y.2.tableau.column ⟨2, .slack⟩ =
          [⟨0, .bounded⟩, ⟨1, .bounded⟩, ⟨5, .error⟩]) &&
        decide (y.2.tableau.limits ⟨2, .slack⟩ = [(⟨0, .bounded⟩, 50), (⟨1, .bounded⟩, 50)]) &&
        decide (y.2.tableau.tightest? ⟨2, .slack⟩ = some ⟨0, .bounded⟩) &&
        decide (y.2.tableau.eviction? ⟨2, .slack⟩ = some ⟨0, .bounded⟩) &&
        decide ((y.2.tableau.row? ⟨5, .error⟩).bind y.2.tableau.cheapest? =
          some ⟨2, .slack⟩) &&
        (y.2.tableau.row? ⟨0, .bounded⟩).any (·.contains ⟨2, .slack⟩) &&
        (y.2.tableau.exchange ⟨2, .slack⟩ ⟨0, .bounded⟩).toOption.any fun t' =>
          (t'.exchange ⟨0, .bounded⟩ ⟨2, .slack⟩).toOption.any fun t'' =>
            decide (t''.column ⟨2, .slack⟩ =
              [⟨5, .error⟩, ⟨1, .bounded⟩, ⟨0, .bounded⟩])) = true := by
    decide +kernel
  obtain ⟨y, hy, hcheck⟩ := (Option.any_eq_true _ _).1 hrun
  simp only [Bool.and_eq_true, decide_eq_true_eq] at hcheck
  obtain ⟨⟨⟨⟨⟨⟨hcolumn, hlimits⟩, htight⟩, hevict⟩, hcheap⟩, hexit⟩, hback⟩ := hcheck
  obtain ⟨row, hrow, hcontains⟩ := (Option.any_eq_true _ _).1 hexit
  have hmem := LinearForm.contains_iff.1 hcontains
  have hreached : Solver.Reached (fun _ _ _ => True) y.1 y.2 :=
    Solver.Reached.replay (fun _ _ _ _ => trivial) (.start {}) hy
  obtain ⟨V, hsound⟩ := hreached.sound
  have htidy := hsound.stands.tidy
  have hcoherent := htidy.wellFormed.coherent htidy.trim
  obtain ⟨t', he⟩ := exchange_ok_of_mem hrow hmem
  have hentered : t'.row? ⟨2, .slack⟩ = some (row.exchange ⟨0, .bounded⟩ ⟨2, .slack⟩) := by
    rw [hcoherent.row?_exchange hrow he, if_pos rfl]
  obtain ⟨t'', he'⟩ := exchange_ok_of_mem hentered (hcoherent.mem_vars_exchange hrow hmem)
  have hcoherent' := hcoherent.exchange he
  have hsame : t''.Rearranges y.2.tableau :=
    hcoherent.rearranges (hcoherent'.exchange he')
      ((hcoherent'.recast_exchange he').trans (hcoherent.recast_exchange he))
      (hcoherent.isBasic_undone hrow hmem he he')
  have hreordered : t''.column ⟨2, .slack⟩ = [⟨5, .error⟩, ⟨1, .bounded⟩, ⟨0, .bounded⟩] := by
    rw [he] at hback
    simpa only [Except.toOption, Option.any_some, he', decide_eq_true_eq] using hback
  have hsecond : y.2.tableau.Limiting ⟨2, .slack⟩ ⟨1, .bounded⟩ 50 := by
    rw [← (Rearranges.refl y.2.tableau).mem_limits_iff, hlimits]
    exact List.mem_cons_of_mem _ List.mem_cons_self
  obtain ⟨hlimit, hmarker, hraise, -⟩ := choices_of_rearranged
    hsound.books.issued.numbered htidy.within htidy.trim hsame
  obtain ⟨htight', hleast⟩ := hlimit ⟨2, .slack⟩
  exact ⟨y, t', t'', hy, he, he', hsame, hcolumn, hreordered, hsecond, (hleast _).1 htight,
    htight'.trans htight, (hmarker _).1.trans hevict, (hraise _).1.trans hcheap⟩

end Tableau

end SoftSimplex
