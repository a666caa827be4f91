import SoftSimplex.Proofs.Passes

/-!
# What a tableau stands for

Between two operations a tableau stands for a demand `P` and a cost `C`: its solutions are the
assignments that meet the demand, and on them its objective is the cost, up to a constant. How
the demand and the cost change is said for every operation. The demand is any predicate here; that
it is the balance of the records comes later.
-/

namespace SoftSimplex

namespace Tableau

variable {V : Variable → Prop} {P Q : Assignment Rat → Prop} {C D : Assignment Rat → Rat}
variable {t t' : Tableau Rat}

/-- A tidy tableau with the solutions `P` and the objective `C`, outside the first phase. -/
structure Stands (V : Variable → Prop) (P : Assignment Rat → Prop) (C : Assignment Rat → Rat)
    (t : Tableau Rat) : Prop where
  tidy : t.Tidy V
  freeApart : t.FreeApart
  settled : t.artificial = none
  solves : ∀ σ, t.Solves σ ↔ P σ
  measures : t.Measures C

theorem Stands.congr (h : t.Stands V P C) (hP : ∀ σ, P σ ↔ Q σ) (hC : ∀ σ, D σ = C σ) :
    t.Stands V Q D :=
  ⟨h.tidy, h.freeApart, h.settled, fun σ => (h.solves σ).trans (hP σ), h.measures.congr hC⟩

theorem Stands.mono {W : Variable → Prop} (h : t.Stands V P C) (hVW : ∀ v, V v → W v) :
    t.Stands W P C :=
  ⟨h.tidy.mono hVW, h.freeApart, h.settled, h.solves, h.measures⟩

theorem stands_empty : (∅ : Tableau Rat).Stands V (fun _ => True) fun _ => 0 :=
  ⟨tidy_empty, freeApart_empty, rfl, fun _ => iff_of_true solves_empty trivial, measures_empty⟩

theorem Stands.keeps (h : t.Stands V P C) (hk : Keeps V t t') : t'.Stands V P C :=
  ⟨hk.tidy, hk.freeApart h.freeApart, hk.artificial_none h.tidy h.settled,
    fun σ => (hk.recast.solves σ).trans (h.solves σ), h.measures.recast hk.recast⟩

/-- The point at which the tableau stands meets the demand. -/
theorem Stands.point (h : t.Stands V P C) : P t.point :=
  (h.solves _).1 h.tidy.wellFormed.solves_point

theorem Stands.addCost (hV : Numbered V) (h : t.Stands V P C) {v : Variable} (hv : V v) (c : Rat) :
    (t.addCost v c).Stands V P fun σ => C σ + c * σ v where
  tidy := h.tidy.addCost hV hv c
  freeApart := h.freeApart.of_rows fun b => row?_addCost t v b c
  settled := by rw [artificial_addCost, h.settled]
  solves := fun σ => (solves_congr fun b => row?_addCost t v b c).trans (h.solves σ)
  measures := h.measures.addCost v c

/-- Without its row a variable that costs nothing is no longer bound. -/
theorem Stands.removeRow (h : t.Stands V P C) {b : Variable} {f : LinearForm Rat}
    (hb : t.row? b = some f) (hC : ∀ σ k, C (Function.update σ b k) = C σ) :
    (t.removeRow b).Stands V (fun σ => ∃ k, P (Function.update σ b k)) C where
  tidy := h.tidy.removeRow b
  freeApart := h.freeApart.removeRow b
  settled := by rw [artificial_removeRow, h.settled]
  solves := fun σ => (h.tidy.wellFormed.solves_removeRow hb).trans
    (exists_congr fun k => h.solves (Function.update σ b k))
  measures := h.measures.removeRow h.tidy.wellFormed hC

/-- Dropping a row that is not there. -/
theorem removeRow_of_nonbasic {b : Variable} (hb : t.row? b = none) : t.removeRow b = t := by
  unfold Tableau.removeRow
  rw [hb]

/-- Without its column a variable without row is zero. -/
theorem Stands.removeColumn (hV : Numbered V) (h : t.Stands V P C) {v : Variable} (hv : V v)
    (hb : t.row? v = none) (hC : ∀ σ k, C (Function.update σ v k) = C σ) :
    (t.removeColumn v).Stands V (fun σ => P (Function.update σ v 0)) C where
  tidy := h.tidy.removeColumn hV hv
  freeApart := h.freeApart.removeColumn h.tidy.wellFormed.indexed v
  settled := by
    show t.artificial.map _ = none
    rw [h.settled]
    rfl
  solves := fun σ => (h.tidy.wellFormed.indexed.solves_removeColumn hb).trans (h.solves _)
  measures := h.measures.removeColumn h.tidy.wellFormed.indexed hb hC

/-- An equation solved for one of its variables is demanded on top. A free variable is taken if
there is one. -/
theorem Stands.insertSolved (hV : Numbered V) (h : t.Stands V P C) {v : Variable}
    {f : LinearForm Rat} (hf : f.Trim) (hv : v ∈ f.vars)
    (hvars : ∀ w ∈ f.vars, V w ∧ t.row? w = none)
    (hfree : v.isRestricted = true → ∀ w ∈ f.vars, w.isRestricted = true) :
    ((t.substitute v (f.isolate v)).insertRow v (f.isolate v)).Stands V
      (fun σ => P σ ∧ f.eval σ = 0) C where
  tidy := h.tidy.insertSolved hV hf hv hvars
  freeApart := by
    have hrow : v.isRestricted = true → ∀ w ∈ (f.isolate v).vars, w.isRestricted = true :=
      fun hr w hw => hfree hr w (LinearForm.mem_vars_of_isolate hw)
    exact (h.freeApart.substitute h.tidy.wellFormed.indexed hrow).insertRow hrow
  settled := by
    rw [artificial_insertRow, artificial_substitute, h.settled]
    rfl
  solves := fun σ => (h.tidy.wellFormed.solves_insertSolved (hvars v hv).2 (hf v hv)).trans
    (and_congr_left' (h.solves σ))
  measures := h.measures.insertSolved h.tidy.wellFormed (hvars v hv).2 (hf v hv)

theorem Stands.shiftConstant (h : t.Stands V P C) {m : Variable} (hm : m.isRestricted = true)
    (δ : Rat) {d : Rat} (hD : ∀ σ, D σ = C (Function.update σ m (σ m - δ)) + d) :
    (t.shiftConstant m δ).Stands V (fun σ => P (Function.update σ m (σ m - δ))) D where
  tidy := h.tidy.shiftConstant hm δ
  freeApart := h.freeApart.shiftConstant m δ
  settled := by
    obtain ⟨-, -, hart, -⟩ := shiftConstant_frame t m δ
    rw [hart, h.settled]
  solves := fun σ => (h.tidy.wellFormed.solves_shiftConstant m δ).trans (h.solves _)
  measures := h.measures.shiftConstant h.tidy.wellFormed m δ hD

/-! ## Giving up a demand -/

/-- The variables `own` are nothing to `P`, and each is determined by the others under `B`. -/
structure Separable (own : List Variable) (P B : Assignment Rat → Prop) : Prop where
  ignored : ∀ v ∈ own, ∀ σ k, P (Function.update σ v k) ↔ P σ
  determined : ∀ v ∈ own, ∀ σ, ∃ k₀, ∀ k, B (Function.update σ v k) ↔ k = k₀

variable {own : List Variable} {B : Assignment Rat → Prop}

/-- On the way from the demand `P` and `B` to `P` alone: the row that carries `B` may or may not be
gone. -/
def Releases (V : Variable → Prop) (P B : Assignment Rat → Prop) (C : Assignment Rat → Rat)
    (t : Tableau Rat) : Prop :=
  t.Stands V (fun σ => P σ ∧ B σ) C ∨ t.Stands V P C

theorem Releases.tidy (h : t.Releases V P B C) : t.Tidy V := h.elim Stands.tidy Stands.tidy

theorem Releases.freeApart (h : t.Releases V P B C) : t.FreeApart :=
  h.elim Stands.freeApart Stands.freeApart

theorem Releases.addCost (hV : Numbered V) (h : t.Releases V P B C) {v : Variable} (hv : V v)
    (c : Rat) : (t.addCost v c).Releases V P B fun σ => C σ + c * σ v :=
  h.imp (fun h => h.addCost hV hv c) fun h => h.addCost hV hv c

/-- Once `B` is given up, the own variables occur nowhere. -/
theorem Separable.nowhere (hs : Separable own P B) (h : t.Stands V P C) {v : Variable}
    (hv : v ∈ own) : t.row? v = none ∧ ∀ {b f}, t.row? b = some f → v ∉ f.vars := by
  apply h.tidy.wellFormed.nowhere_of_loose h.tidy.trim
  intro σ k hσ
  rw [h.solves] at hσ ⊢
  exact (hs.ignored v hv σ k).2 hσ

/-- The row of an own variable carries `B`: giving up the one is giving up the other. -/
theorem Separable.removeRow (hs : Separable own P B) (h : t.Releases V P B C) {v : Variable}
    (hv : v ∈ own) {f : LinearForm Rat} (hf : t.row? v = some f)
    (hC : ∀ σ k, C (Function.update σ v k) = C σ) : (t.removeRow v).Stands V P C := by
  rcases h with h | h
  · apply (h.removeRow hf hC).congr _ fun _ => rfl
    intro σ
    obtain ⟨k₀, hk₀⟩ := hs.determined v hv σ
    constructor
    · rintro ⟨k, hP, -⟩
      exact (hs.ignored v hv σ k).1 hP
    · intro hP
      exact ⟨k₀, (hs.ignored v hv σ k₀).2 hP, (hk₀ k₀).2 rfl⟩
  · rw [(hs.nowhere h hv).1] at hf
    cases hf

theorem Separable.removeRow_releases (hs : Separable own P B) (h : t.Releases V P B C)
    {v : Variable} (hv : v ∈ own) (hC : ∀ σ k, C (Function.update σ v k) = C σ) :
    (t.removeRow v).Releases V P B C := by
  cases hf : t.row? v with
  | some f => exact .inr (hs.removeRow h hv hf hC)
  | none =>
    rw [removeRow_of_nonbasic hf]
    exact h

/-- The errors stop costing anything and lose their rows. -/
theorem Separable.waive (hs : Separable own P B) (hV : Numbered V) {w : Rat} {es : List Variable}
    (hes : es.Nodup) (hown : ∀ e ∈ es, e ∈ own) (hin : ∀ e ∈ es, V e)
    (hC : ∀ v ∈ own, ∀ σ k, C (Function.update σ v k) = C σ)
    (h : t.Releases V P B fun σ => C σ + w * (es.map σ).sum) :
    (es.foldl (Tableau.waive w) t).Releases V P B C := by
  induction es generalizing t with
  | nil =>
    exact h.imp (fun h => h.congr (fun _ => Iff.rfl) fun σ => by simp)
      fun h => h.congr (fun _ => Iff.rfl) fun σ => by simp
  | cons e es ih =>
    obtain ⟨hne, hes⟩ := List.nodup_cons.1 hes
    rw [List.foldl_cons]
    apply ih hes (fun e he => hown e (List.mem_cons_of_mem _ he))
      fun e he => hin e (List.mem_cons_of_mem _ he)
    have hstep := h.addCost hV (hin e List.mem_cons_self) (-w)
    have hstep : (t.addCost e (-w)).Releases V P B fun σ => C σ + w * (es.map σ).sum := by
      have hcost : ∀ σ : Assignment Rat, C σ + w * (es.map σ).sum =
          C σ + w * ((e :: es).map σ).sum + -w * σ e := by
        intro σ
        rw [List.map_cons, List.sum_cons]
        ring
      exact hstep.imp (fun h => h.congr (fun _ => Iff.rfl) hcost)
        fun h => h.congr (fun _ => Iff.rfl) hcost
    apply hs.removeRow_releases hstep (hown e List.mem_cons_self)
    intro σ k
    have hsame : es.map (Function.update σ e k) = es.map σ := by
      apply List.map_congr_left
      intro v hv
      apply Function.update_of_ne
      rintro rfl
      exact hne hv
    rw [hC e (hown e List.mem_cons_self), hsame]

/-- The marker is made basic, if need be, and its row dropped. -/
theorem Separable.evict (hs : Separable own P B) (hV : Numbered V) (h : t.Releases V P B C)
    {m exit : Variable} (hm : m ∈ own) (hC : ∀ σ k, C (Function.update σ m k) = C σ)
    (hx : t.eviction? m = some exit) :
    ∃ t', t.exchange m exit = .ok t' ∧ (t'.removeRow m).Stands V P C := by
  have hwf := h.tidy.wellFormed
  obtain ⟨row, hrow, hmem, hcases⟩ := hwf.indexed.eviction?_cases hx
  obtain ⟨t', he⟩ := exchange_ok_of_mem hrow hmem
  refine ⟨t', he, ?_⟩
  have hself : t'.row? m = some (row.exchange exit m) := by
    rw [hwf.row?_exchange hrow he, if_pos rfl]
  have hrecast := hwf.recast_exchange h.tidy.trim he
  have hsolves : ∀ σ, (t'.removeRow m).Solves σ ↔ P σ := by
    intro σ
    rw [(hwf.exchange he).solves_removeRow hself]
    rcases h with h | h
    · obtain ⟨k₀, hk₀⟩ := hs.determined m hm σ
      constructor
      · rintro ⟨k, hk⟩
        exact (hs.ignored m hm σ k).1 ((h.solves _).1 ((hrecast.solves _).1 hk)).1
      · intro hP
        refine ⟨k₀, (hrecast.solves _).2 ((h.solves _).2 ?_)⟩
        exact ⟨(hs.ignored m hm σ k₀).2 hP, (hk₀ k₀).2 rfl⟩
    · exact absurd hmem ((hs.nowhere h hm).2 hrow)
  have hmeasures : t.Measures C := h.elim Stands.measures Stands.measures
  have hsettled : t.artificial = none := h.elim Stands.settled Stands.settled
  refine ⟨(h.tidy.exchange hV he).removeRow m, ?_, ?_, hsolves, ?_⟩
  · rcases hcases with ⟨hr, -⟩ | ⟨hr, -⟩ | ⟨-, hfree⟩
    · exact (h.freeApart.exchange hwf.indexed hr he).removeRow m
    · exact (h.freeApart.exchange hwf.indexed hr he).removeRow m
    · exact h.freeApart.exchange_removeRow hwf (fun hf hr => hfree _ _ hf hr) he
  · rw [artificial_removeRow]
    have hpoint := hrecast.artificial _ hwf.solves_point
    rw [hsettled] at hpoint
    exact Option.map_eq_none_iff.1 hpoint
  · exact (hmeasures.recast hrecast).removeRow (hwf.exchange he) hC

/-- A marker in no row has nothing left to carry. -/
theorem Separable.removeRow_of_unlisted (hs : Separable own P B) (h : t.Releases V P B C)
    {m : Variable} (hm : m ∈ own) (hC : ∀ σ k, C (Function.update σ m k) = C σ)
    (hx : t.isBasic m = false → t.eviction? m = none) : (t.removeRow m).Stands V P C := by
  cases hf : t.row? m with
  | some f => exact hs.removeRow h hm hf hC
  | none =>
    have hbasic : t.isBasic m = false := isBasic_eq_false_iff.2 hf
    rw [removeRow_of_nonbasic hf]
    rcases h with h | h
    · -- no row mentions the marker, so `B` would leave it open
      exfalso
      have hrows : ∀ {b f}, t.row? b = some f → m ∉ f.vars :=
        h.tidy.wellFormed.indexed.eviction?_eq_none (hx hbasic)
      obtain ⟨k₀, hk₀⟩ := hs.determined m hm t.point
      have hmoved := (solves_update_iff hf hrows (k₀ + 1)).2 h.tidy.wellFormed.solves_point
      have hk := (hk₀ (k₀ + 1)).1 ((h.solves _).1 hmoved).2
      linarith
    · exact h

end Tableau

end SoftSimplex
