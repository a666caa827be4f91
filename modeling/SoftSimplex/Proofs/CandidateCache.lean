import SoftSimplex.Proofs.Occurrence

/-!
# The candidates are the profitable variables

The cache of entering variables is edited one variable at a time, by whatever operation touched
the objective. `Scouted` says that it holds exactly the variables that may enter with profit. The
cache is keyed by number, so the laws need that numbers tell the variables of the tableau apart.
-/

namespace SoftSimplex

variable {α : Type}

namespace Candidates

theorem mem_place_iff {v w : Variable} {ws : List Variable}
    (h : ∀ u ∈ ws, u.id = v.id → u = v) : w ∈ place v ws ↔ w = v ∨ w ∈ ws := by
  induction ws with
  | nil => simp [place]
  | cons u us ih =>
    have hus := ih fun x hx => h x (List.mem_cons_of_mem _ hx)
    simp only [place]
    split
    · simp
    · split
      · rw [List.mem_cons, List.mem_cons, hus]
        constructor
        · rintro (hw | hw | hw) <;> simp [hw]
        · rintro (hw | hw | hw) <;> simp [hw]
      · have hu : u = v := h u List.mem_cons_self (by omega)
        subst hu
        simp

theorem mem_insert {c : Candidates} {v w : Variable} (h : ∀ u ∈ c.members, u.id = v.id → u = v) :
    w ∈ (c.insert v).members ↔ w = v ∨ w ∈ c.members :=
  mem_place_iff h

theorem mem_erase {c : Candidates} {v w : Variable} :
    w ∈ (c.erase v).members ↔ w ∈ c.members ∧ w.id ≠ v.id := by
  show w ∈ c.members.filter _ ↔ _
  simp [List.mem_filter]

theorem place_of_mem {v : Variable} {ws : List Variable}
    (hs : ws.Pairwise fun v w => v.id < w.id) (hv : v ∈ ws) : place v ws = ws := by
  induction ws with
  | nil => cases hv
  | cons u us ih =>
    obtain ⟨hu, hus⟩ := List.pairwise_cons.1 hs
    simp only [place]
    rcases List.mem_cons.1 hv with rfl | hv
    · simp
    · have hlt := hu v hv
      rw [if_neg (by omega), if_pos hlt, ih hus hv]

theorem insert_of_mem {c : Candidates} {v : Variable} (hv : v ∈ c.members) : c.insert v = c :=
  Candidates.ext (place_of_mem c.sorted hv)

theorem erase_of_no_number {c : Candidates} {v : Variable} (h : ∀ w ∈ c.members, w.id ≠ v.id) :
    c.erase v = c := by
  apply Candidates.ext
  show c.members.filter _ = c.members
  simpa [List.filter_eq_self] using h

/-- The lowest candidate goes back to its place. -/
theorem insert_tail {c : Candidates} {v : Variable} {vs : List Variable}
    (h : c.members = v :: vs) : c.tail.insert v = c := by
  apply Candidates.ext
  show place v c.members.tail = c.members
  have hs := c.sorted
  rw [h] at hs ⊢
  cases vs with
  | nil => rfl
  | cons w ws =>
    have hlt := (List.pairwise_cons.1 hs).1 w List.mem_cons_self
    simp [place, hlt]

theorem erase_tail {c : Candidates} {v : Variable} {vs : List Variable}
    (h : c.members = v :: vs) : c.tail.erase v = c.erase v := by
  apply Candidates.ext
  show c.members.tail.filter _ = c.members.filter _
  simp [h]

theorem head?_of_nil {c : Candidates} (h : c.members = []) : c.head? = none :=
  congrArg List.head? h

theorem tail_of_nil {c : Candidates} (h : c.members = []) : c.tail = c := by
  apply Candidates.ext
  show c.members.tail = c.members
  rw [h]
  rfl

theorem head?_of_cons {c : Candidates} {v : Variable} {vs : List Variable}
    (h : c.members = v :: vs) : c.head? = some v :=
  congrArg List.head? h

/-- The first candidate is the lowest. -/
theorem id_le_of_head? {c : Candidates} {v w : Variable} (h : c.head? = some v)
    (hw : w ∈ c.members) : v.id ≤ w.id := by
  obtain ⟨vs, hc⟩ := List.head?_eq_some_iff.1 h
  have hsorted := c.sorted
  rw [hc, List.pairwise_cons] at hsorted
  rw [hc, List.mem_cons] at hw
  rcases hw with rfl | hw
  · exact Nat.le_refl _
  · exact Nat.le_of_lt (hsorted.1 w hw)

end Candidates

/-- Numbers tell the variables that satisfy `V` apart. -/
def Numbered (V : Variable → Prop) : Prop := ∀ v w, V v → V w → v.id = w.id → v = w

namespace LinearForm

variable [Scalar α]

theorem get?_addTerms_of_not_mem {f : LinearForm α} {ts : List (Variable × α)} {w : Variable}
    (h : w ∉ ts.map Prod.fst) : (f.addTerms ts).terms.get? w = f.terms.get? w := by
  induction ts generalizing f with
  | nil => rfl
  | cons t ts ih =>
    obtain ⟨hne, hts⟩ := not_or.1 (mt List.mem_cons.2 h)
    rw [addTerms, ih hts, get?_addTerm_of_ne f hne]

theorem get?_addScaled_of_not_mem {f g : LinearForm α} {m : α} {w : Variable}
    (h : w ∉ g.vars) : (f.addScaled g m).terms.get? w = f.terms.get? w := by
  unfold addScaled
  rw [get?_addTerms_of_not_mem (by rwa [map_fst_scaledTerms])]
  rfl

theorem get?_substitute_of_not_mem {f g : LinearForm α} {v w : Variable} (hv : w ≠ v)
    (hg : w ∉ g.vars) : (f.substitute v g).terms.get? w = f.terms.get? w := by
  unfold substitute
  cases f.terms.get? v with
  | some c => rw [get?_addScaled_of_not_mem hg, get?_erase, if_neg hv]
  | none => rfl

end LinearForm

namespace Tableau

variable [Scalar α] {V : Variable → Prop} {t : Tableau α}

/-- The candidates are exactly the variables that may enter with profit. -/
def Scouted (t : Tableau α) : Prop := ∀ v, v ∈ t.candidates.members ↔ t.profitable v = true

theorem profitable_congr {t' : Tableau α} {v : Variable}
    (h : t'.objective.terms.get? v = t.objective.terms.get? v) :
    t'.profitable v = t.profitable v := by
  unfold profitable
  rw [h]

theorem scouted_empty : (∅ : Tableau α).Scouted := by
  intro v
  show v ∈ [] ↔ (v.mayEnter && (none : Option α).any Scalar.isNeg) = true
  simp

theorem mem_refresh (hV : Numbered V) (h : t.Over V) {v w : Variable} (hv : V v) :
    w ∈ (t.refresh v).candidates.members ↔
      if w = v then t.profitable v = true else w ∈ t.candidates.members := by
  have hids : ∀ u ∈ t.candidates.members, u.id = v.id → u = v :=
    fun u hu hid => hV u v (h.candidates u hu) hv hid
  show w ∈ (if t.profitable v then t.candidates.insert v else t.candidates.erase v).members ↔ _
  by_cases hp : t.profitable v = true
  · rw [if_pos hp, Candidates.mem_insert hids]
    by_cases hw : w = v <;> simp [hw, hp]
  · rw [if_neg hp, Candidates.mem_erase]
    by_cases hw : w = v
    · simp [hw, hp]
    · rw [if_neg hw]
      exact ⟨And.left, fun hm => ⟨hm, fun hid => hw (hids w hm hid)⟩⟩

theorem mem_refreshAll (hV : Numbered V) (h : t.Over V) {vs : List Variable}
    (hvs : ∀ v ∈ vs, V v) {w : Variable} :
    w ∈ (t.refreshAll vs).candidates.members ↔
      if w ∈ vs then t.profitable w = true else w ∈ t.candidates.members := by
  induction vs generalizing t with
  | nil => simp [refreshAll]
  | cons v vs ih =>
    obtain ⟨hv, hvs⟩ := List.forall_mem_cons.1 hvs
    have hsame : (t.refresh v).profitable w = t.profitable w := rfl
    rw [refreshAll_cons, ih (h.refresh hv) hvs, mem_refresh hV h hv, hsame]
    by_cases hw : w ∈ vs
    · simp [hw]
    · by_cases hwv : w = v
      · subst hwv
        simp [hw]
      · simp [hw, hwv]

/-- Only the refreshed variables may have been out of date. -/
theorem scouted_refreshAll (hV : Numbered V) (h : t.Over V) {vs : List Variable}
    (hvs : ∀ v ∈ vs, V v)
    (hrest : ∀ w, w ∉ vs → (w ∈ t.candidates.members ↔ t.profitable w = true)) :
    (t.refreshAll vs).Scouted := by
  intro w
  have hsame : (t.refreshAll vs).profitable w = t.profitable w :=
    profitable_congr (by rw [objective_refreshAll])
  rw [mem_refreshAll hV h hvs, hsame]
  split
  · rfl
  · next hw => exact hrest w hw

theorem Scouted.addCost (hV : Numbered V) (hs : t.Scouted) (h : t.Over V) {v : Variable}
    (hv : V v) (c : α) : (t.addCost v c).Scouted := by
  unfold Tableau.addCost
  apply scouted_refreshAll hV (V := V)
  · exact ⟨h.row, h.accumulate h.objective hv c, h.artificial, h.candidates⟩
  · intro w hw
    cases hrow : t.row? v with
    | some row =>
      simp only [hrow] at hw
      exact (h.row hrow).2 w hw
    | none =>
      simp only [hrow, List.mem_singleton] at hw
      exact hw ▸ hv
  · intro w hw
    have hsame : (t.accumulate t.objective v c).terms.get? w = t.objective.terms.get? w := by
      unfold accumulate
      cases hrow : t.row? v with
      | some row =>
        simp only [hrow] at hw
        exact LinearForm.get?_addScaled_of_not_mem hw
      | none =>
        simp only [hrow, List.mem_singleton] at hw
        exact LinearForm.get?_addTerm_of_ne _ hw c
    rw [profitable_congr (t := t) hsame]
    exact hs w

@[simp] theorem objective_substituteForms (t : Tableau α) (v : Variable) (g : LinearForm α) :
    (t.substituteForms v g).objective = t.objective.substitute v g := by
  simp [substituteForms, substituteRows]

@[simp] theorem candidates_substituteForms (t : Tableau α) (v : Variable) (g : LinearForm α) :
    (t.substituteForms v g).candidates = t.candidates := by
  simp [substituteForms, substituteRows]

theorem Scouted.substitute (hV : Numbered V) (hs : t.Scouted) (h : t.Over V) (ht : t.Indexed)
    {v : Variable} {g : LinearForm α} (hv : V v) (hg : ∀ w ∈ g.vars, V w) :
    (t.substitute v g).Scouted := by
  rw [substitute_eq]
  apply scouted_refreshAll hV (h.substituteForms ht hg) (List.forall_mem_cons.2 ⟨hv, hg⟩)
  intro w hw
  obtain ⟨hne, hw⟩ := not_or.1 (mt List.mem_cons.2 hw)
  have hsame : (t.substituteForms v g).profitable w = t.profitable w :=
    profitable_congr (by
      rw [objective_substituteForms, LinearForm.get?_substitute_of_not_mem hne hw])
  rw [candidates_substituteForms, hsame]
  exact hs w

theorem Scouted.exchange (hV : Numbered V) (hs : t.Scouted) (h : t.Over V) (ht : t.Indexed)
    {t' : Tableau α} {entry exit : Variable} (he : t.exchange entry exit = .ok t') :
    t'.Scouted := by
  obtain ⟨row, hrow, hmem, rfl⟩ := exchange_eq_ok.1 he
  have hsolved : ∀ w ∈ (row.exchange exit entry).vars, V w := by
    intro w hw
    rcases (LinearForm.mem_vars_of_exchange hw).2 with rfl | hw
    · exact (h.row hrow).1
    · exact (h.row hrow).2 w hw
  have hgone : (t.removeRow exit).Scouted := by
    intro w
    rw [candidates_removeRow, profitable_congr (t := t) (by rw [objective_removeRow])]
    exact hs w
  have hsub := hgone.substitute hV (h.removeRow exit) (ht.removeRow exit)
    ((h.row hrow).2 entry hmem) hsolved
  exact hsub

theorem scouted_iff_of_frame {t' : Tableau α} (hc : t'.candidates = t.candidates)
    (ho : t'.objective = t.objective) : t'.Scouted ↔ t.Scouted := by
  unfold Scouted profitable
  rw [hc, ho]

theorem Scouted.removeColumn (hV : Numbered V) (hs : t.Scouted) (h : t.Over V) {v : Variable}
    (hv : V v) : (t.removeColumn v).Scouted := by
  intro w
  show w ∈ (t.candidates.erase v).members ↔ _
  rw [Candidates.mem_erase, hs w]
  by_cases hw : w = v
  · subst hw
    have hgone : (t.removeColumn w).objective.terms.get? w = none := by
      show (t.objective.erase w).terms.get? w = none
      rw [LinearForm.get?_erase, if_pos rfl]
    simp [profitable, hgone]
  · have hkept : (t.removeColumn v).objective.terms.get? w = t.objective.terms.get? w := by
      show (t.objective.erase v).terms.get? w = _
      rw [LinearForm.get?_erase, if_neg hw]
    rw [profitable_congr hkept]
    constructor
    · exact And.left
    · intro hp
      refine ⟨hp, ?_⟩
      intro hid
      exact hw (hV w v (h.candidates w ((hs w).2 hp)) hv hid)

/-! ## A candidate on its way in -/

/-- Looking at a variable again changes nothing where the cache is up to date. -/
theorem Scouted.refresh_eq (hV : Numbered V) (hs : t.Scouted) (h : t.Over V) {v : Variable}
    (hv : V v) : t.refresh v = t := by
  have hc : (if t.profitable v then t.candidates.insert v else t.candidates.erase v) =
      t.candidates := by
    split
    · next hp => exact Candidates.insert_of_mem ((hs v).2 hp)
    · next hp =>
      apply Candidates.erase_of_no_number
      intro w hw hid
      obtain rfl := hV w v (h.candidates w hw) hv hid
      exact hp ((hs w).1 hw)
  unfold refresh
  rw [hc]

omit [Scalar α] in
theorem removeRow_withCandidates (t : Tableau α) (c : Candidates) (b : Variable) :
    ({ t with candidates := c } : Tableau α).removeRow b =
      { t.removeRow b with candidates := c } := by
  have hrow : ({ t with candidates := c } : Tableau α).row? b = t.row? b := rfl
  unfold removeRow
  rw [hrow]
  cases t.row? b <;> rfl

theorem enqueue_withCandidates (t : Tableau α) (c : Candidates) (b : Variable) :
    ({ t with candidates := c } : Tableau α).enqueue b =
      { t.enqueue b with candidates := c } := by
  have hrow : ({ t with candidates := c } : Tableau α).row? b = t.row? b := rfl
  unfold enqueue
  rw [hrow]
  cases hb : b.isRestricted && (t.row? b).any fun f => Scalar.isNeg f.constant <;> rfl

theorem substituteRow_withCandidates (v : Variable) (g : LinearForm α) (t : Tableau α)
    (c : Candidates) (b : Variable) :
    substituteRow v g { t with candidates := c } b =
      { substituteRow v g t b with candidates := c } := by
  have hrow : ({ t with candidates := c } : Tableau α).row? b = t.row? b := rfl
  unfold substituteRow
  rw [hrow]
  cases t.row? b with
  | none => rfl
  | some f =>
    exact enqueue_withCandidates
      { t with
        rows := t.rows.insert b (f.substitute v g)
        columns := t.columns.followAll b (f.substituteChanges v g) } c b

theorem substituteRows_withCandidates (t : Tableau α) (c : Candidates) (v : Variable)
    (g : LinearForm α) :
    ({ t with candidates := c } : Tableau α).substituteRows v g =
      { t.substituteRows v g with candidates := c } := by
  have hfold : ∀ (bs : List Variable) (t : Tableau α),
      bs.foldl (substituteRow v g) { t with candidates := c } =
        { bs.foldl (substituteRow v g) t with candidates := c } := by
    intro bs
    induction bs with
    | nil => exact fun _ => rfl
    | cons b bs ih =>
      intro t
      rw [List.foldl_cons, List.foldl_cons, substituteRow_withCandidates, ih]
  exact hfold (t.column v) { t with columns := t.columns.swapErase v }

/-- A variable that is substituted away leaves the candidates, whether or not it was one. -/
theorem substitute_withCandidates (t : Tableau α) {c : Candidates} {v : Variable}
    {g : LinearForm α} (hg : v ∉ g.vars) (hc : c.erase v = t.candidates.erase v) :
    ({ t with candidates := c } : Tableau α).substitute v g = t.substitute v g := by
  have hforms : ({ t with candidates := c } : Tableau α).substituteForms v g =
      { t.substituteForms v g with candidates := c } := by
    unfold substituteForms
    rw [substituteRows_withCandidates]
  have hgone : v ∉ (t.objective.substitute v g).vars := by
    intro hm
    rcases LinearForm.mem_vars_of_substitute hm with ⟨-, hm⟩ | ⟨hne, -⟩
    · exact hg hm
    · exact hne rfl
  have hprofit : ¬(t.substituteForms v g).profitable v = true := by
    unfold profitable
    rw [objective_substituteForms, Table.get?_eq_none_iff.2 hgone]
    simp
  have hfirst : ({ t.substituteForms v g with candidates := c } : Tableau α).refresh v =
      (t.substituteForms v g).refresh v := by
    have hsame : ({ t.substituteForms v g with candidates := c } : Tableau α).profitable v =
        (t.substituteForms v g).profitable v := rfl
    unfold refresh
    rw [hsame, if_neg hprofit, if_neg hprofit, candidates_substituteForms, ← hc]
  rw [substitute_eq, substitute_eq, hforms, refreshAll_cons, refreshAll_cons, hfirst]

/-- An exchange does not mind whether the entering variable was taken out of the candidates. -/
theorem exchange_withCandidates (t : Tableau α) {c : Candidates} {entry : Variable}
    (hc : c.erase entry = t.candidates.erase entry) (exit : Variable) :
    ({ t with candidates := c } : Tableau α).exchange entry exit = t.exchange entry exit := by
  have hrow : ({ t with candidates := c } : Tableau α).row? exit = t.row? exit := rfl
  unfold exchange
  rw [hrow]
  cases t.row? exit with
  | none => rfl
  | some row =>
    have hout : entry ∉ (row.exchange exit entry).vars :=
      LinearForm.not_mem_vars_isolate _ entry
    have hsub : (({ t with candidates := c } : Tableau α).removeRow exit).substitute entry
        (row.exchange exit entry) =
        (t.removeRow exit).substitute entry (row.exchange exit entry) := by
      rw [removeRow_withCandidates]
      exact substitute_withCandidates _ hout (by rw [candidates_removeRow, hc])
    simp only [hsub]

end Tableau

end SoftSimplex
