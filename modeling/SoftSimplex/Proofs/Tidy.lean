import SoftSimplex.Proofs.Orderly
import SoftSimplex.Proofs.Trim

/-!
# What every operation on the tableau keeps

`Tidy V` gathers what holds of the tableau at every moment, inside an operation as well as
between two: it is orderly and stores no zero coefficient. There is one law for each operation.
-/

namespace SoftSimplex

namespace Tableau

variable {α : Type} [Scalar α] {V : Variable → Prop} {t t' : Tableau α}

structure Tidy (V : Variable → Prop) (t : Tableau α) : Prop where
  wellFormed : t.WellFormed
  trim : t.Trim
  within : t.Over V
  scouted : t.Scouted

theorem Tidy.orderly (h : t.Tidy V) : t.Orderly V := ⟨h.wellFormed, h.within, h.scouted⟩

theorem Orderly.tidy (h : t.Orderly V) (ht : t.Trim) : t.Tidy V :=
  ⟨h.wellFormed, ht, h.within, h.scouted⟩

theorem tidy_empty : (∅ : Tableau α).Tidy V := orderly_empty.tidy trim_empty

theorem Tidy.mono {W : Variable → Prop} (h : t.Tidy V) (hVW : ∀ v, V v → W v) : t.Tidy W :=
  (h.orderly.mono hVW).tidy h.trim

theorem Tidy.removeRow (h : t.Tidy V) (b : Variable) : (t.removeRow b).Tidy V :=
  (h.orderly.removeRow b).tidy (h.trim.removeRow b)

theorem Tidy.insertRow (h : t.Tidy V) {b : Variable} (hb : t.Absent b) (hbV : V b)
    {f : LinearForm α} (hf : f.Trim)
    (hvars : ∀ v ∈ f.vars, V v ∧ v ≠ b ∧ t.row? v = none) : (t.insertRow b f).Tidy V :=
  (h.orderly.insertRow hb hbV hvars).tidy (h.trim.insertRow b hf)

theorem Tidy.removeColumn (hV : Numbered V) (h : t.Tidy V) {v : Variable} (hv : V v) :
    (t.removeColumn v).Tidy V :=
  (h.orderly.removeColumn hV hv).tidy (h.trim.removeColumn h.wellFormed.indexed v)

theorem Tidy.shiftConstant (h : t.Tidy V) {m : Variable} (hm : m.isRestricted = true)
    (δ : α) : (t.shiftConstant m δ).Tidy V :=
  (h.orderly.shiftConstant hm δ).tidy (h.trim.shiftConstant m δ)

theorem Tidy.withQueue (h : t.Tidy V) {q : Roster Variable}
    (hq : ∀ b ∈ q.keys, b ∈ t.queue.keys) : ({ t with queue := q } : Tableau α).Tidy V :=
  (h.orderly.withQueue hq).tidy ⟨h.trim.row, h.trim.objective, h.trim.artificial⟩

theorem Tidy.withArtificial (h : t.Tidy V) {a : Option (LinearForm α)}
    (ha : ∀ g, a = some g → g.Trim ∧ ∀ v ∈ g.vars, V v ∧ t.row? v = none) :
    ({ t with artificial := a } : Tableau α).Tidy V :=
  (h.orderly.withArtificial fun g hg => (ha g hg).2).tidy
    ⟨h.trim.row, h.trim.objective, fun hg => (ha _ hg).1⟩

variable [Scalar.Sharp α]

theorem Tidy.addCost (hV : Numbered V) (h : t.Tidy V) {v : Variable} (hv : V v) (c : α) :
    (t.addCost v c).Tidy V :=
  (h.orderly.addCost hV hv c).tidy (h.trim.addCost v c)

/-- Solving an equation in nonbasic variables for one of them. -/
theorem Tidy.insertSolved (hV : Numbered V) (h : t.Tidy V) {v : Variable}
    {f : LinearForm α} (hf : f.Trim) (hv : v ∈ f.vars)
    (hvars : ∀ w ∈ f.vars, V w ∧ t.row? w = none) :
    ((t.substitute v (f.isolate v)).insertRow v (f.isolate v)).Tidy V :=
  (h.orderly.insertSolved hV hv hvars).tidy
    ((h.trim.substitute h.wellFormed.indexed v _).insertRow v (hf.isolate v))

theorem Tidy.exchange (hV : Numbered V) (h : t.Tidy V) {entry exit : Variable}
    (he : t.exchange entry exit = .ok t') : t'.Tidy V :=
  (h.orderly.exchange hV he).tidy (h.trim.exchange h.wellFormed.indexed he)

end Tableau

end SoftSimplex
