import GuidedChart.Proofs.Chart.Placement
import Mathlib.Algebra.Order.BigOperators.Group.Finset

/-!
# Counts

A chart counts its entries as it goes: a finding of a new meaning is one more, and a beam that hides
entries takes as many off. The count is the number of entries of all cells together
(`Chart.Made.counted`), as the size of a chart is the number of its records
(`Chart.Made.length_records`). Derivations are not counted on the way, but a finding that is kept is
one more (`Chart.numDerivations_add`), and a beam drops as many as it says
(`Chart.numDerivations_keepBest`).

A finding and a beam change one cell, so every sum over all cells changes by what has changed there
(`Chart.total_add_eq`).
-/

namespace GuidedChart

namespace Record

/-- What the beam of the second pass leaves and what it drops are together what there was. -/
theorem length_flatMap_keepBest (k : Nat) (records : List Record) :
    ((records.map (keepBest k)).flatMap (·.derivations.toList)).length +
        (records.flatMap (·.derivations.toList.drop k)).length =
      (records.flatMap (·.derivations.toList)).length := by
  induction records with
  | nil => rfl
  | cons r rs ih =>
    have hr : (r.keepBest k).derivations.toList.length + (r.derivations.toList.drop k).length =
        r.derivations.toList.length := by
      have hperm := (Derivation.ranked_perm r.derivations.toList).length_eq
      unfold keepBest
      rw [List.length_drop]
      split
      · rw [Array.length_toList]
        omega
      · rw [List.length_take, hperm, Array.length_toList]
        omega
    simp only [List.map_cons, List.flatMap_cons, List.length_append]
    omega

end Record

namespace Chart

variable {chart : Chart} {retention : Retention} {f : Finding} {cell : Cell} {k : Nat}

theorem recordsOf_of_not_mem_cells (h : cell ∉ chart.cells) : chart.recordsOf cell = [] := by
  rw [recordsOf, Catalog.get?_eq_none_iff.2 h]

theorem size_add_of_holds (h : chart.Holds f.key) :
    (chart.add retention f).size = chart.size :=
  congrArg (chart.size + ·) (if_pos (Option.isSome_iff_exists.2 h))

theorem size_add_of_not_holds (h : ¬ chart.Holds f.key) :
    (chart.add retention f).size = chart.size + 1 :=
  congrArg (chart.size + ·) (if_neg (mt Option.isSome_iff_exists.1 h))

/-! ### The entries of a cell -/

/-- A finding of a new meaning is one entry more in its cell. -/
theorem length_entries_add (hk : chart.Keyed) :
    ((chart.add retention f).entries f.key.cell).length = (chart.entries f.key.cell).length +
      if (chart.lookup? f.key).isSome then 0 else 1 := by
  unfold entries
  by_cases hf : chart.Holds f.key
  · rw [recordsOf_add_of_holds hk hf, if_pos (Option.isSome_iff_exists.2 hf), List.filter_map,
      List.length_map]
    congr 2
    funext record
    rw [Function.comp_apply]
    split <;> rfl
  · rw [recordsOf_add_of_not_holds hf, if_neg (mt Option.isSome_iff_exists.1 hf),
      List.filter_append, List.length_append]
    rfl

theorem length_entries_add_of_ne (h : f.key.cell ≠ cell) :
    ((chart.add retention f).entries cell).length = (chart.entries cell).length := by
  rw [entries, recordsOf_add_of_ne _ _ _ h, entries]

theorem length_entries_le_add (hk : chart.Keyed) (retention : Retention) (f : Finding)
    (cell : Cell) :
    (chart.entries cell).length ≤ ((chart.add retention f).entries cell).length := by
  by_cases hcell : f.key.cell = cell
  · subst hcell
    rw [length_entries_add hk]
    exact Nat.le_add_right _ _
  · rw [length_entries_add_of_ne hcell]

theorem length_entries_le_addAll (hk : chart.Keyed) (retention : Retention) (fs : List Finding)
    (cell : Cell) :
    (chart.entries cell).length ≤ ((chart.addAll retention fs).entries cell).length := by
  induction fs generalizing chart with
  | nil => exact Nat.le_refl _
  | cons f fs ih => exact (length_entries_le_add hk retention f cell).trans (ih hk.add)

theorem length_entries_truncate (other : Cell) :
    ((chart.truncate cell k).entries other).length =
      if cell = other then min k (chart.entries other).length
      else (chart.entries other).length := by
  rw [entries_truncate]
  split
  · exact List.length_take
  · rfl

theorem length_entries_keepBest (other : Cell) :
    ((chart.keepBest cell k).entries other).length = (chart.entries other).length := by
  rw [entries_keepBest]
  split
  · exact List.length_map _
  · rfl

/-! ### Sums over all cells -/

/-- A quantity of the records of a cell, summed up over all cells. -/
def total (chart : Chart) (q : List Record → Nat) : Nat :=
  ∑ cell ∈ chart.cells.toFinset, q (chart.recordsOf cell)

section Total

variable {q : List Record → Nat} (hq : q [] = 0)

include hq

theorem sum_recordsOf {cells : Finset Cell} (h : chart.cells.toFinset ⊆ cells) :
    ∑ cell ∈ cells, q (chart.recordsOf cell) = chart.total q := by
  refine (Finset.sum_subset h fun cell _ hcell => ?_).symm
  rw [recordsOf_of_not_mem_cells (mt List.mem_toFinset.2 hcell), hq]

/-- If only one cell has changed, the sums differ by what has changed there. -/
theorem total_add_eq {other : Chart}
    (h : ∀ x, cell ≠ x → other.recordsOf x = chart.recordsOf x) :
    other.total q + q (chart.recordsOf cell) = chart.total q + q (other.recordsOf cell) := by
  let cells := insert cell (chart.cells.toFinset ∪ other.cells.toFinset)
  have hold : ∑ x ∈ cells, q (chart.recordsOf x) = chart.total q :=
    sum_recordsOf hq (Finset.subset_union_left.trans (Finset.subset_insert _ _))
  have hnew : ∑ x ∈ cells, q (other.recordsOf x) = other.total q :=
    sum_recordsOf hq (Finset.subset_union_right.trans (Finset.subset_insert _ _))
  have hself : cell ∈ cells := Finset.mem_insert_self _ _
  have hrest : ∑ x ∈ cells.erase cell, q (other.recordsOf x) =
      ∑ x ∈ cells.erase cell, q (chart.recordsOf x) :=
    Finset.sum_congr rfl fun x hx => by rw [h x (Finset.ne_of_mem_erase hx).symm]
  rw [← hold, ← hnew, ← Finset.add_sum_erase cells _ hself, ← Finset.add_sum_erase cells _ hself,
    hrest]
  omega

end Total

/-! ### All entries -/

/-- The count of entries is right: it is their number over all cells. -/
def Counted (chart : Chart) : Prop :=
  chart.numEntries = ∑ cell ∈ chart.cells.toFinset, (chart.entries cell).length

theorem counted_iff :
    chart.Counted ↔ chart.numEntries = chart.total fun records =>
      (records.filter (!·.hidden)).length :=
  Iff.rfl

/-- Where no cell has more entries, there are not more of them altogether. -/
theorem Counted.le {other : Chart} (h : chart.Counted) (ho : other.Counted)
    (hle : ∀ cell, (chart.entries cell).length ≤ (other.entries cell).length) :
    chart.numEntries ≤ other.numEntries := by
  rw [counted_iff.1 h, counted_iff.1 ho, ← sum_recordsOf rfl Finset.subset_union_left,
    ← sum_recordsOf rfl Finset.subset_union_right]
  exact Finset.sum_le_sum fun cell _ => hle cell

/-- A cell has no more entries than there are altogether. -/
theorem Counted.length_entries_le (h : chart.Counted) (cell : Cell) :
    (chart.entries cell).length ≤ chart.numEntries := by
  rw [counted_iff.1 h, ← sum_recordsOf rfl (Finset.subset_insert cell _)]
  exact Finset.single_le_sum (f := fun cell => (chart.entries cell).length)
    (fun _ _ => Nat.zero_le _) (Finset.mem_insert_self _ _)

theorem Counted.add (h : chart.Counted) (hk : chart.Keyed) (retention : Retention) (f : Finding) :
    (chart.add retention f).Counted := by
  have hnum : (chart.add retention f).numEntries = chart.numEntries +
      if (chart.lookup? f.key).isSome then 0 else 1 := rfl
  have hcell : ((chart.add retention f).entries f.key.cell).length =
      (chart.entries f.key.cell).length + if (chart.lookup? f.key).isSome then 0 else 1 :=
    length_entries_add hk
  have htotal := total_add_eq (q := fun records => (records.filter (!·.hidden)).length) rfl
    fun x hx => recordsOf_add_of_ne chart retention f hx
  rw [counted_iff, hnum, counted_iff.1 h]
  unfold entries at hcell
  omega

theorem Counted.truncate (h : chart.Counted) (cell : Cell) (k : Nat) :
    (chart.truncate cell k).Counted := by
  have hnum : (chart.truncate cell k).numEntries =
      chart.numEntries - ((chart.entries cell).length - k) := rfl
  have hle := h.length_entries_le cell
  have hcell : ((chart.truncate cell k).entries cell).length = min k (chart.entries cell).length :=
    (length_entries_truncate cell).trans (if_pos rfl)
  have htotal := total_add_eq (q := fun records => (records.filter (!·.hidden)).length) rfl
    fun x hx => (recordsOf_truncate chart cell x k).trans (if_neg hx)
  rw [counted_iff] at h ⊢
  unfold entries at hcell hnum hle
  omega

theorem Counted.keepBest (h : chart.Counted) (cell : Cell) (k : Nat) :
    (chart.keepBest cell k).Counted := by
  have hnum : (chart.keepBest cell k).numEntries = chart.numEntries := rfl
  have hcell : ((chart.keepBest cell k).entries cell).length = (chart.entries cell).length :=
    length_entries_keepBest cell
  have htotal := total_add_eq (q := fun records => (records.filter (!·.hidden)).length) rfl
    fun x hx => (recordsOf_keepBest chart cell x k).trans (if_neg hx)
  rw [counted_iff] at h ⊢
  unfold entries at hcell
  omega

/-- Whatever was found and cut, the count of entries is right. -/
theorem Made.counted (h : chart.Made) : chart.Counted := by
  induction h with
  | empty => rfl
  | add retention f h ih => exact ih.add h.keyed retention f
  | truncate cell k _ ih => exact ih.truncate cell k
  | keepBest cell k _ ih => exact ih.keepBest cell k

/-! ### All records -/

theorem records_eq_flatMap (chart : Chart) :
    chart.records = chart.cells.flatMap chart.recordsOf := by
  have hcell : chart.recordsOf = fun cell =>
      ((chart.shelves.get? cell).map Catalog.values).getD [] := by
    funext cell
    unfold recordsOf
    cases chart.shelves.get? cell <;> rfl
  have hmap := congrArg (List.flatMap fun shelf? : Option Shelf =>
    (shelf?.map Catalog.values).getD []) chart.shelves.map_get?_keys
  rw [List.flatMap_map, List.flatMap_map] at hmap
  rw [hcell]
  exact hmap.symm

/-- What is collected cell by cell is counted cell by cell. -/
theorem length_flatMap_cells {α : Type} (chart : Chart) (collect : List Record → List α) :
    (chart.cells.flatMap fun cell => collect (chart.recordsOf cell)).length =
      chart.total fun records => (collect records).length := by
  have hnodup : chart.cells.Nodup := Numbering.nodup_toList _
  rw [List.length_flatMap, total, List.sum_toFinset _ hnodup]

theorem Counted.length_filter_records (h : chart.Counted) :
    (chart.records.filter (!·.hidden)).length = chart.numEntries := by
  rw [records_eq_flatMap, List.filter_flatMap, counted_iff.1 h]
  exact length_flatMap_cells chart (List.filter (!·.hidden))

theorem length_records_eq_total (chart : Chart) :
    chart.records.length = chart.total List.length := by
  rw [records_eq_flatMap]
  exact length_flatMap_cells chart id

/-- What leaves every cell as many records as it has leaves as many altogether. -/
theorem length_records_eq {other : Chart}
    (h : ∀ x, cell ≠ x → other.recordsOf x = chart.recordsOf x)
    (hcell : (other.recordsOf cell).length = (chart.recordsOf cell).length) :
    other.records.length = chart.records.length := by
  have htotal := total_add_eq (q := List.length) rfl h
  rw [length_records_eq_total, length_records_eq_total]
  omega

/-- No record ever goes away: the size of a chart is the number of its records. -/
theorem Made.length_records (h : chart.Made) : chart.records.length = chart.size := by
  induction h with
  | empty => rfl
  | @add chart retention f h ih =>
    by_cases hf : chart.Holds f.key
    · rw [size_add_of_holds hf, ← ih]
      refine length_records_eq (fun x hx => recordsOf_add_of_ne chart retention f hx) ?_
      rw [recordsOf_add_of_holds h.keyed hf, List.length_map]
    · have htotal := total_add_eq (q := List.length) rfl
        fun x hx => recordsOf_add_of_ne chart retention f hx
      rw [recordsOf_add_of_not_holds hf, List.length_append, List.length_singleton] at htotal
      rw [size_add_of_not_holds hf, ← ih, length_records_eq_total, length_records_eq_total]
      omega
  | @truncate chart cell k _ ih =>
    refine (length_records_eq (fun x hx => (recordsOf_truncate chart cell x k).trans (if_neg hx))
      ?_).trans ih
    rw [recordsOf_truncate, if_pos rfl, Record.length_hideBeyond]
  | @keepBest chart cell k _ ih =>
    refine (length_records_eq (fun x hx => (recordsOf_keepBest chart cell x k).trans (if_neg hx))
      ?_).trans ih
    rw [recordsOf_keepBest, if_pos rfl, List.length_map]

/-! ### All derivations -/

/-- The number of derivations that may be read, over all cells. -/
def numDerivations (chart : Chart) : Nat :=
  ((chart.records.filter (!·.hidden)).flatMap (·.derivations.toList)).length

theorem numDerivations_eq_total (chart : Chart) :
    chart.numDerivations = chart.total fun records =>
      ((records.filter (!·.hidden)).flatMap (·.derivations.toList)).length := by
  rw [numDerivations, records_eq_flatMap, List.filter_flatMap, List.flatMap_assoc]
  exact length_flatMap_cells chart fun records =>
    (records.filter (!·.hidden)).flatMap (·.derivations.toList)

/-- Where all derivations are kept, a finding is one derivation more. -/
theorem numDerivations_add (h : chart.Visible) (f : Finding) :
    (chart.add .all f).numDerivations = chart.numDerivations + 1 := by
  have hchange := total_add_eq
    (q := fun records => ((records.filter (!·.hidden)).flatMap (·.derivations.toList)).length) rfl
    fun x hx => recordsOf_add_of_ne chart .all f hx
  have hcell := (derivations_add_perm (h.visibleIn f.key.cell) f).length_eq
  rw [if_pos rfl, List.length_append, List.length_singleton] at hcell
  unfold derivations entries at hcell
  rw [numDerivations_eq_total, numDerivations_eq_total]
  omega

/-- What the beam of the second pass drops was there before. -/
theorem numDropped_add_keepBest (chart : Chart) (cell : Cell) (k : Nat) :
    chart.numDropped cell k + ((chart.keepBest cell k).derivations cell).length =
      (chart.derivations cell).length := by
  have h := Record.length_flatMap_keepBest k (chart.entries cell)
  rw [numDropped, derivations, derivations, entries_keepBest, if_pos rfl]
  omega

/-- The beam of the second pass drops as many derivations as it says. -/
theorem numDerivations_keepBest (chart : Chart) (cell : Cell) (k : Nat) :
    (chart.keepBest cell k).numDerivations + chart.numDropped cell k = chart.numDerivations := by
  have hchange := total_add_eq
    (q := fun records => ((records.filter (!·.hidden)).flatMap (·.derivations.toList)).length) rfl
    fun x hx => (recordsOf_keepBest chart cell x k).trans (if_neg hx)
  have hcell := numDropped_add_keepBest chart cell k
  unfold derivations entries at hcell
  rw [numDerivations_eq_total, numDerivations_eq_total]
  omega

end Chart

end GuidedChart
