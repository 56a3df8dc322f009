import GuidedChart.Chart.Basic

/-!
# Beams

Two ways to cut a cell down. The beam of the first pass keeps the meanings that were found first
and hides the others; the beam of the second pass keeps the best derivations of every meaning. Both
leave every other cell alone (`recordsOf_truncate`, `recordsOf_keepBest`), and neither touches how a
meaning came about.
-/

namespace GuidedChart

/-- The records of a cell, with the first `k` of its entries as they were and the others hidden. -/
def Record.hideBeyond : Nat → List Record → List Record
  | _, [] => []
  | k, r :: rs =>
    if r.hidden then r :: hideBeyond k rs
    else
      match k with
      | 0 => r.hide :: hideBeyond 0 rs
      | k + 1 => r :: hideBeyond k rs

theorem Record.length_hideBeyond (k : Nat) (records : List Record) :
    (hideBeyond k records).length = records.length := by
  fun_induction hideBeyond k records <;> simp_all

/-- The record with at most `k` derivations: all of them in their order, or else the best ones. -/
def Record.keepBest (k : Nat) (record : Record) : Record :=
  if record.derivations.size ≤ k then record
  else
    { record with
      derivations := ((Derivation.ranked record.derivations.toList).take k).toArray }

namespace Chart

def numHidden (chart : Chart) (cell : Cell) (k : Nat) : Nat :=
  (chart.entries cell).length - k

/-- The chart in which only the first `k` meanings of a cell may be read. -/
def truncate (chart : Chart) (cell : Cell) (k : Nat) : Chart :=
  let numHidden := chart.numHidden cell k
  { chart with
    shelves := chart.shelves.modify cell fun shelf =>
      shelf.revise (Record.hideBeyond k) (Record.length_hideBeyond k)
    numEntries := chart.numEntries - numHidden }

/-- The chart in which every meaning of a cell has at most `k` derivations. -/
def keepBest (chart : Chart) (cell : Cell) (k : Nat) : Chart :=
  { chart with
    shelves := chart.shelves.modify cell fun shelf =>
      shelf.revise (List.map (Record.keepBest k)) fun _ => List.length_map _ }

def numDropped (chart : Chart) (cell : Cell) (k : Nat) : Nat :=
  ((chart.entries cell).flatMap fun record => record.derivations.toList.drop k).length

theorem recordsOf_truncate (chart : Chart) (cell other : Cell) (k : Nat) :
    (chart.truncate cell k).recordsOf other =
      if cell = other then Record.hideBeyond k (chart.recordsOf other)
      else chart.recordsOf other := by
  simp only [truncate, recordsOf, Catalog.get?_modify]
  by_cases h : cell = other
  · subst h
    simp only [if_true]
    cases chart.shelves.get? cell <;> rfl
  · simp only [h, if_false]

theorem recordsOf_keepBest (chart : Chart) (cell other : Cell) (k : Nat) :
    (chart.keepBest cell k).recordsOf other =
      if cell = other then (chart.recordsOf other).map (Record.keepBest k)
      else chart.recordsOf other := by
  simp only [keepBest, recordsOf, Catalog.get?_modify]
  by_cases h : cell = other
  · subst h
    simp only [if_true]
    cases chart.shelves.get? cell <;> rfl
  · simp only [h, if_false]

end Chart

end GuidedChart
