import GuidedChart.Catalog
import GuidedChart.Meaning
import GuidedChart.Scoring

/-!
# Charts

A chart holds one record for each meaning of each cell: which derivations have the meaning there,
and in which ways it came about. Records refer to each other only by cell and meaning, so results
may be shared freely. They never go away; a record that a beam has cut is hidden, which takes it
from the readers of the chart but not from its history.

Cells, and the meanings of a cell, are kept in the order in which they were first found. That a
record bears the key it is kept under, or that its references lead anywhere, is not part of the
type; it follows from how charts are made. Main statement: a finding changes the record of its own
key and no other (`lookup?_add`).
-/

namespace GuidedChart

/-- One way to come to a meaning in a cell: this rule, over children of these meanings. -/
structure Ingredient where
  cell : Cell
  rule : RuleId
  first : Option MeaningId
  second : Option MeaningId
deriving DecidableEq

instance : Coded Ingredient where
  code ingredient := ingredient.rule :: Coded.ofOption ingredient.first ::
    Coded.ofOption ingredient.second :: ingredient.cell.code
  code_injective {a b} h := by
    simp only [List.cons.injEq, Coded.ofOption_inj] at h
    cases a
    cases b
    simp only [Ingredient.mk.injEq]
    exact ⟨Coded.code_injective h.2.2.2, h.1, h.2.1, h.2.2.1⟩

/-- The key of a record: a cell and a meaning. Records keep the keys of the records they were
built from. -/
@[ext]
structure BackPointer where
  cell : Cell
  meaning : MeaningId
deriving DecidableEq

instance : Coded BackPointer where
  code key := key.meaning :: key.cell.code
  code_injective {a b} h := by
    simp only [List.cons.injEq] at h
    cases a
    cases b
    simp only [BackPointer.mk.injEq]
    exact ⟨Coded.code_injective h.2, h.1⟩

/-- How many derivations a record holds on to. -/
inductive Retention where
  /-- The first one, as a witness for the meaning. -/
  | representative
  /-- All of them; a beam cuts them down later. -/
  | all
deriving DecidableEq

/-- A derivation that was found for a meaning of a cell, and how. -/
structure Finding where
  key : BackPointer
  derivation : Derivation
  ingredient : Ingredient
  /-- The keys of the records it was built from. -/
  sources : List BackPointer
  /-- Do all of those stand for a single formula? -/
  sourcesSingle : Bool

/-- What is known of one meaning of one cell. -/
structure Record where
  key : BackPointer
  /-- How many records of the chart were there before it. -/
  number : Nat
  ingredients : Numbering Ingredient
  backPointers : Numbering BackPointer
  derivations : Array Derivation
  /-- Everything it was built from stands for a single formula, and all derivations found had one
  and the same. -/
  singleFormula : Bool
  /-- Cut by the beam of the first pass, and no longer read. -/
  hidden : Bool

namespace Record

/-- The record of a meaning that is found for the first time, after so many other records. -/
def ofFinding (number : Nat) (f : Finding) : Record where
  key := f.key
  number := number
  ingredients := .ofList [f.ingredient]
  backPointers := .ofList f.sources
  derivations := #[f.derivation]
  singleFormula := f.sourcesSingle
  hidden := false

/-- Does the record hold no derivation yet, or first one of the same formula? -/
def agrees (record : Record) (formula : Formula) : Bool :=
  match record.derivations[0]? with
  | none => true
  | some first => first.formula = formula

/-- Does the record hold on to one derivation more? -/
def retains (record : Record) (retention : Retention) : Bool :=
  !record.hidden && (retention = .all || record.derivations.isEmpty)

/-- The record after its meaning is found once more. -/
def extend (record : Record) (retention : Retention) (f : Finding) : Record :=
  let single := record.singleFormula && f.sourcesSingle && record.agrees f.derivation.formula
  let retained := record.retains retention
  { record with
    ingredients := record.ingredients.insert f.ingredient
    backPointers := record.backPointers.insertAll f.sources
    derivations :=
      if retained then record.derivations.push f.derivation else record.derivations
    singleFormula := single }

def hide (record : Record) : Record :=
  { record with hidden := true, derivations := #[] }

end Record

/-- The records of a cell, by meaning. -/
abbrev Shelf := Catalog MeaningId Record

namespace Shelf

/-- The shelf after a derivation was found: the record of the meaning is extended if there is one,
and created otherwise. -/
def add (shelf : Shelf) (retention : Retention) (number : Nat) (f : Finding) : Shelf :=
  shelf.alter f.key.meaning fun
    | some record => record.extend retention f
    | none => .ofFinding number f

theorem get?_add (shelf : Shelf) (retention : Retention) (number : Nat) (f : Finding)
    (meaning : MeaningId) :
    (shelf.add retention number f).get? meaning =
      if f.key.meaning = meaning then
        some (match shelf.get? f.key.meaning with
          | some record => record.extend retention f
          | none => .ofFinding number f)
      else shelf.get? meaning := by
  rw [add, Catalog.get?_alter]

end Shelf

/-- All records of a pass, by cell. -/
structure Chart where
  shelves : Catalog Cell Shelf
  size : Nat
  /-- The number of records that may be read. -/
  numEntries : Nat

namespace Chart

def empty : Chart :=
  ⟨.empty, 0, 0⟩

def lookup? (chart : Chart) (key : BackPointer) : Option Record :=
  (chart.shelves.get? key.cell).bind (·.get? key.meaning)

/-- The keys of the records that the record of a key was built from. -/
def backPointersOf (chart : Chart) (key : BackPointer) : List BackPointer :=
  ((chart.lookup? key).map (·.backPointers.toList)).getD []

/-- Does the key stand for a single formula? -/
def isSingleFormula (chart : Chart) (key : BackPointer) : Bool :=
  match chart.lookup? key with
  | some record => record.singleFormula
  | none => false

/-- The records of a cell, in the order in which their meanings were first found. -/
def recordsOf (chart : Chart) (cell : Cell) : List Record :=
  match chart.shelves.get? cell with
  | some shelf => shelf.values
  | none => []

/-- The records of a cell that may be read. -/
def entries (chart : Chart) (cell : Cell) : List Record :=
  (chart.recordsOf cell).filter (!·.hidden)

def derivations (chart : Chart) (cell : Cell) : List Derivation :=
  (chart.entries cell).flatMap (·.derivations.toList)

/-- The cells that have a record, in the order in which they were first found to have one. -/
def cells (chart : Chart) : List Cell :=
  chart.shelves.keys.toList

/-- The keys that have a record, cell by cell. -/
def keys (chart : Chart) : List BackPointer :=
  chart.cells.flatMap fun cell =>
    match chart.shelves.get? cell with
    | some shelf => shelf.keys.toList.map (⟨cell, ·⟩)
    | none => []

theorem mem_keys_of_lookup? {chart : Chart} {key : BackPointer} {record : Record}
    (h : chart.lookup? key = some record) : key ∈ chart.keys := by
  obtain ⟨shelf, hs, hr⟩ := Option.bind_eq_some_iff.1 h
  obtain ⟨i, hi, -⟩ := Catalog.get?_eq_some_iff.1 hs
  obtain ⟨j, hj, -⟩ := Catalog.get?_eq_some_iff.1 hr
  refine List.mem_flatMap.2 ⟨key.cell, List.mem_of_getElem? hi, ?_⟩
  rw [hs]
  exact List.mem_map.2 ⟨key.meaning, List.mem_of_getElem? hj, rfl⟩

def records (chart : Chart) : List Record :=
  chart.shelves.values.flatMap (·.values)

/-- The chart after a derivation was found for a key. -/
def add (chart : Chart) (retention : Retention) (f : Finding) : Chart :=
  let number := chart.size
  let created := if (chart.lookup? f.key).isSome then 0 else 1
  { shelves := chart.shelves.alter f.key.cell fun shelf? =>
      (shelf?.getD .empty).add retention number f
    size := number + created
    numEntries := chart.numEntries + created }

/-- A finding extends or creates the record of its own key and leaves every other record alone. -/
theorem lookup?_add (chart : Chart) (retention : Retention) (f : Finding) (key : BackPointer) :
    (chart.add retention f).lookup? key =
      if f.key = key then
        some (match chart.lookup? f.key with
          | some record => record.extend retention f
          | none => .ofFinding chart.size f)
      else chart.lookup? key := by
  obtain ⟨cell, meaning⟩ := key
  obtain ⟨⟨cell', meaning'⟩, derivation, ingredient, sources, sourcesSingle⟩ := f
  simp only [add, lookup?, Catalog.get?_alter, BackPointer.mk.injEq]
  by_cases hc : cell' = cell
  · subst hc
    simp only [if_true, Option.bind_some, Shelf.get?_add, true_and]
    cases chart.shelves.get? cell' with
    | none => split <;> rfl
    | some shelf => rfl
  · simp only [hc, false_and, if_false]

end Chart

end GuidedChart
