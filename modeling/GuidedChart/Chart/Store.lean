import GuidedChart.Chart.Beam

/-!
# Stores

A chart as it is stored. All records stand in one row, the arena, in the order in which they were
made. Beside it each cell has the order of its meanings that may be read and the places of all its
records in the arena, and the records that may be read are counted. So there are four structures
that have to stay in step, whatever is done to the store.

That a meaning in the order of a cell has a place there, that a record stands at each place, or that
the count is not less than what is taken off it, is not part of the type. Where it does not hold,
the operation fails.
-/

namespace GuidedChart

/-- What is stored of a cell beside its records. -/
structure CellIndex where
  /-- The meanings that may be read, in the order in which they were first found. -/
  order : List MeaningId
  /-- Where the record of each meaning stands, hidden or not. -/
  places : Catalog MeaningId Nat

namespace CellIndex

def empty : CellIndex :=
  ⟨[], .empty⟩

/-- The index with a meaning that is new to the cell. -/
def enter (index : CellIndex) (meaning : MeaningId) (place : Nat) : CellIndex where
  order := index.order ++ [meaning]
  places := index.places.alter meaning fun _ => place

/-- The index in which only the first `k` meanings may be read. -/
def cut (index : CellIndex) (k : Nat) : CellIndex :=
  { index with order := index.order.take k }

end CellIndex

/-- All records of a pass, as they are stored. -/
structure Store where
  /-- The records, in the order in which they were made. -/
  arena : Array Record
  cells : Catalog Cell CellIndex
  /-- The number of records that may be read. -/
  numVisible : Nat

namespace Store

def empty : Store :=
  ⟨#[], .empty, 0⟩

/-! ### Reading -/

/-- Where the record of a key stands. -/
def place? (store : Store) (key : BackPointer) : Option Nat :=
  (store.cells.get? key.cell).bind (·.places.get? key.meaning)

/-- The record of a key, hidden or not. -/
def lookup? (store : Store) (key : BackPointer) : Option Record :=
  (store.place? key).bind fun place => store.arena[place]?

/-- The meanings of a cell that may be read, in the order in which they were first found. -/
def orderOf (store : Store) (cell : Cell) : List MeaningId :=
  match store.cells.get? cell with
  | some index => index.order
  | none => []

def numMeanings (store : Store) (cell : Cell) : Nat :=
  (store.orderOf cell).length

/-- The records of a cell that may be read, if each of them stands where it should. -/
def entries? (store : Store) (cell : Cell) : Option (List Record) :=
  (store.orderOf cell).mapM fun meaning => store.lookup? ⟨cell, meaning⟩

def derivations? (store : Store) (cell : Cell) : Option (List Derivation) :=
  (store.entries? cell).map (·.flatMap (·.derivations.toList))

/-! ### Changing -/

/-- The arena with the record at a place changed. -/
def changeAt? (change : Record → Record) (arena : Array Record) (place : Nat) :
    Option (Array Record) :=
  (arena[place]?).map fun _ => arena.modify place change

/-- The store after a derivation was found for a key, and where its record stands. -/
def add? (store : Store) (retention : Retention) (f : Finding) : Option (Store × Nat) :=
  match store.place? f.key with
  | some place => do
    let arena ← changeAt? (·.extend retention f) store.arena place
    return ({ store with arena }, place)
  | none =>
    let place := store.arena.size
    let cells := store.cells.alter f.key.cell fun index? =>
      (index?.getD .empty).enter f.key.meaning place
    some (⟨store.arena.push (.ofFinding place f), cells, store.numVisible + 1⟩, place)

/-- The store in which only the first `k` meanings of a cell may be read, and how many were hidden
for that. -/
def truncate? (store : Store) (cell : Cell) (k : Nat) : Option (Store × Nat) :=
  match store.cells.get? cell with
  | none => some (store, 0)
  | some index =>
    if index.order.length ≤ k then some (store, 0)
    else do
      let cut ← (index.order.drop k).mapM index.places.get?
      let arena ← cut.foldlM (changeAt? Record.hide) store.arena
      let cells := store.cells.modify cell (·.cut k)
      if store.numVisible < cut.length then none
      else return (⟨arena, cells, store.numVisible - cut.length⟩, cut.length)

/-- The arena with at most `k` derivations left at a place, and how many are dropped by now. -/
def dropAt? (k : Nat) : Array Record × Nat → Nat → Option (Array Record × Nat)
  | (arena, dropped), place => do
    let record ← arena[place]?
    let arena ← changeAt? (·.keepBest k) arena place
    return (arena, dropped + (record.derivations.size - k))

/-- The store in which every meaning of a cell that may be read has at most `k` derivations, and how
many were dropped for that. -/
def keepBest? (store : Store) (cell : Cell) (k : Nat) : Option (Store × Nat) :=
  match store.cells.get? cell with
  | none => some (store, 0)
  | some index => do
    let places ← index.order.mapM index.places.get?
    let (arena, dropped) ← places.foldlM (dropAt? k) (store.arena, 0)
    return ({ store with arena }, dropped)

end Store

end GuidedChart
