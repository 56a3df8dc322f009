import GuidedChart.Cell
import GuidedChart.Chart.Basic
import GuidedChart.Proofs.Sense

/-!
# The nodes of a derivation

Derivations share their children, and a beam may have cut a child from its cell after a parent was
built on it. What a pass did for a derivation is therefore read off its tree: where each node was
made (`Derivation.home`), from which cell its parent read it (`Derivation.Node`), and in a table of
meanings, which number it has (`Derivation.number?`) and which way led to it (`Derivation.way?`).
Numbers and ways are found again in every table with more entries (`number?_of_prefix`).
-/

namespace GuidedChart

/-- The floating cell from which floating rules read what is made for a cell. -/
def Cell.offered : Cell → Cell
  | .anchored category _ _ => .floating category 0
  | .floating category depth => .floating category depth

theorem Cell.isAnchored_offered (cell : Cell) : cell.offered.isAnchored = false := by
  cases cell <;> rfl

theorem Cell.category_offered (cell : Cell) : cell.offered.category = cell.category := by
  cases cell <;> rfl

theorem Cell.offered_of_floating {cell : Cell} (h : cell.isAnchored = false) :
    cell.offered = cell := by
  cases cell with
  | anchored category start stop => cases h
  | floating category depth => rfl

theorem Cell.offered_of_anchored {cell : Cell} (h : cell.isAnchored = true) :
    cell.offered = .floating cell.category 0 := by
  cases cell with
  | anchored category start stop => rfl
  | floating category depth => cases h

namespace MeaningTable

variable {table later : MeaningTable} {meaning : Meaning} {id : MeaningId}

theorem id?_eq_some_iff : table.id? meaning = some id ↔ table.key? id = some meaning := by
  rw [id?, Numbering.number?_eq_some_iff, key?, Numbering.item?_eq_getElem?_toList]

/-- A meaning that has a number keeps it in a table with more entries. -/
theorem id?_of_prefix (h : table.keys.toList <+: later.keys.toList)
    (hid : table.id? meaning = some id) : later.id? meaning = some id := by
  rw [id?_eq_some_iff] at hid ⊢
  exact key?_of_prefix h hid

end MeaningTable

namespace Derivation

/-! ## Trees -/

theorem sizeOf_lt_of_mem_children {d child : Derivation} (h : child ∈ d.children) :
    sizeOf child < sizeOf d := by
  have hlt := List.sizeOf_lt_of_mem h
  cases d
  simp only [Derivation.mk.sizeOf_spec] at hlt ⊢
  omega

/-- What holds of a derivation when it holds of its children holds of every derivation. -/
theorem induction_children {P : Derivation → Prop}
    (h : ∀ d, (∀ child ∈ d.children, P child) → P d) (d : Derivation) : P d :=
  h d fun child _ => induction_children h child
termination_by sizeOf d
decreasing_by exact sizeOf_lt_of_mem_children ‹_›

/-- The cell a derivation was made for. -/
def home (d : Derivation) : Cell :=
  match d.span with
  | .anchored start stop => .anchored d.rule.lhs.id start stop
  | .floating depth => .floating d.rule.lhs.id depth

theorem home_eq {d : Derivation} {cell : Cell} (hs : d.span = cell.span)
    (hc : d.rule.lhs.id = cell.category) : d.home = cell := by
  rw [home, hs, hc]
  cases cell <;> rfl

/-- The cell from which a child was read: anchored rules read anchored cells, floating rules read
floating ones. -/
def readFrom (d child : Derivation) : Cell :=
  if d.span.isAnchored then child.home else child.home.offered

theorem category_home (d : Derivation) : d.home.category = d.rule.lhs.id := by
  unfold home
  split <;> rfl

theorem category_readFrom (d child : Derivation) :
    (d.readFrom child).category = child.rule.lhs.id := by
  unfold readFrom
  split
  · exact child.category_home
  · rw [Cell.category_offered, category_home]

/-- A derivation that is read from a cell has a node, which was read from a cell. -/
inductive Node : Cell → Derivation → Cell → Derivation → Prop
  | root (cell : Cell) (d : Derivation) : Node cell d cell d
  | child {cell source : Cell} {d child node : Derivation} (hchild : child ∈ d.children)
    (hnode : Node (d.readFrom child) child source node) : Node cell d source node

/-- Below a derivation, every node was read from a cell of its category. -/
theorem Node.category_eq {cell source : Cell} {d node : Derivation}
    (h : d.Node cell source node) (hc : cell.category = d.rule.lhs.id) :
    source.category = node.rule.lhs.id := by
  induction h with
  | root => exact hc
  | child _ _ ih => exact ih (category_readFrom ..)

/-- All nodes of a derivation that do not belong to one category were filed in the cells they were
read from. -/
def RestsOn (root : CategoryId) (filed : Cell → Derivation → Prop) (cell : Cell)
    (d : Derivation) : Prop :=
  ∀ source node, d.Node cell source node → node.rule.lhs.id ≠ root → filed source node

theorem RestsOn.child {root : CategoryId} {filed : Cell → Derivation → Prop} {cell : Cell}
    {d child : Derivation} (h : d.RestsOn root filed cell) (hc : child ∈ d.children) :
    child.RestsOn root filed (d.readFrom child) :=
  fun source node hnode => h source node (.child hc hnode)

/-- All nodes of a derivation have a property. -/
inductive Everywhere (P : Derivation → Prop) : Derivation → Prop
  | intro {d : Derivation} (here : P d) (below : ∀ child ∈ d.children, Everywhere P child) :
    Everywhere P d

namespace Everywhere

variable {P : Derivation → Prop} {d : Derivation}

theorem here (h : d.Everywhere P) : P d := by
  cases h with
  | intro here below => exact here

theorem node (h : d.Everywhere P) {cell source : Cell} {node : Derivation}
    (hnode : d.Node cell source node) : node.Everywhere P := by
  induction hnode with
  | root => exact h
  | child hchild _ ih =>
    cases h with
    | intro here below => exact ih (below _ hchild)

/-- A derivation of one category throughout rests on nothing. -/
theorem restsOn {root : CategoryId} (h : d.Everywhere (·.rule.lhs.id = root))
    (filed : Cell → Derivation → Prop) (cell : Cell) : d.RestsOn root filed cell :=
  fun _ _ hnode hne => absurd (h.node hnode).here hne

end Everywhere

/-! ## Numbers and ways -/

mutual

/-- The number of the meaning that a derivation has in a table, over the numbers of its children. -/
def number? (table : MeaningTable) : Derivation → Option MeaningId
  | ⟨rule, _, formula, children, _, _, _⟩ =>
    (numbers? table children).bind fun ids =>
      table.id? (.ofOutcome formula.execute rule.id ids[0]? ids[1]?)

def numbers? (table : MeaningTable) : List Derivation → Option (List MeaningId)
  | [] => some []
  | d :: ds => (number? table d).bind fun id => (numbers? table ds).map (id :: ·)

end

/-- The way in which a derivation comes to its meaning. -/
def way? (table : MeaningTable) (d : Derivation) : Option Ingredient :=
  (numbers? table d.children).map fun ids => ⟨d.home, d.rule.id, ids[0]?, ids[1]?⟩

variable {table later : MeaningTable}

theorem numbers?_eq_some_iff {ds : List Derivation} {ids : List MeaningId} :
    numbers? table ds = some ids ↔
      List.Forall₂ (fun d id => number? table d = some id) ds ids := by
  induction ds generalizing ids with
  | nil => simp [numbers?, eq_comm]
  | cons d ds ih =>
    simp only [numbers?, Option.bind_eq_some_iff, Option.map_eq_some_iff, ih]
    constructor
    · rintro ⟨id, hid, rest, hrest, rfl⟩
      exact .cons hid hrest
    · rintro (_ | ⟨hid, hrest⟩)
      exact ⟨_, hid, _, hrest, rfl⟩

theorem number?_eq_some_iff {d : Derivation} {id : MeaningId} :
    d.number? table = some id ↔ ∃ ids, numbers? table d.children = some ids ∧
      table.id? (.ofOutcome d.formula.execute d.rule.id ids[0]? ids[1]?) = some id := by
  cases d
  rw [number?, Option.bind_eq_some_iff]

theorem way?_eq_some_iff {d : Derivation} {way : Ingredient} :
    d.way? table = some way ↔ ∃ ids, numbers? table d.children = some ids ∧
      way = ⟨d.home, d.rule.id, ids[0]?, ids[1]?⟩ := by
  rw [way?, Option.map_eq_some_iff]
  exact exists_congr fun ids => and_congr_right fun _ => eq_comm

/-- A derivation that has a number keeps it in a table with more entries. -/
theorem number?_of_prefix (h : table.keys.toList <+: later.keys.toList) {d : Derivation}
    {id : MeaningId} (hid : d.number? table = some id) : d.number? later = some id := by
  induction d using induction_children generalizing id with
  | h d ih =>
    obtain ⟨ids, hids, hid⟩ := number?_eq_some_iff.1 hid
    refine number?_eq_some_iff.2 ⟨ids, ?_, MeaningTable.id?_of_prefix h hid⟩
    rw [numbers?_eq_some_iff] at hids ⊢
    exact ((List.forall₂_and_left _ _).2 ⟨fun child hc => hc, hids⟩).imp
      fun child id hchild => ih child hchild.1 hchild.2

theorem way?_of_prefix (h : table.keys.toList <+: later.keys.toList) {d : Derivation}
    {way : Ingredient} (hw : d.way? table = some way) : d.way? later = some way := by
  obtain ⟨ids, hids, rfl⟩ := way?_eq_some_iff.1 hw
  refine way?_eq_some_iff.2 ⟨ids, ?_, rfl⟩
  rw [numbers?_eq_some_iff] at hids ⊢
  exact hids.imp fun child id hchild => number?_of_prefix h hchild

end Derivation

end GuidedChart
