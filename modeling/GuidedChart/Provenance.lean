import GuidedChart.Chart.Basic
import GuidedChart.Error

/-!
# Provenance

The ways in which some entries of a chart came about: their own ingredients, and those of all the
records they were built from, however far back. The records are searched depth first along their
back-pointers, each of them once. Back-pointers that lead nowhere are passed over. A back-pointer
to a record that is still being searched closes a cycle, and the search fails at that record.

A search goes turn by turn (`Search.turn`), with a stack of the keys to be taken up and with marks
on the keys that it has come to. The marks hold for all roots. Every turn costs something
(`Search.cost_lt_of_turn`): a key that gets a mark takes itself and its back-pointers off what may
still come onto the stack.
-/

namespace GuidedChart

/-- How far a search has come with a key. -/
inductive Mark where
  /-- The record has been taken up, and what lies behind it is still being searched. -/
  | opened
  /-- Nothing is left to be searched behind the key. -/
  | closed
deriving DecidableEq

/-- A search for the provenance of some roots, on its way. -/
structure Search where
  /-- The roots that have not been taken up. -/
  roots : List BackPointer
  /-- The keys to be taken up, the next one first, and among them the keys to be closed. -/
  stack : List (BackPointer × Bool)
  marks : Catalog BackPointer Mark
  ingredients : Numbering Ingredient

/-- What a turn of a search comes to. -/
inductive Turn where
  | next (search : Search)
  /-- The search is over. The error is the key at which a cycle was closed. -/
  | ended (answer : Except BackPointer (Numbering Ingredient))

namespace Search

def start (roots : List BackPointer) : Search :=
  ⟨roots, [], .empty, .empty⟩

def mark (search : Search) (key : BackPointer) (mark : Mark) : Search :=
  { search with marks := search.marks.alter key fun _ => mark }

/-- The search goes on behind a record, whose key is closed when all its back-pointers are done
with. -/
def expand (search : Search) (key : BackPointer) (record : Record) : Search :=
  { search.mark key .opened with
    stack := record.backPointers.toList.map (·, false) ++ (key, true) :: search.stack
    ingredients := search.ingredients.insertAll record.ingredients.toList }

def turn (chart : Chart) (search : Search) : Turn :=
  match search.stack with
  | [] =>
    match search.roots with
    | [] => .ended (.ok search.ingredients)
    | root :: roots => .next { search with roots, stack := [(root, false)] }
  | (key, true) :: stack => .next ({ search with stack }.mark key .closed)
  | (key, false) :: stack =>
    match search.marks.get? key with
    | some .closed => .next { search with stack }
    | some .opened => .ended (.error key)
    | none =>
      match chart.lookup? key with
      | none => .next ({ search with stack }.mark key .closed)
      | some record => .next ({ search with stack }.expand key record)

/-! ### The cost of a search -/

/-- The keys that have no mark yet, each with the back-pointers of its record. -/
def ahead (chart : Chart) (marks : Catalog BackPointer Mark) : List BackPointer :=
  (chart.keys.filter fun key => (marks.get? key).isNone).flatMap fun key =>
    key :: chart.backPointersOf key

/-- A bound on the turns that a search still takes. -/
def cost (chart : Chart) (search : Search) : Nat :=
  2 * search.roots.length + search.stack.length + (ahead chart search.marks).length

/-- A mark takes a key off what is ahead and leaves the rest as it is. -/
theorem length_ahead_alter (chart : Chart) (marks : Catalog BackPointer Mark) (key : BackPointer)
    (mark : Mark) :
    (ahead chart (marks.alter key fun _ => mark)).length +
        (if key ∈ chart.keys ∧ marks.get? key = none then
          (chart.backPointersOf key).length + 1 else 0) ≤
      (ahead chart marks).length := by
  unfold ahead
  induction chart.keys with
  | nil => simp
  | cons k keys ih =>
    simp only [List.filter_cons, Catalog.get?_alter, List.mem_cons] at ih ⊢
    by_cases hk : key = k
    · subst hk
      cases hm : marks.get? key with
      | none =>
        simp only [hm, if_true, true_or, and_self, and_true, Option.isNone_some,
          Option.isNone_none, Bool.false_eq_true, if_false, List.flatMap_cons, List.length_append,
          List.length_cons] at ih ⊢
        split at ih <;> omega
      | some m =>
        simp only [hm, if_true, Option.isNone_some, Bool.false_eq_true, if_false, reduceCtorEq,
          and_false, Nat.add_zero] at ih ⊢
        exact ih
    · simp only [hk, false_or, if_false] at ih ⊢
      split
      · simp only [List.flatMap_cons, List.length_append]
        omega
      · exact ih

variable {chart : Chart} {search later : Search}

theorem cost_mark_le (chart : Chart) (search : Search) (key : BackPointer) (mark : Mark) :
    (search.mark key mark).cost chart ≤ search.cost chart := by
  have hahead := length_ahead_alter chart search.marks key mark
  unfold cost Search.mark
  dsimp only
  omega

/-- A key that is taken up was ahead with the back-pointers that come onto the stack. -/
theorem cost_expand_le {key : BackPointer} {record : Record}
    (hm : search.marks.get? key = none) (hr : chart.lookup? key = some record) :
    (search.expand key record).cost chart ≤ search.cost chart := by
  have hahead := length_ahead_alter chart search.marks key .opened
  have hsources : chart.backPointersOf key = record.backPointers.toList := by
    rw [Chart.backPointersOf, hr]
    rfl
  rw [if_pos ⟨Chart.mem_keys_of_lookup? hr, hm⟩, hsources] at hahead
  simp only [cost, expand, Search.mark, List.length_append, List.length_map, List.length_cons]
  omega

/-- Every turn has its cost. -/
theorem cost_lt_of_turn (h : search.turn chart = .next later) :
    later.cost chart < search.cost chart := by
  obtain ⟨roots, stack, marks, ingredients⟩ := search
  unfold turn at h
  dsimp only at h
  split at h
  · split at h
    · cases h
    · cases h
      simp only [cost, List.length_cons, List.length_nil]
      omega
  · cases h
    exact Nat.lt_of_le_of_lt (cost_mark_le ..) (by simp [cost])
  · rename_i key stack
    have hpop : cost chart ⟨roots, stack, marks, ingredients⟩ <
        cost chart ⟨roots, (key, false) :: stack, marks, ingredients⟩ := by
      simp [cost]
    split at h
    · cases h
      exact hpop
    · cases h
    · rename_i hm
      split at h
      · cases h
        exact Nat.lt_of_le_of_lt (cost_mark_le ..) hpop
      · rename_i record hr
        cases h
        exact Nat.lt_of_le_of_lt (cost_expand_le hm hr) hpop

/-- The search, to its end. -/
def run (chart : Chart) (search : Search) : Except BackPointer (Numbering Ingredient) :=
  match _h : search.turn chart with
  | .next later => later.run chart
  | .ended answer => answer
termination_by search.cost chart
decreasing_by exact cost_lt_of_turn _h

end Search

/-- All the ways in which the records of the roots came about, each once. -/
def Chart.provenance (chart : Chart) (roots : List BackPointer) :
    Except BackPointer (Numbering Ingredient) :=
  (Search.start roots).run chart

def Error.ofCycle (key : BackPointer) : Error :=
  .provenanceCycle key.cell key.meaning

end GuidedChart
