import GuidedChart.Provenance
import GuidedChart.Proofs.Chart.Holdings

/-!
# Searching by recursion

A search for a provenance keeps a stack and marks, and goes turn by turn. It always ends, after no
more turns than two for each root, one for each record and one for each of its back-pointers
(`Search.ends_run`).

What it does can be told without the stack: a key is visited by visiting what its back-pointers lead
to, one after the other, and the path from a root says which keys are open (`Provenance.visit`). As
the marks are shared between the roots, and keys may wait on the stack many times over, this has to
be shown. The relation that carries it says that a key is marked as closed when the recursion has
closed it, and as opened when it is on the path (`Search.Shows`). Then the turns that begin with a
key on top of the stack end with the stack below it, just as the visit of the key ends, or both stop
at the same key (`Search.Shows.meets_visit`). So the two searches find the same, in the same order
(`Chart.provenance_eq`).
-/

namespace GuidedChart

/-! ## The turns of a search -/

namespace Search

variable {chart : Chart} {search later : Search}

/-- The search is over after so many turns, with this answer. -/
inductive Ends (chart : Chart) : Nat → Search → Except BackPointer (Numbering Ingredient) → Prop
  | ended {search : Search} {answer : Except BackPointer (Numbering Ingredient)} :
    search.turn chart = .ended answer → Ends chart 0 search answer
  | next {search later : Search} {n : Nat} {answer : Except BackPointer (Numbering Ingredient)} :
    search.turn chart = .next later → Ends chart n later answer → Ends chart (n + 1) search answer

theorem run_of_next (h : search.turn chart = .next later) :
    search.run chart = later.run chart := by
  rw [run]
  split
  · rename_i s hs
    cases h.symm.trans hs
    rfl
  · rename_i answer hs
    cases h.symm.trans hs

theorem run_of_ended {answer : Except BackPointer (Numbering Ingredient)}
    (h : search.turn chart = .ended answer) : search.run chart = answer := by
  rw [run]
  split
  · rename_i s hs
    cases h.symm.trans hs
  · rename_i answer hs
    cases h.symm.trans hs
    rfl

/-- Every search ends, and the loop gives what it ends with. -/
theorem ends_run (chart : Chart) (search : Search) :
    ∃ n ≤ search.cost chart, Ends chart n search (search.run chart) := by
  induction hc : search.cost chart using Nat.strongRecOn generalizing search with
  | ind cost ih =>
    subst hc
    cases ht : search.turn chart with
    | ended answer =>
      rw [run_of_ended ht]
      exact ⟨0, Nat.zero_le _, .ended ht⟩
    | next later =>
      have hlt := cost_lt_of_turn ht
      obtain ⟨n, hn, hends⟩ := ih _ hlt later rfl
      rw [run_of_next ht]
      exact ⟨n + 1, by omega, .next ht hends⟩

/-- What a search from some roots may cost. -/
theorem cost_start (chart : Chart) (roots : List BackPointer) :
    (start roots).cost chart = 2 * roots.length +
      (chart.keys.flatMap fun key => key :: chart.backPointersOf key).length := by
  have hunmarked : ∀ key ∈ chart.keys,
      ((Catalog.empty : Catalog BackPointer Mark).get? key).isNone = true := fun key _ => by
    rw [Catalog.get?_eq_none_iff.2 List.not_mem_nil]
    rfl
  rw [cost, ahead, start, List.filter_eq_self.2 hunmarked]
  rfl

end Search

/-! ## Visits -/

/-- What a search has come by. -/
structure Provenance where
  /-- The keys whose records and all that lies behind them are done with. -/
  closed : Numbering BackPointer
  ingredients : Numbering Ingredient

namespace Provenance

def empty : Provenance :=
  ⟨.empty, .empty⟩

def close (found : Provenance) (key : BackPointer) : Provenance :=
  { found with closed := found.closed.insert key }

def collect (found : Provenance) (record : Record) : Provenance :=
  { found with ingredients := found.ingredients.insertAll record.ingredients.toList }

/-- Searches a key and all that lies behind it. The path holds the keys whose records are still
being searched, so it does not grow beyond the number of records, and the fuel need not either. The
error is the key at which a cycle was closed. -/
def visit (chart : Chart) :
    Nat → Numbering BackPointer → Provenance → BackPointer → Except BackPointer Provenance
  | 0, _, found, _ => .ok found
  | fuel + 1, path, found, key =>
    if found.closed.contains key then .ok found
    else if path.contains key then .error key
    else
      match chart.lookup? key with
      | none => .ok (found.close key)
      | some record => do
        let found ← record.backPointers.toList.foldlM (visit chart fuel (path.insert key))
          (found.collect record)
        return found.close key

variable {chart : Chart} {fuel : Nat} {path : Numbering BackPointer} {found : Provenance}
  {key : BackPointer}

theorem visit_of_closed (hc : found.closed.contains key = true) :
    visit chart (fuel + 1) path found key = .ok found := by
  rw [visit, if_pos hc]

theorem visit_of_path (hc : found.closed.contains key = false) (hp : path.contains key = true) :
    visit chart (fuel + 1) path found key = .error key := by
  simp [visit, hc, hp]

theorem visit_of_missing (hc : found.closed.contains key = false)
    (hp : path.contains key = false) (hl : chart.lookup? key = none) :
    visit chart (fuel + 1) path found key = .ok (found.close key) := by
  simp [visit, hc, hp, hl]

theorem visit_of_record (hc : found.closed.contains key = false) (hp : path.contains key = false)
    {record : Record} (hl : chart.lookup? key = some record) :
    visit chart (fuel + 1) path found key =
      (record.backPointers.toList.foldlM (visit chart fuel (path.insert key))
        (found.collect record)).map (·.close key) := by
  simp only [visit, hc, hp, hl, Bool.false_eq_true, if_false]
  cases record.backPointers.toList.foldlM (visit chart fuel (path.insert key))
    (found.collect record) <;> rfl

end Provenance

/-! ## The stack and the path -/

namespace Search

open Provenance (visit visit_of_closed visit_of_path visit_of_missing visit_of_record)

/-- The search has marked as closed what the recursion has closed, and as opened what else is on
its path. -/
structure Shows (search : Search) (path : Numbering BackPointer) (found : Provenance) : Prop where
  marks : ∀ key, search.marks.get? key =
    if found.closed.contains key then some .closed
    else if path.contains key then some .opened
    else none
  ingredients : search.ingredients = found.ingredients

variable {chart : Chart} {search later : Search} {stack : List (BackPointer × Bool)}
  {path : Numbering BackPointer} {found : Provenance} {key : BackPointer}

namespace Shows

theorem start (roots : List BackPointer) : (start roots).Shows .empty .empty where
  marks _ := Catalog.get?_eq_none_iff.2 List.not_mem_nil
  ingredients := rfl

theorem of_stack (h : search.Shows path found) :
    Shows { search with stack } path found :=
  ⟨h.marks, h.ingredients⟩

/-- The key is closed, and whether it was on the path before does not matter any more. -/
theorem close {before : Numbering BackPointer} (h : search.Shows before found)
    (hpath : ∀ k, key ≠ k → before.contains k = path.contains k) :
    (search.mark key .closed).Shows path (found.close key) where
  marks k := by
    rw [Search.mark, Catalog.get?_alter, h.marks, Provenance.close, Numbering.contains_insert]
    by_cases hk : key = k
    · simp [hk]
    · simp [hk, hpath k hk]
  ingredients := h.ingredients

theorem expand (h : search.Shows path found) (hc : found.closed.contains key = false)
    (record : Record) :
    (search.expand key record).Shows (path.insert key) (found.collect record) where
  marks k := by
    rw [Search.expand, Search.mark, Catalog.get?_alter, h.marks, Provenance.collect,
      Numbering.contains_insert]
    by_cases hk : key = k
    · subst hk
      simp [hc]
    · simp [hk]
  ingredients := congrArg (·.insertAll record.ingredients.toList) h.ingredients

end Shows

/-- The turns of the search come to what a recursion gave, with so much of the stack left. -/
def Meets (chart : Chart) (search : Search) (stack : List (BackPointer × Bool))
    (path : Numbering BackPointer) : Except BackPointer Provenance → Prop
  | .error key => search.run chart = .error key
  | .ok found => ∃ later : Search, later.roots = search.roots ∧ later.stack = stack ∧
    later.Shows path found ∧ search.run chart = later.run chart

theorem Meets.of_next {result : Except BackPointer Provenance}
    (ht : search.turn chart = .next later) (hroots : later.roots = search.roots)
    (h : Meets chart later stack path result) : Meets chart search stack path result := by
  cases result with
  | error key => exact (run_of_next ht).trans h
  | ok found =>
    obtain ⟨latest, hr, hst, hshows, hrun⟩ := h
    exact ⟨latest, hr.trans hroots, hst, hshows, (run_of_next ht).trans hrun⟩

/-- A key is closed when the search comes back to it. -/
theorem Meets.close {result : Except BackPointer Provenance}
    (h : Meets chart search ((key, true) :: stack) (path.insert key) result) :
    Meets chart search stack path (result.map (·.close key)) := by
  cases result with
  | error k => exact h
  | ok found =>
    obtain ⟨later, hroots, hstack, hshows, hrun⟩ := h
    have hturn : later.turn chart = .next ({ later with stack }.mark key .closed) := by
      simp only [turn, hstack]
    refine ⟨{ later with stack }.mark key .closed, hroots, rfl, hshows.of_stack.close ?_,
      hrun.trans (run_of_next hturn)⟩
    intro k hk
    rw [Numbering.contains_insert, decide_eq_false hk, Bool.or_false]

namespace Shows

/-- Several keys on top of the stack are visited one after the other, if one is. -/
theorem meets_foldlM {visit : Provenance → BackPointer → Except BackPointer Provenance}
    {keys : List BackPointer} (h : search.Shows path found)
    (hstack : search.stack = keys.map (·, false) ++ stack)
    (hvisit : ∀ key ∈ keys, ∀ {search : Search} {found : Provenance}
      {stack : List (BackPointer × Bool)}, search.Shows path found →
      search.stack = (key, false) :: stack → Meets chart search stack path (visit found key)) :
    Meets chart search stack path (keys.foldlM visit found) := by
  induction keys generalizing search found with
  | nil => exact ⟨search, rfl, hstack, h, rfl⟩
  | cons key keys ih =>
    have hfirst := hvisit key List.mem_cons_self h hstack
    rw [List.foldlM_cons]
    cases hv : visit found key with
    | error k =>
      rw [hv] at hfirst
      exact hfirst
    | ok between =>
      rw [hv] at hfirst
      obtain ⟨later, hroots, hst, hshows, hrun⟩ := hfirst
      have hrest := ih hshows hst fun k hk => hvisit k (List.mem_cons_of_mem _ hk)
      change Meets chart search stack path (keys.foldlM visit between)
      cases hf : keys.foldlM visit between with
      | error k =>
        rw [hf] at hrest
        exact hrun.trans hrest
      | ok latest =>
        rw [hf] at hrest
        obtain ⟨last, hr, hs, hl, hrun'⟩ := hrest
        exact ⟨last, hr.trans hroots, hs, hl, hrun.trans hrun'⟩

/-- The turns that begin with a key on top of the stack do what a visit of the key does. -/
theorem meets_visit (hsized : chart.Sized) {fuel : Nat} (hfuel : chart.size < fuel + path.size)
    (hpath : ∀ k ∈ path.toList, chart.Holds k) (h : search.Shows path found)
    (hstack : search.stack = (key, false) :: stack) :
    Meets chart search stack path (visit chart fuel path found key) := by
  induction fuel generalizing path found key search stack with
  | zero =>
    -- the keys of the path are different ones that are held, so the fuel outlasts them
    have hle := hsized.length_le path.nodup_toList hpath
    rw [Numbering.length_toList] at hle
    omega
  | succ fuel ih =>
    have hmark := h.marks key
    cases hc : found.closed.contains key with
    | true =>
      rw [hc, if_pos rfl] at hmark
      have hturn : search.turn chart = .next { search with stack } := by
        simp only [turn, hstack, hmark]
      rw [visit_of_closed hc]
      exact ⟨{ search with stack }, rfl, rfl, h.of_stack, run_of_next hturn⟩
    | false =>
      rw [hc, if_neg Bool.false_ne_true] at hmark
      cases hp : path.contains key with
      | true =>
        rw [hp, if_pos rfl] at hmark
        rw [visit_of_path hc hp]
        exact run_of_ended (by simp only [turn, hstack, hmark])
      | false =>
        rw [hp, if_neg Bool.false_ne_true] at hmark
        cases hl : chart.lookup? key with
        | none =>
          have hturn : search.turn chart = .next ({ search with stack }.mark key .closed) := by
            simp only [turn, hstack, hmark, hl]
          rw [visit_of_missing hc hp hl]
          exact ⟨{ search with stack }.mark key .closed, rfl, rfl,
            h.of_stack.close fun _ _ => rfl, run_of_next hturn⟩
        | some record =>
          have hturn : search.turn chart = .next ({ search with stack }.expand key record) := by
            simp only [turn, hstack, hmark, hl]
          have hnew : key ∉ path.toList := by
            rw [← Numbering.contains_iff_mem, hp]
            exact Bool.false_ne_true
          have hheld : ∀ k ∈ (path.insert key).toList, chart.Holds k := fun k hk => by
            rcases Numbering.mem_insert.1 hk with hk | rfl
            · exact hpath k hk
            · exact ⟨record, hl⟩
          have hlonger : chart.size < fuel + (path.insert key).size := by
            rw [Numbering.size_insert_of_not_mem hnew]
            omega
          rw [visit_of_record hc hp hl]
          refine Meets.of_next hturn rfl (Meets.close ?_)
          exact (h.of_stack.expand hc record).meets_foldlM rfl fun source _ => ih hlonger hheld

/-- The roots are visited one after the other, under the marks that are there already. -/
theorem run_eq (hsized : chart.Sized) {fuel : Nat} (hfuel : chart.size < fuel)
    (h : search.Shows .empty found) (hstack : search.stack = []) : search.run chart =
      (search.roots.foldlM (visit chart fuel .empty) found).map (·.ingredients) := by
  induction hroots : search.roots generalizing search found with
  | nil =>
    have hturn : search.turn chart = .ended (.ok search.ingredients) := by
      simp only [turn, hstack, hroots]
    rw [run_of_ended hturn, h.ingredients]
    rfl
  | cons root roots ih =>
    have hturn : search.turn chart = .next { search with roots, stack := [(root, false)] } := by
      simp only [turn, hstack, hroots]
    have hmeets : Meets chart { search with roots, stack := [(root, false)] } [] .empty
        (visit chart fuel .empty found root) :=
      meets_visit hsized hfuel (fun _ hk => nomatch hk) ⟨h.marks, h.ingredients⟩ rfl
    rw [run_of_next hturn, List.foldlM_cons]
    cases hv : visit chart fuel .empty found root with
    | error key =>
      rw [hv] at hmeets
      exact hmeets
    | ok between =>
      rw [hv] at hmeets
      obtain ⟨later, hr, hst, hshows, hrun⟩ := hmeets
      rw [hrun]
      exact ih hshows hst hr

end Shows

end Search

namespace Chart

/-- A search of some roots finds what visits of the roots find, one after the other, with any fuel
that is more than the size of the chart. -/
theorem provenance_eq {chart : Chart} (hsized : chart.Sized) {fuel : Nat}
    (hfuel : chart.size < fuel) (roots : List BackPointer) :
    chart.provenance roots =
      (roots.foldlM (Provenance.visit chart fuel .empty) .empty).map (·.ingredients) :=
  Search.Shows.run_eq hsized hfuel (.start roots) rfl

end Chart

end GuidedChart
