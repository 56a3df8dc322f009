import GuidedChart.Proofs.Backtracking
import GuidedChart.Proofs.Chart.Trims
import Mathlib.Logic.Relation

/-!
# What provenance finds

The search for a provenance ends, and it finds the union of the ingredients of all records behind
the roots, just when back-pointers do not lead around in a circle there (`Chart.provenance_exact`).
The invariant of the search (`Provenance.Explored`) says that a key is closed after all that its
back-pointers lead to (`Chart.SourcesFirst`), and that its ingredients are come by then. So nothing
that is closed lies on a circle, and none is missed that leads through a closed key. It is shown of
the visits that the search amounts to; their fuel is enough because the path holds different records
only.
-/

namespace GuidedChart

open Relation (ReflTransGen TransGen)

namespace Chart

/-- The second key is a back-pointer of the record of the first. -/
def Back (chart : Chart) (key source : BackPointer) : Prop :=
  source ∈ chart.backPointersOf key

/-- The key is a root or lies behind one. -/
def Behind (chart : Chart) (roots : List BackPointer) (key : BackPointer) : Prop :=
  ∃ root ∈ roots, ReflTransGen chart.Back root key

theorem Behind.back {chart : Chart} {roots : List BackPointer} {key source : BackPointer}
    (h : chart.Behind roots key) (hs : chart.Back key source) : chart.Behind roots source := by
  obtain ⟨root, hr, hk⟩ := h
  exact ⟨root, hr, hk.tail hs⟩

theorem holds_of_back {chart : Chart} {key source : BackPointer} (h : chart.Back key source) :
    chart.Holds key := by
  cases hl : chart.lookup? key with
  | none => simp [Back, backPointersOf, hl] at h
  | some record => exact ⟨record, hl⟩

theorem holds_of_transGen {chart : Chart} {key source : BackPointer}
    (h : TransGen chart.Back key source) : chart.Holds key := by
  obtain ⟨next, hb, -⟩ := TransGen.head'_iff.1 h
  exact holds_of_back hb

/-- In the list, each key comes after everything its back-pointers lead to. -/
inductive SourcesFirst (chart : Chart) : List BackPointer → Prop
  | nil : SourcesFirst chart []
  | concat {keys : List BackPointer} {key : BackPointer} : SourcesFirst chart keys →
    (∀ source, chart.Back key source → source ∈ keys) → SourcesFirst chart (keys ++ [key])

namespace SourcesFirst

variable {chart : Chart} {keys : List BackPointer} {key source : BackPointer}

theorem mem_of_back (h : chart.SourcesFirst keys) (hk : key ∈ keys) (hb : chart.Back key source) :
    source ∈ keys := by
  induction h with
  | nil => cases hk
  | concat _ hs ih =>
    refine List.mem_append_left _ ?_
    rcases List.mem_append.1 hk with hk | hk
    · exact ih hk
    · rw [List.mem_singleton.1 hk] at hb
      exact hs source hb

theorem mem_of_reflTransGen (h : chart.SourcesFirst keys) (hk : key ∈ keys)
    (hb : ReflTransGen chart.Back key source) : source ∈ keys := by
  induction hb with
  | refl => exact hk
  | tail _ hb ih => exact h.mem_of_back ih hb

/-- No key of such a list lies behind itself: what lies behind it comes before it. -/
theorem not_transGen (h : chart.SourcesFirst keys) (hn : keys.Nodup) (hk : key ∈ keys) :
    ¬ TransGen chart.Back key key := by
  induction h with
  | nil => cases hk
  | concat hkeys hs ih =>
    obtain ⟨hn', -, hnew⟩ := List.nodup_append.1 hn
    rcases List.mem_append.1 hk with hk | hk
    · exact ih hn' hk
    · rw [List.mem_singleton] at hk
      subst hk
      intro hcircle
      obtain ⟨source, hb, hback⟩ := TransGen.head'_iff.1 hcircle
      have hearlier := hkeys.mem_of_reflTransGen (hs source hb) hback
      exact hnew key hearlier key (List.mem_singleton_self key) rfl

end SourcesFirst

end Chart

namespace Provenance

variable {chart : Chart} {roots : List BackPointer}

/-- What is true of a search that is on the way. -/
structure Explored (chart : Chart) (roots : List BackPointer) (found : Provenance) : Prop where
  sourcesFirst : chart.SourcesFirst found.closed.toList
  complete : ∀ key ∈ found.closed.toList, ∀ i ∈ chart.ingredientsOf key,
    i ∈ found.ingredients.toList
  sound : ∀ i ∈ found.ingredients.toList,
    ∃ key, chart.Behind roots key ∧ i ∈ chart.ingredientsOf key

structure Within (found later : Provenance) : Prop where
  closed : found.closed.toList ⊆ later.closed.toList
  ingredients : found.ingredients.toList ⊆ later.ingredients.toList

theorem Within.refl (found : Provenance) : found.Within found :=
  ⟨fun _ h => h, fun _ h => h⟩

theorem Within.trans {found later latest : Provenance} (h : found.Within later)
    (k : later.Within latest) : found.Within latest :=
  ⟨fun _ hc => k.closed (h.closed hc), fun _ hi => k.ingredients (h.ingredients hi)⟩

theorem explored_empty : Explored chart roots .empty :=
  ⟨.nil, nofun, nofun⟩

theorem within_close (found : Provenance) (key : BackPointer) : found.Within (found.close key) :=
  ⟨fun _ h => Numbering.mem_insert.2 (Or.inl h), fun _ h => h⟩

theorem within_collect (found : Provenance) (record : Record) :
    found.Within (found.collect record) :=
  ⟨fun _ h => h, fun _ h => Numbering.mem_insertAll.2 (Or.inl h)⟩

namespace Explored

variable {found : Provenance}

/-- A key is closed when all that it leads to is closed and its ingredients are come by. -/
theorem close (h : Explored chart roots found) {key : BackPointer}
    (hs : ∀ source, chart.Back key source → source ∈ found.closed.toList)
    (hi : ∀ i ∈ chart.ingredientsOf key, i ∈ found.ingredients.toList) :
    Explored chart roots (found.close key) := by
  refine ⟨?_, fun k hk i hm => ?_, h.sound⟩
  · by_cases hclosed : key ∈ found.closed.toList
    · rw [Provenance.close, Numbering.insert_of_mem hclosed]
      exact h.sourcesFirst
    · rw [Provenance.close, Numbering.toList_insert_of_not_mem hclosed]
      exact h.sourcesFirst.concat hs
  · rcases Numbering.mem_insert.1 hk with hk | rfl
    · exact h.complete k hk i hm
    · exact hi i hm

theorem collect (h : Explored chart roots found) {key : BackPointer} (hb : chart.Behind roots key)
    {record : Record} (hr : chart.lookup? key = some record) :
    Explored chart roots (found.collect record) := by
  refine ⟨h.sourcesFirst, fun k hk i hm => ?_, fun i hm => ?_⟩
  · exact (within_collect found record).ingredients (h.complete k hk i hm)
  · rcases Numbering.mem_insertAll.1 hm with hm | hm
    · exact h.sound i hm
    · exact ⟨key, hb, by rwa [Chart.ingredientsOf_of_lookup? hr]⟩

end Explored

/-! ## The search -/

/-- What a search from some keys comes to: either all of them are closed, or a circle was found that
lies behind a root. -/
def Comes (chart : Chart) (roots : List BackPointer) (found : Provenance)
    (keys : List BackPointer) (result : Except BackPointer Provenance) : Prop :=
  match result with
  | .ok later => Explored chart roots later ∧ found.Within later ∧ keys ⊆ later.closed.toList
  | .error key => chart.Behind roots key ∧ TransGen chart.Back key key

theorem comes_foldlM (search : Provenance → BackPointer → Except BackPointer Provenance)
    (keys : List BackPointer)
    (hs : ∀ key ∈ keys, ∀ found, Explored chart roots found →
      Comes chart roots found [key] (search found key))
    {found : Provenance} (h : Explored chart roots found) :
    Comes chart roots found keys (keys.foldlM search found) := by
  induction keys generalizing found with
  | nil => exact ⟨h, .refl found, fun _ hk => nomatch hk⟩
  | cons key keys ih =>
    have hfirst := hs key List.mem_cons_self found h
    rw [List.foldlM_cons]
    cases hr : search found key with
    | error k =>
      rw [hr] at hfirst
      exact hfirst
    | ok later =>
      rw [hr] at hfirst
      obtain ⟨hexp, hwithin, hkey⟩ := hfirst
      have hrest := ih (fun k hk => hs k (List.mem_cons_of_mem _ hk)) hexp
      change Comes chart roots found (key :: keys) (keys.foldlM search later)
      cases hf : keys.foldlM search later with
      | error k =>
        rw [hf] at hrest
        exact hrest
      | ok latest =>
        rw [hf] at hrest
        obtain ⟨hexp', hwithin', hkeys⟩ := hrest
        refine ⟨hexp', hwithin.trans hwithin', List.cons_subset.2 ⟨?_, hkeys⟩⟩
        exact hwithin'.closed (hkey (List.mem_singleton_self key))

/-- Where there is no record, nothing is left to be searched. -/
theorem comes_close {found : Provenance} {key : BackPointer} (h : Explored chart roots found)
    (hl : chart.lookup? key = none) : Comes chart roots found [key] (.ok (found.close key)) := by
  refine ⟨h.close (fun source hb => ?_) fun i hi => ?_, within_close found key, fun k hk => ?_⟩
  · simp [Chart.Back, Chart.backPointersOf, hl] at hb
  · simp [Chart.ingredientsOf, hl] at hi
  · exact Numbering.mem_insert.2 (Or.inr (List.mem_singleton.1 hk))

/-- A record is left when all its back-pointers have been searched. -/
theorem Comes.close {found : Provenance} {key : BackPointer} {record : Record}
    (hl : chart.lookup? key = some record) {result : Except BackPointer Provenance}
    (h : Comes chart roots (found.collect record) record.backPointers.toList result) :
    Comes chart roots found [key] (result.map (·.close key)) := by
  cases result with
  | error k => exact h
  | ok later =>
    obtain ⟨hexp, hwithin, hall⟩ := h
    refine ⟨hexp.close (fun source hb => ?_) fun i hi => ?_, ?_, fun k hk => ?_⟩
    · rw [Chart.Back, Chart.backPointersOf_of_lookup? hl] at hb
      exact hall hb
    · rw [Chart.ingredientsOf_of_lookup? hl] at hi
      exact hwithin.ingredients (Numbering.mem_insertAll.2 (Or.inr hi))
    · exact ((within_collect found record).trans hwithin).trans (within_close later key)
    · exact Numbering.mem_insert.2 (Or.inr (List.mem_singleton.1 hk))

/-- Are the keys of the path those of records that lead to the key? -/
def LeadsTo (chart : Chart) (path : Numbering BackPointer) (key : BackPointer) : Prop :=
  ∀ k ∈ path.toList, chart.Holds k ∧ TransGen chart.Back k key

theorem LeadsTo.insert {path : Numbering BackPointer} {key source : BackPointer}
    (h : LeadsTo chart path key) (hb : chart.Back key source) (hk : chart.Holds key) :
    LeadsTo chart (path.insert key) source := by
  intro k hm
  rcases Numbering.mem_insert.1 hm with hm | rfl
  · obtain ⟨hheld, hback⟩ := h k hm
    exact ⟨hheld, hback.tail hb⟩
  · exact ⟨hk, .single hb⟩

theorem comes_visit (hsized : chart.Sized) (fuel : Nat) {path : Numbering BackPointer}
    {found : Provenance} {key : BackPointer} (hfuel : chart.size < fuel + path.size)
    (hpath : LeadsTo chart path key) (hkey : chart.Behind roots key)
    (h : Explored chart roots found) :
    Comes chart roots found [key] (visit chart fuel path found key) := by
  induction fuel generalizing path found key with
  | zero =>
    -- the keys of the path are different ones that are held, so the fuel outlasts them
    have hle := hsized.length_le path.nodup_toList fun k hk => (hpath k hk).1
    rw [Numbering.length_toList] at hle
    omega
  | succ fuel ih =>
    unfold visit
    split
    · rename_i hc
      rw [Numbering.contains_iff_mem] at hc
      exact ⟨h, .refl found, fun _ hk => List.mem_singleton.1 hk ▸ hc⟩
    · split
      · rename_i hp
        rw [Numbering.contains_iff_mem] at hp
        -- a key of the path leads to the current one, and here it is the current one
        exact ⟨hkey, (hpath key hp).2⟩
      · rename_i hp
        rw [Numbering.contains_iff_mem] at hp
        split
        · rename_i hl
          exact comes_close h hl
        · rename_i record hl
          refine Comes.close hl (comes_foldlM _ _ ?_ (h.collect hkey hl))
          intro source hs found' h'
          have hback : chart.Back key source := by
            rwa [Chart.Back, Chart.backPointersOf_of_lookup? hl]
          refine ih ?_ (hpath.insert hback ⟨record, hl⟩) (hkey.back hback) h'
          rw [Numbering.size_insert_of_not_mem hp]
          omega

end Provenance

namespace Chart

/-- The search from some roots finds the ingredients of all that lies behind them, which is on no
circle then, or else a key behind them that is. -/
theorem provenance_spec {chart : Chart} (hsized : chart.Sized) (roots : List BackPointer) :
    match chart.provenance roots with
    | .ok allowed => (∀ key, chart.Behind roots key → ¬ TransGen chart.Back key key) ∧
      ∀ i, i ∈ allowed.toList ↔ ∃ key, chart.Behind roots key ∧ i ∈ chart.ingredientsOf key
    | .error key => chart.Behind roots key ∧ TransGen chart.Back key key := by
  have hroots := Provenance.comes_foldlM (Provenance.visit chart (chart.size + 1) .empty) roots
    (fun key hk found h => Provenance.comes_visit hsized _ (Nat.lt_succ_self _)
      (fun _ hm => nomatch hm) ⟨key, hk, .refl⟩ h) Provenance.explored_empty
  rw [provenance_eq hsized (Nat.lt_succ_self _)]
  cases hf : roots.foldlM (Provenance.visit chart (chart.size + 1) .empty) Provenance.empty with
  | error key =>
    rw [hf] at hroots
    exact hroots
  | ok found =>
    rw [hf] at hroots
    obtain ⟨hexp, -, hall⟩ := hroots
    have hclosed : ∀ key, chart.Behind roots key → key ∈ found.closed.toList := by
      rintro key ⟨root, hr, hk⟩
      exact hexp.sourcesFirst.mem_of_reflTransGen (hall hr) hk
    refine ⟨fun key hk => ?_, fun i => ⟨hexp.sound i, ?_⟩⟩
    · exact hexp.sourcesFirst.not_transGen found.closed.nodup_toList (hclosed key hk)
    · rintro ⟨key, hk, hi⟩
      exact hexp.complete key (hclosed key hk) i hi

/-- Where no record lies behind itself, all roots have a provenance. -/
theorem exists_provenance {chart : Chart} (hsized : chart.Sized)
    (hacyclic : ∀ key, ¬ TransGen chart.Back key key) (roots : List BackPointer) :
    ∃ allowed, chart.provenance roots = .ok allowed ∧
      ∀ i, i ∈ allowed.toList ↔ ∃ key, chart.Behind roots key ∧ i ∈ chart.ingredientsOf key := by
  have hspec := provenance_spec hsized roots
  cases hp : chart.provenance roots with
  | error key =>
    rw [hp] at hspec
    exact absurd hspec.2 (hacyclic key)
  | ok allowed =>
    rw [hp] at hspec
    exact ⟨allowed, rfl, hspec.2⟩

theorem mem_ingredientsOf {chart : Chart} {key : BackPointer} {i : Ingredient} :
    i ∈ chart.ingredientsOf key ↔
      ∃ record, chart.lookup? key = some record ∧ i ∈ record.ingredients.toList := by
  cases hl : chart.lookup? key with
  | none => simp [ingredientsOf, hl]
  | some record => simp [ingredientsOf, hl]

/-- Whatever was done to a chart, and whatever its back-pointers are, the search from some roots
ends, after no more turns than two for each root, one for each record and one for each back-pointer.
The roots have a provenance just when no record behind them lies behind itself; it is the union of
the ingredients of the records behind them, hidden or not. Otherwise the search fails at a record
that lies behind itself. -/
theorem provenance_exact {chart : Chart} (h : chart.Made) (roots : List BackPointer) :
    (∃ n ≤ 2 * roots.length +
        (chart.keys.flatMap fun key => key :: chart.backPointersOf key).length,
      Search.Ends chart n (.start roots) (chart.provenance roots)) ∧
    ((∃ allowed, chart.provenance roots = .ok allowed) ↔
      ∀ key, chart.Behind roots key → ¬ TransGen chart.Back key key) ∧
    (∀ allowed, chart.provenance roots = .ok allowed →
      ∀ i, i ∈ allowed.toList ↔ ∃ key record, chart.Behind roots key ∧
        chart.lookup? key = some record ∧ i ∈ record.ingredients.toList) ∧
    ∀ e, (chart.provenance roots).mapError Error.ofCycle = .error e →
      ∃ key, e = .provenanceCycle key.cell key.meaning ∧ chart.Holds key ∧
        chart.Behind roots key ∧ TransGen chart.Back key key := by
  have hends := Search.ends_run chart (.start roots)
  rw [Search.cost_start] at hends
  refine ⟨hends, ?_⟩
  have hspec := provenance_spec h.sized roots
  cases hp : chart.provenance roots with
  | error key =>
    rw [hp] at hspec
    obtain ⟨hbehind, hcircle⟩ := hspec
    refine ⟨⟨?_, fun hno => absurd hcircle (hno key hbehind)⟩, nofun, fun e he => ?_⟩
    · rintro ⟨_, hok⟩
      cases hok
    · cases he
      exact ⟨key, rfl, holds_of_transGen hcircle, hbehind, hcircle⟩
  | ok allowed =>
    rw [hp] at hspec
    obtain ⟨hacyclic, hmem⟩ := hspec
    refine ⟨⟨fun _ => hacyclic, fun _ => ⟨allowed, rfl⟩⟩, fun _ hok i => ?_, nofun⟩
    cases hok
    rw [hmem]
    exact exists_congr fun key => by rw [mem_ingredientsOf, exists_and_left]

/-! ### An example -/

/-- The record of a category at depth one. -/
def knotKey (category : CategoryId) : BackPointer :=
  ⟨.floating category 1, 0⟩

def knotFinding (category : CategoryId) (sources : List CategoryId) : Finding where
  key := knotKey category
  derivation := .ofFormula ⟨category, ⟨"$Knot", category⟩, [], true, .identity⟩
    (knotKey category).cell.span [] (.value (.list []))
  ingredient := ⟨(knotKey category).cell, category, none, none⟩
  sources := sources.map knotKey
  sourcesSingle := true

/-- Of three records, the first has a back-pointer that leads nowhere, and the two others were built
from it and from each other. One of them is hidden, one has lost its derivation. -/
def knot : Chart :=
  ((((Chart.empty.add .all (knotFinding 0 [3])).add .all (knotFinding 1 [0, 2])).add .all
    (knotFinding 2 [0, 1])).truncate (knotKey 1).cell 0).keepBest (knotKey 2).cell 0

theorem made_knot : knot.Made :=
  ((((Made.empty.add .all (knotFinding 0 [3])).add .all (knotFinding 1 [0, 2])).add .all
    (knotFinding 2 [0, 1])).truncate (knotKey 1).cell 0).keepBest (knotKey 2).cell 0

/-- The first record has a provenance, asked for twice and along with one that is missing; the
search from the second one ends at a record of the circle. -/
theorem provenance_exact_knot :
    (∀ key, knot.Behind [knotKey 0, knotKey 3, knotKey 0] key → ¬ TransGen knot.Back key key) ∧
    (∃ n ≤ 10, Search.Ends knot n (.start [knotKey 1]) (knot.provenance [knotKey 1])) ∧
    ∃ key, knot.Holds key ∧ knot.Behind [knotKey 1] key ∧ TransGen knot.Back key key := by
  have hok : ((knot.provenance [knotKey 0, knotKey 3, knotKey 0]).map Numbering.size).toOption =
      some 1 := by decide +kernel
  have herror : (knot.provenance [knotKey 1]).toOption.isNone = true := by decide +kernel
  refine ⟨(provenance_exact made_knot _).2.1.1 ?_, ?_, ?_⟩
  · cases hp : knot.provenance [knotKey 0, knotKey 3, knotKey 0] with
    | error key =>
      rw [hp] at hok
      cases hok
    | ok allowed => exact ⟨allowed, rfl⟩
  · obtain ⟨n, hn, hends⟩ := (provenance_exact made_knot [knotKey 1]).1
    exact ⟨n, hn.trans (by decide +kernel), hends⟩
  · have hfails := (provenance_exact made_knot [knotKey 1]).2.2.2
    cases hp : knot.provenance [knotKey 1] with
    | error key =>
      rw [hp] at hfails
      obtain ⟨key, -, hkey⟩ := hfails _ rfl
      exact ⟨key, hkey⟩
    | ok allowed =>
      rw [hp] at herror
      cases herror

end Chart

end GuidedChart
