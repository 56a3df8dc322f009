import GuidedChart.Proofs.Provenance

/-!
# Searches in any order

The search for the provenance of some roots takes up the ingredients of a record, and searches what
its back-pointers lead to, in whatever order the record's tables hand them out. Any order is allowed
for here, for every record anew (`Chart.MaySearch`).

The invariant of the search does not know of an order, so it carries over: every search that comes
to an end finds the ingredients of all that lies behind the roots, or a circle there
(`Chart.MaySearch.comes`). The search of `Chart.provenance` is one of them
(`Chart.exists_maySearch_provenance`).
-/

namespace GuidedChart

open Relation (ReflTransGen TransGen)

namespace Provenance

/-- What a search has come by, with some ingredients more. -/
def collectAll (found : Provenance) (ingredients : List Ingredient) : Provenance :=
  { found with ingredients := found.ingredients.insertAll ingredients }

end Provenance

namespace Chart

/-- What a search of some keys, one after the other, may come to. The path holds the keys whose
records are still being searched. The tables of a record are gone through in any order. -/
inductive MaySearch (chart : Chart) : Numbering BackPointer → Provenance → List BackPointer →
    Except BackPointer Provenance → Prop
  | done (path : Numbering BackPointer) (found : Provenance) :
    MaySearch chart path found [] (.ok found)
  | closed {path : Numbering BackPointer} {found : Provenance} {key : BackPointer}
    {keys : List BackPointer} {result : Except BackPointer Provenance} :
    found.closed.contains key = true → MaySearch chart path found keys result →
    MaySearch chart path found (key :: keys) result
  | circle {path : Numbering BackPointer} {found : Provenance} {key : BackPointer}
    (keys : List BackPointer) :
    found.closed.contains key = false → path.contains key = true →
    MaySearch chart path found (key :: keys) (.error key)
  | missing {path : Numbering BackPointer} {found : Provenance} {key : BackPointer}
    {keys : List BackPointer} {result : Except BackPointer Provenance} :
    found.closed.contains key = false → path.contains key = false → chart.lookup? key = none →
    MaySearch chart path (found.close key) keys result →
    MaySearch chart path found (key :: keys) result
  | stuck {path : Numbering BackPointer} {found : Provenance} {key : BackPointer}
    {record : Record} {ingredients : List Ingredient} {sources : List BackPointer}
    {e : BackPointer} (keys : List BackPointer) :
    found.closed.contains key = false → path.contains key = false →
    chart.lookup? key = some record → ingredients.Perm record.ingredients.toList →
    sources.Perm record.backPointers.toList →
    MaySearch chart (path.insert key) (found.collectAll ingredients) sources (.error e) →
    MaySearch chart path found (key :: keys) (.error e)
  | record {path : Numbering BackPointer} {found later : Provenance} {key : BackPointer}
    {record : Record} {ingredients : List Ingredient} {sources : List BackPointer}
    {keys : List BackPointer} {result : Except BackPointer Provenance} :
    found.closed.contains key = false → path.contains key = false →
    chart.lookup? key = some record → ingredients.Perm record.ingredients.toList →
    sources.Perm record.backPointers.toList →
    MaySearch chart (path.insert key) (found.collectAll ingredients) sources (.ok later) →
    MaySearch chart path (later.close key) keys result →
    MaySearch chart path found (key :: keys) result

end Chart

namespace Provenance

variable {chart : Chart} {roots : List BackPointer}

/-- The ingredients of a record may be collected in any order. -/
theorem Explored.collectAll {found : Provenance} (h : Explored chart roots found)
    {key : BackPointer} (hb : chart.Behind roots key) {record : Record}
    (hr : chart.lookup? key = some record) {ingredients : List Ingredient}
    (hp : ingredients.Perm record.ingredients.toList) :
    Explored chart roots (found.collectAll ingredients) where
  sourcesFirst := h.sourcesFirst
  complete k hk i hi := Numbering.mem_insertAll.2 (Or.inl (h.complete k hk i hi))
  sound i hi := by
    rcases Numbering.mem_insertAll.1 hi with hi | hi
    · exact h.sound i hi
    · exact ⟨key, hb, by rw [Chart.ingredientsOf_of_lookup? hr]; exact hp.subset hi⟩

/-- Neither the order of the ingredients nor that of the back-pointers matters to what a search
comes to. -/
theorem Comes.of_perm {found : Provenance} {record : Record} {ingredients : List Ingredient}
    {sources : List BackPointer} {result : Except BackPointer Provenance}
    (h : Comes chart roots (found.collectAll ingredients) sources result)
    (hi : ingredients.Perm record.ingredients.toList)
    (hs : sources.Perm record.backPointers.toList) :
    Comes chart roots (found.collect record) record.backPointers.toList result := by
  cases result with
  | error e => exact h
  | ok later =>
    obtain ⟨hexp, hwithin, hall⟩ := h
    refine ⟨hexp, ⟨hwithin.closed, fun i hm => hwithin.ingredients ?_⟩, fun k hk =>
      hall (hs.symm.subset hk)⟩
    exact Numbering.mem_insertAll.2 ((Numbering.mem_insertAll.1 hm).imp_right (hi.symm.subset ·))

theorem Comes.cons {found between : Provenance} {key : BackPointer} {keys : List BackPointer}
    {result : Except BackPointer Provenance} (h : Comes chart roots found [key] (.ok between))
    (hr : Comes chart roots between keys result) :
    Comes chart roots found (key :: keys) result := by
  cases result with
  | error e => exact hr
  | ok later =>
    obtain ⟨-, hwithin, hkey⟩ := h
    obtain ⟨hexp, hwithin', hkeys⟩ := hr
    exact ⟨hexp, hwithin.trans hwithin', List.cons_subset.2
      ⟨hwithin'.closed (hkey (List.mem_singleton_self key)), hkeys⟩⟩

end Provenance

namespace Chart

open Provenance (Comes Explored LeadsTo visit_of_closed visit_of_path visit_of_missing
  visit_of_record)

variable {chart : Chart} {roots : List BackPointer}

/-- Whatever the order, a search finds what it should, or a circle. -/
theorem MaySearch.comes {path : Numbering BackPointer} {found : Provenance}
    {keys : List BackPointer} {result : Except BackPointer Provenance}
    (hs : chart.MaySearch path found keys result)
    (hpath : ∀ key ∈ keys, LeadsTo chart path key) (hkeys : ∀ key ∈ keys, chart.Behind roots key)
    (h : Explored chart roots found) : Comes chart roots found keys result := by
  -- what lies behind a key that is searched, under a path that leads there
  have hback : ∀ {path : Numbering BackPointer} {key : BackPointer} {record : Record}
      {sources : List BackPointer}, chart.lookup? key = some record →
      sources.Perm record.backPointers.toList → LeadsTo chart path key → chart.Behind roots key →
      (∀ k ∈ sources, LeadsTo chart (path.insert key) k) ∧ ∀ k ∈ sources, chart.Behind roots k := by
    intro path key record sources hl hp hpath hkey
    have hb : ∀ k ∈ sources, chart.Back key k := fun k hk => by
      rw [Back, backPointersOf_of_lookup? hl]
      exact hp.subset hk
    exact ⟨fun k hk => hpath.insert (hb k hk) ⟨record, hl⟩, fun k hk => hkey.back (hb k hk)⟩
  induction hs with
  | done path found => exact ⟨h, .refl found, List.nil_subset _⟩
  | @closed path found key keys result hc _ ih =>
    have hclosed : Comes chart roots found [key] (.ok found) :=
      ⟨h, .refl found, fun k hk => List.mem_singleton.1 hk ▸ Numbering.contains_iff_mem.1 hc⟩
    exact hclosed.cons (ih (List.forall_mem_cons.1 hpath).2 (List.forall_mem_cons.1 hkeys).2 h)
  | @circle path found key keys hc hp =>
    exact ⟨hkeys key List.mem_cons_self,
      (hpath key List.mem_cons_self key (Numbering.contains_iff_mem.1 hp)).2⟩
  | @missing path found key keys result hc hp hl _ ih =>
    have hmissing := Provenance.comes_close h hl
    exact hmissing.cons (ih (List.forall_mem_cons.1 hpath).2 (List.forall_mem_cons.1 hkeys).2
      hmissing.1)
  | @stuck path found key record ingredients sources e keys hc hp hl hi hb _ ih =>
    obtain ⟨hsources, hbehind⟩ :=
      hback hl hb (hpath key List.mem_cons_self) (hkeys key List.mem_cons_self)
    exact ih hsources hbehind (h.collectAll (hkeys key List.mem_cons_self) hl hi)
  | @record path found later key record ingredients sources keys result hc hp hl hi hb _ _ ih ih' =>
    obtain ⟨hsources, hbehind⟩ :=
      hback hl hb (hpath key List.mem_cons_self) (hkeys key List.mem_cons_self)
    have hinner := ih hsources hbehind (h.collectAll (hkeys key List.mem_cons_self) hl hi)
    have hkey : Comes chart roots found [key] (.ok (later.close key)) :=
      (hinner.of_perm hi hb).close hl
    exact hkey.cons (ih' (List.forall_mem_cons.1 hpath).2 (List.forall_mem_cons.1 hkeys).2 hkey.1)

/-- Where no record lies behind itself, every search finds the ingredients of all that lies behind
the roots. -/
theorem MaySearch.exists_eq_ok (hacyclic : ∀ key, ¬ TransGen chart.Back key key)
    {result : Except BackPointer Provenance}
    (hs : chart.MaySearch .empty .empty roots result) :
    ∃ found, result = .ok found ∧
      ∀ i, i ∈ found.ingredients.toList ↔
        ∃ key, chart.Behind roots key ∧ i ∈ chart.ingredientsOf key := by
  have hcomes : Comes chart roots .empty roots result :=
    hs.comes (fun _ _ _ hm => nomatch hm) (fun key hk => ⟨key, hk, .refl⟩)
      Provenance.explored_empty
  cases result with
  | error key => exact absurd hcomes.2 (hacyclic key)
  | ok found =>
    obtain ⟨hexp, -, hall⟩ := hcomes
    refine ⟨found, rfl, fun i => ⟨hexp.sound i, ?_⟩⟩
    rintro ⟨key, ⟨root, hr, hk⟩, hi⟩
    exact hexp.complete key (hexp.sourcesFirst.mem_of_reflTransGen (hall hr) hk) i hi

/-! ## One of the searches -/

section Visit

variable {fuel : Nat} {path : Numbering BackPointer} {found : Provenance} {key : BackPointer}

/-- A visit is a search of its key, if the search behind its record is one and the search goes on
with the other keys. -/
theorem maySearch_visit_bind {keys : List BackPointer}
    {rest : Provenance → Except BackPointer Provenance}
    (hinner : ∀ record, chart.lookup? key = some record → path.contains key = false →
      chart.MaySearch (path.insert key) (found.collect record) record.backPointers.toList
        (record.backPointers.toList.foldlM (Provenance.visit chart fuel (path.insert key))
          (found.collect record)))
    (hrest : ∀ later, chart.MaySearch path later keys (rest later)) :
    chart.MaySearch path found (key :: keys)
      (Provenance.visit chart (fuel + 1) path found key >>= rest) := by
  cases hc : found.closed.contains key with
  | true =>
    rw [visit_of_closed hc]
    exact .closed hc (hrest found)
  | false =>
    cases hp : path.contains key with
    | true =>
      rw [visit_of_path hc hp]
      exact .circle keys hc hp
    | false =>
      cases hl : chart.lookup? key with
      | none =>
        rw [visit_of_missing hc hp hl]
        exact .missing hc hp hl (hrest _)
      | some record =>
        have hsearch := hinner record hl hp
        rw [visit_of_record hc hp hl]
        generalize record.backPointers.toList.foldlM (Provenance.visit chart fuel
          (path.insert key)) (found.collect record) = result at hsearch ⊢
        cases result with
        | error e => exact .stuck keys hc hp hl (.refl _) (.refl _) hsearch
        | ok later => exact .record hc hp hl (.refl _) (.refl _) hsearch (hrest _)

end Visit

/-- With fuel for the records that are not on the path, the search that goes through the tables in
their own order is one of those allowed for. -/
theorem maySearch_visit (hsized : chart.Sized) (fuel : Nat) {path : Numbering BackPointer}
    {found : Provenance} {keys : List BackPointer} (hfuel : chart.size < fuel + path.size)
    (hpath : ∀ key ∈ keys, LeadsTo chart path key) :
    chart.MaySearch path found keys
      (keys.foldlM (Provenance.visit chart fuel path) found) := by
  induction fuel generalizing path found keys with
  | zero =>
    cases keys with
    | nil => exact .done path found
    | cons key keys =>
      have hle := hsized.length_le path.nodup_toList fun k hk =>
        (hpath key List.mem_cons_self k hk).1
      rw [Numbering.length_toList] at hle
      omega
  | succ fuel ih =>
    induction keys generalizing found with
    | nil => exact .done path found
    | cons key keys ihk =>
      rw [List.foldlM_cons]
      refine maySearch_visit_bind (fun record hl hp => ih ?_ fun k hk => ?_)
        fun later => ihk (List.forall_mem_cons.1 hpath).2
      · have hnew : key ∉ path.toList := by
          rw [← Numbering.contains_iff_mem, hp]
          exact Bool.false_ne_true
        rw [Numbering.size_insert_of_not_mem hnew]
        omega
      · exact (hpath key List.mem_cons_self).insert
          (by rwa [Back, backPointersOf_of_lookup? hl]) ⟨record, hl⟩

/-- The provenance of some roots is what one of the searches finds. -/
theorem exists_maySearch_provenance (hsized : chart.Sized) {allowed : Numbering Ingredient}
    (h : chart.provenance roots = .ok allowed) :
    ∃ found, chart.MaySearch .empty .empty roots (.ok found) ∧ found.ingredients = allowed := by
  have hsearch : chart.MaySearch .empty .empty roots
      (roots.foldlM (Provenance.visit chart (chart.size + 1) .empty) .empty) :=
    maySearch_visit hsized (chart.size + 1) (Nat.lt_succ_self _) fun _ _ _ hm => nomatch hm
  rw [provenance_eq hsized (Nat.lt_succ_self _)] at h
  cases hf : roots.foldlM (Provenance.visit chart (chart.size + 1) .empty) Provenance.empty with
  | error key =>
    rw [hf] at h
    cases h
  | ok found =>
    rw [hf] at h hsearch
    exact ⟨found, hsearch, Except.ok.inj h⟩

end Chart

end GuidedChart
