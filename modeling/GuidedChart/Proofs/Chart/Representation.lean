import GuidedChart.Proofs.Chart.Storage

/-!
# Representation

Whatever is done to a store that was empty, one action after the other, no action fails, and the
arena, the orders, the places and the count say the same in the end (`Store.represents_after`). The
arena has one record for each key that came up, in the order in which they came up; what a cell
shows of them is what is not hidden. As the store keeps a chart all the time
(`Store.exists_keeps_after`), all this can be read off the chart and off the list of findings that
the chart has collected.
-/

namespace GuidedChart

open Chart (Action Collects findings)

namespace Store

def act? (store : Store) : Action → Option (Store × Nat)
  | .add retention f => store.add? retention f
  | .truncate cell k => store.truncate? cell k
  | .keepBest cell k => store.keepBest? cell k

/-- The store after several actions, one after the other, if none of them fails. -/
def after? (store : Store) (actions : List Action) : Option Store :=
  actions.foldlM (fun store action => (store.act? action).map Prod.fst) store

/-- The store shows what was found, and its parts agree. -/
structure Represents (store : Store) (fs : List Finding) : Prop where
  /-- There is one record for every key that came up, and no other, in that order. -/
  keys : store.arena.toList.map (·.key) = Finding.keys fs
  nodup_keys : (store.arena.toList.map (·.key)).Nodup
  /-- The place of a key is where its record stands. -/
  place?_iff : ∀ key place, store.place? key = some place ↔ (Finding.keys fs)[place]? = some key
  /-- What is looked up under a key is the record of the key. -/
  lookup?_iff : ∀ key record, store.lookup? key = some record ↔
    record ∈ store.arena.toList ∧ record.key = key
  /-- The order of a cell has the meanings of its records that are not hidden, as they come in the
  arena. -/
  order : ∀ cell, store.orderOf cell =
    ((store.arena.toList.filter (·.key.cell = cell)).filter (!·.hidden)).map (·.key.meaning)
  nodup_order : ∀ cell, (store.orderOf cell).Nodup
  /-- These records are what is read of the cell. -/
  entries? : ∀ cell, store.entries? cell =
    some ((store.arena.toList.filter (·.key.cell = cell)).filter (!·.hidden))
  /-- The count is the number of records that are not hidden. -/
  numVisible_eq : store.numVisible = (store.arena.toList.filter (!·.hidden)).length
  /-- It is also the number of meanings of all cells together. -/
  numVisible_eq_sum : store.numVisible =
    ∑ cell ∈ store.cells.keys.toList.toFinset, store.numMeanings cell
  /-- A record has collected the ways of all findings for its key. -/
  ingredients : ∀ record ∈ store.arena.toList, ∀ i, i ∈ record.ingredients.toList ↔
    ∃ f ∈ fs, f.key = record.key ∧ i = f.ingredient
  backPointers : ∀ record ∈ store.arena.toList, ∀ p, p ∈ record.backPointers.toList ↔
    ∃ f ∈ fs, f.key = record.key ∧ p ∈ f.sources

/-- The record of the key is hidden, and nothing that can be read comes from it. -/
structure Withdraws (store : Store) (key : BackPointer) : Prop where
  exists_record : ∃ record, store.lookup? key = some record ∧ record.hidden = true ∧
    record.derivations.toList = []
  entries? : ∀ cell, ∃ entries, store.entries? cell = some entries ∧
    ∀ entry ∈ entries, entry.key ≠ key
  derivations? : ∀ cell, ∃ entries, store.entries? cell = some entries ∧
    store.derivations? cell = some (entries.flatMap (·.derivations.toList)) ∧
    ∀ d ∈ entries.flatMap (·.derivations.toList), ∃ entry ∈ entries,
      entry.key ≠ key ∧ d ∈ entry.derivations.toList

theorem after?_append (store : Store) (actions more : List Action) :
    store.after? (actions ++ more) = (store.after? actions).bind (·.after? more) :=
  List.foldlM_append

/-- No action fails, and the store goes on keeping the chart of the same actions. -/
theorem exists_keeps_after (actions : List Action) : ∃ store,
    Store.empty.after? actions = some store ∧ store.Keeps (Chart.empty.after actions) := by
  induction actions using List.reverseRecOn with
  | nil => exact ⟨.empty, rfl, .empty⟩
  | append_singleton actions action ih =>
    obtain ⟨store, hs, hkeeps⟩ := ih
    have hmade := Chart.Made.empty.after actions
    have hn := (Chart.collects_after actions).nodup_map_key_recordsOf
    have hact : ∃ later n, store.act? action = some (later, n) ∧
        later.Keeps ((Chart.empty.after actions).act action) := by
      cases action with
      | add retention f =>
        obtain ⟨later, place, hl, -, hk⟩ := hkeeps.add hmade.keyed retention f
        exact ⟨later, place, hl, hk⟩
      | truncate cell k =>
        obtain ⟨later, hl, hk⟩ := hkeeps.truncate hmade hn cell k
        exact ⟨later, _, hl, hk⟩
      | keepBest cell k =>
        obtain ⟨later, hl, hk⟩ := hkeeps.keepBest hmade hn cell k
        exact ⟨later, _, hl, hk⟩
    obtain ⟨later, n, hl, hk⟩ := hact
    refine ⟨later, ?_, by rw [Chart.after_append]; exact hk⟩
    rw [after?_append, hs, Option.bind_some, after?, List.foldlM_cons, hl]
    rfl

/-! ## What a store shows -/

section Shown

variable {store : Store} {chart : Chart} {fs : List Finding}

theorem getElem?_arena (h : store.Keeps chart) (hc : chart.Collects fs) (i : Nat) :
    store.arena[i]? = ((Finding.keys fs)[i]?).bind chart.lookup? := by
  cases hk : (Finding.keys fs)[i]? with
  | none =>
    rw [Option.bind_none, Array.getElem?_eq_none_iff, h.size, hc.size_eq]
    exact List.getElem?_eq_none_iff.1 hk
  | some key =>
    obtain ⟨record, hr, rfl⟩ := (hc.exists_number_iff key i).2 hk
    rw [Option.bind_some, hr, h.record key record hr]

theorem mem_arena_iff (h : store.Keeps chart) (hc : chart.Collects fs) {record : Record} :
    record ∈ store.arena.toList ↔ ∃ key, chart.lookup? key = some record := by
  constructor
  · intro hr
    obtain ⟨i, hi⟩ := List.mem_iff_getElem?.1 hr
    rw [Array.getElem?_toList, getElem?_arena h hc] at hi
    obtain ⟨key, -, hl⟩ := Option.bind_eq_some_iff.1 hi
    exact ⟨key, hl⟩
  · rintro ⟨key, hr⟩
    exact List.mem_iff_getElem?.2 ⟨_, Array.getElem?_toList.trans (h.record key record hr)⟩

/-- The arena holds the records of all keys that came up, in that order. -/
theorem map_some_arena (h : store.Keeps chart) (hc : chart.Collects fs) :
    store.arena.toList.map some = (Finding.keys fs).map chart.lookup? := by
  refine List.ext_getElem? fun i => ?_
  rw [List.getElem?_map, List.getElem?_map, Array.getElem?_toList, getElem?_arena h hc]
  cases hk : (Finding.keys fs)[i]? with
  | none => rfl
  | some key =>
    obtain ⟨record, hr⟩ := (hc.holds_iff key).2 (List.mem_of_getElem? hk)
    rw [Option.bind_some, Option.map_some, hr, Option.map_some]

theorem map_key_arena (h : store.Keeps chart) (hc : chart.Collects fs) (hk : chart.Keyed) :
    store.arena.toList.map (·.key) = Finding.keys fs := by
  have hmap := congrArg (List.map (Option.map Record.key)) (map_some_arena h hc)
  apply List.map_injective_iff.2 (Option.some_injective BackPointer)
  rw [List.map_map, List.map_map] at hmap
  rw [List.map_map]
  refine hmap.trans (List.map_congr_left fun key hm => ?_)
  obtain ⟨record, hr⟩ := (hc.holds_iff key).2 hm
  rw [Function.comp_apply, hr, Option.map_some, hk key record hr]

/-- The entries of a cell are the records of the arena that are in the cell and not hidden. -/
theorem entries_eq (h : store.Keeps chart) (hc : chart.Collects fs) (hk : chart.Keyed)
    (cell : Cell) : chart.entries cell =
      (store.arena.toList.filter (·.key.cell = cell)).filter (!·.hidden) := by
  have hmap := congrArg (List.filterMap id) (map_some_arena h hc)
  rw [List.filterMap_map, List.filterMap_map, Function.id_comp, Function.id_comp,
    List.filterMap_some] at hmap
  rw [Chart.entries, hc.recordsOf_eq hk, hmap]
  refine congrArg (List.filter _) ?_
  rw [List.filterMap_filter, List.filter_filterMap]
  refine List.filterMap_congr fun key _ => ?_
  cases hl : chart.lookup? key with
  | none => simp
  | some record => simp [hk key record hl, Option.filter]

/-- Records of the arena and of the chart are the same ones, in another order. -/
theorem arena_perm_records (h : store.Keeps chart) (hc : chart.Collects fs) (hk : chart.Keyed) :
    store.arena.toList.Perm chart.records := by
  have harena : (store.arena.toList.map (·.key)).Nodup :=
    map_key_arena h hc hk ▸ Finding.nodup_keys fs
  refine (List.perm_ext_iff_of_nodup harena.of_map hc.nodup_map_key_records.of_map).2 fun r => ?_
  rw [mem_arena_iff h hc, Chart.mem_records]

theorem nodup_order (h : store.Keeps chart) (hc : chart.Collects fs) (hk : chart.Keyed)
    (cell : Cell) : (store.orderOf cell).Nodup := by
  have hkeys : ((chart.entries cell).map (·.key)).Nodup :=
    (hc.nodup_map_key_recordsOf cell).sublist (List.filter_sublist.map _)
  rw [h.order]
  refine (List.nodup_map_iff_inj_on hkeys).2 fun key hm other ho he => ?_
  obtain ⟨r, hr, rfl⟩ := List.mem_map.1 hm
  obtain ⟨s, hs, rfl⟩ := List.mem_map.1 ho
  have hcell := (Chart.lookup?_of_mem_entries hk hr).1
  exact BackPointer.ext (hcell.trans (Chart.lookup?_of_mem_entries hk hs).1.symm) he

theorem Keeps.represents (h : store.Keeps chart) (hc : chart.Collects fs) (hm : chart.Made) :
    store.Represents fs := by
  have hk := hm.keyed
  have hperm := arena_perm_records h hc hk
  have hlookup : ∀ key record, store.lookup? key = some record ↔
      record ∈ store.arena.toList ∧ record.key = key := fun key record => by
    rw [h.lookup?, hm.lookup?_iff, hperm.mem_iff]
  refine
    { keys := map_key_arena h hc hk
      nodup_keys := map_key_arena h hc hk ▸ Finding.nodup_keys fs
      place?_iff := fun key place => ?_
      lookup?_iff := hlookup
      order := fun cell => ?_
      nodup_order := nodup_order h hc hk
      entries? := fun cell => (h.entries? hk cell).trans (congrArg some (entries_eq h hc hk cell))
      numVisible_eq := ?_
      numVisible_eq_sum := ?_
      ingredients := fun record hr i => ?_
      backPointers := fun record hr p => ?_ }
  · rw [h.place?, Option.map_eq_some_iff, hc.exists_number_iff]
  · rw [h.order, entries_eq h hc hk, List.map_map]
    rfl
  · rw [h.numVisible, ← hm.counted.length_filter_records]
    exact (hperm.filter _).length_eq.symm
  · rw [h.numVisible, h.cells, hm.counted]
    refine Finset.sum_congr rfl fun cell _ => ?_
    rw [numMeanings, h.order, List.length_map, List.length_map]
  · have hl := (h.lookup? record.key).symm.trans ((hlookup _ record).2 ⟨hr, rfl⟩)
    rw [← hc.ingredients, Chart.ingredientsOf_of_lookup? hl]
  · have hl := (h.lookup? record.key).symm.trans ((hlookup _ record).2 ⟨hr, rfl⟩)
    rw [← hc.backPointers, Chart.backPointersOf_of_lookup? hl]

/-- What the chart hides is withdrawn from the store. -/
theorem Keeps.withdraws (h : store.Keeps chart) (hm : chart.Made) {key : BackPointer}
    (hides : chart.Hides key) : store.Withdraws key := by
  obtain ⟨record, hr, hh⟩ := hides
  have hentries : ∀ cell, ∀ entry ∈ chart.entries cell, entry.key ≠ key := by
    rintro cell entry he rfl
    have hvisible := (Chart.mem_entries.1 he).2
    rw [(Chart.lookup?_of_mem_entries hm.keyed he).2] at hr
    cases hr
    rw [hh] at hvisible
    cases hvisible
  refine ⟨⟨record, (h.lookup? key).trans hr, hh, hm.emptied key record hr hh⟩, fun cell =>
    ⟨_, h.entries? hm.keyed cell, hentries cell⟩, fun cell => ?_⟩
  refine ⟨_, h.entries? hm.keyed cell, by rw [derivations?, h.entries? hm.keyed]; rfl, ?_⟩
  intro d hd
  obtain ⟨entry, he, hd⟩ := List.mem_flatMap.1 hd
  exact ⟨entry, he, hentries cell entry he, hd⟩

/-- What may be read and what is hidden are all records. -/
theorem Represents.numVisible_add_hidden (h : store.Represents fs) :
    store.numVisible + (store.arena.toList.filter (·.hidden)).length = store.arena.size := by
  rw [h.numVisible_eq, Nat.add_comm, ← Array.length_toList]
  exact (List.length_eq_length_filter_add _).symm

end Shown

/-- Whatever is done to an empty store, no action fails, and the records, the orders and places of
the cells and the count agree. What is hidden is withdrawn for good, and a beam that hides entries
says how many there are less. -/
theorem represents_after (actions : List Action) :
    ∃ store, Store.empty.after? actions = some store ∧ store.Represents (findings actions) ∧
      (∀ key record, store.lookup? key = some record → record.hidden = true →
        ∀ more, ∃ later, store.after? more = some later ∧ later.Withdraws key) ∧
      ∀ cell k, ∃ later n, store.truncate? cell k = some (later, n) ∧
        later.numVisible + n = store.numVisible ∧
        (later.arena.toList.filter (·.hidden)).length =
          (store.arena.toList.filter (·.hidden)).length + n := by
  obtain ⟨store, hs, hkeeps⟩ := exists_keeps_after actions
  have hmade := Chart.Made.empty.after actions
  have hcollects := Chart.collects_after actions
  have hrep := hkeeps.represents hcollects hmade
  refine ⟨store, hs, hrep, fun key record hr hh more => ?_, fun cell k => ?_⟩
  · obtain ⟨later, hl, hlater⟩ := exists_keeps_after (actions ++ more)
    rw [after?_append, hs, Option.bind_some] at hl
    have hides : (Chart.empty.after actions).Hides key :=
      ⟨record, (hkeeps.lookup? key).symm.trans hr, hh⟩
    rw [Chart.after_append] at hlater
    exact ⟨later, hl, hlater.withdraws (hmade.after more) (hides.after more)⟩
  · obtain ⟨later, hl, hlater⟩ :=
      hkeeps.truncate hmade hcollects.nodup_map_key_recordsOf cell k
    have hrep' := hlater.represents (hcollects.truncate cell k) (hmade.truncate cell k)
    have hnum : later.numVisible = store.numVisible -
        (Chart.empty.after actions).numHidden cell k := by
      rw [hlater.numVisible, hkeeps.numVisible]
      rfl
    have hle : (Chart.empty.after actions).numHidden cell k ≤ store.numVisible :=
      hkeeps.numVisible ▸ (Nat.sub_le _ k).trans (hmade.counted.length_entries_le cell)
    have hsize : later.arena.size = store.arena.size := hlater.size.trans hkeeps.size.symm
    have hold := hrep.numVisible_add_hidden
    have hnew := hrep'.numVisible_add_hidden
    exact ⟨later, _, hl, by omega, by omega⟩

/-- A finding of a number, as a whole parse of the first token. -/
def numberFinding (meaning : MeaningId) : Finding where
  key := ⟨.anchored 0 0 1, meaning⟩
  derivation := .ofFormula ⟨0, ⟨"$ROOT", 0⟩, [], true, .constant (.value (.number 1))⟩
    (.anchored 0 1) [] (.value (.number 1))
  ingredient := ⟨.anchored 0 0 1, 0, none, none⟩
  sources := []
  sourcesSingle := true

/-- A cell is cut to nothing and filled again: a meaning that was hidden does not come back, and a
new one stands behind it. -/
example : (Store.empty.after?
      [.add .all (numberFinding 4), .add .all (numberFinding 2), .truncate (.anchored 0 0 1) 0,
        .add .all (numberFinding 4), .add .all (numberFinding 7)]).map (fun store =>
      (store.orderOf (.anchored 0 0 1), store.arena.toList.map (·.hidden), store.numVisible)) =
    some ([7], [true, true, false], 1) := by
  decide +kernel

end Store

end GuidedChart
