import GuidedChart.Chart.Store
import GuidedChart.Proofs.Chart.History

/-!
# What is stored

A store keeps a chart if the two show the same records, at the places of their numbers, and if the
order of each cell and the count are those of the entries (`Store.Keeps`). Every operation on a
store succeeds, gives what the operation on the chart gives, and leaves the two in step
(`Store.Keeps.add`, `Store.Keeps.truncate`, `Store.Keeps.keepBest`).
-/

namespace GuidedChart

theorem mapM_map_of_forall {α β γ : Type} {f : β → Option γ} {g : α → β} {h : α → γ} {as : List α}
    (hf : ∀ a ∈ as, f (g a) = some (h a)) : (as.map g).mapM f = some (as.map h) := by
  induction as with
  | nil => rfl
  | cons a as ih =>
    rw [List.map_cons, List.mapM_cons, hf a List.mem_cons_self,
      ih fun b hb => hf b (List.mem_cons_of_mem a hb)]
    rfl

namespace Store

/-! ## The arena -/

section Arena

variable {change : Record → Record} {arena later : Array Record} {place : Nat} {k : Nat}

theorem changeAt?_of_lt (h : place < arena.size) :
    changeAt? change arena place = some (arena.modify place change) := by
  rw [changeAt?, Array.getElem?_eq_getElem h]
  rfl

/-- Different places, all of them taken, have their records changed and no other place has. -/
theorem exists_foldlM_changeAt? (change : Record → Record) (arena : Array Record)
    {places : List Nat} (hn : places.Nodup)
    (hp : ∀ place ∈ places, place < arena.size) :
    ∃ later, places.foldlM (changeAt? change) arena = some later ∧ later.size = arena.size ∧
      ∀ i, later[i]? = if i ∈ places then (arena[i]?).map change else arena[i]? := by
  induction places generalizing arena with
  | nil => exact ⟨arena, rfl, rfl, fun _ => rfl⟩
  | cons place places ih =>
    obtain ⟨hplace, hn⟩ := List.nodup_cons.1 hn
    obtain ⟨hlt, hp⟩ := List.forall_mem_cons.1 hp
    obtain ⟨later, hl, hsize, hget⟩ := ih (arena.modify place change) hn
      (by simpa using hp)
    refine ⟨later, ?_, hsize.trans (Array.size_modify ..), fun i => ?_⟩
    · rw [List.foldlM_cons, changeAt?_of_lt hlt]
      exact hl
    · rw [hget, Array.getElem?_modify]
      by_cases hi : place = i
      · subst hi
        simp [hplace]
      · simp [hi, Ne.symm hi]

/-- While records lose derivations, those that they lose are counted. -/
theorem foldlM_dropAt? {records : List Record} (hn : (records.map (·.number)).Nodup)
    (hr : ∀ record ∈ records, arena[record.number]? = some record)
    (hl : (records.map (·.number)).foldlM (changeAt? (·.keepBest k)) arena = some later)
    (dropped : Nat) : (records.map (·.number)).foldlM (dropAt? k) (arena, dropped) =
      some (later, dropped + (records.flatMap (·.derivations.toList.drop k)).length) := by
  induction records generalizing arena dropped with
  | nil =>
    cases hl
    rfl
  | cons record records ih =>
    obtain ⟨hnew, hn⟩ := List.nodup_cons.1 hn
    obtain ⟨hrecord, hr⟩ := List.forall_mem_cons.1 hr
    have hlt := (Array.getElem?_eq_some_iff.1 hrecord).1
    have hothers : ∀ other ∈ records,
        (arena.modify record.number (·.keepBest k))[other.number]? = some other := by
      intro other ho
      have hne : record.number ≠ other.number := fun he =>
        hnew (List.mem_map.2 ⟨other, ho, he.symm⟩)
      rw [Array.getElem?_modify, if_neg hne, hr other ho]
    have hdrop : dropAt? k (arena, dropped) record.number =
        some (arena.modify record.number (·.keepBest k),
          dropped + (record.derivations.size - k)) := by
      simp only [dropAt?, hrecord, changeAt?_of_lt hlt]
      rfl
    rw [List.map_cons, List.foldlM_cons, changeAt?_of_lt hlt] at hl
    rw [List.map_cons, List.foldlM_cons, hdrop]
    refine (ih hn hothers hl _).trans ?_
    rw [List.flatMap_cons, List.length_append, List.length_drop, ← Array.length_toList,
      Nat.add_assoc]

end Arena

/-! ## The cells -/

section Cells

variable (store : Store) (arena : Array Record) (n : Nat)

theorem place?_enter (key other : BackPointer) (place : Nat) :
    place? ⟨arena, store.cells.alter key.cell fun index? =>
        (index?.getD .empty).enter key.meaning place, n⟩ other =
      if key = other then some place else store.place? other := by
  obtain ⟨cell, meaning⟩ := key
  obtain ⟨cell', meaning'⟩ := other
  simp only [place?, Catalog.get?_alter, BackPointer.mk.injEq]
  by_cases hc : cell = cell'
  · subst hc
    simp only [if_true, Option.bind_some, CellIndex.enter, Catalog.get?_alter, true_and]
    cases store.cells.get? cell with
    | none => split <;> rfl
    | some index => rfl
  · simp only [hc, false_and, if_false]

theorem orderOf_enter (key : BackPointer) (other : Cell) (place : Nat) :
    orderOf ⟨arena, store.cells.alter key.cell fun index? =>
        (index?.getD .empty).enter key.meaning place, n⟩ other =
      if key.cell = other then store.orderOf other ++ [key.meaning] else store.orderOf other := by
  simp only [orderOf, Catalog.get?_alter]
  by_cases hc : key.cell = other
  · subst hc
    simp only [if_true]
    cases store.cells.get? key.cell <;> rfl
  · simp only [hc, if_false]

theorem place?_cut (cell : Cell) (k : Nat) (key : BackPointer) :
    place? ⟨arena, store.cells.modify cell (·.cut k), n⟩ key = store.place? key := by
  simp only [place?, Catalog.get?_modify]
  split
  · rename_i hc
    subst hc
    cases store.cells.get? key.cell <;> rfl
  · rfl

theorem orderOf_cut (cell other : Cell) (k : Nat) :
    orderOf ⟨arena, store.cells.modify cell (·.cut k), n⟩ other =
      if cell = other then (store.orderOf other).take k else store.orderOf other := by
  simp only [orderOf, Catalog.get?_modify]
  by_cases hc : cell = other
  · subst hc
    simp only [if_true]
    cases store.cells.get? cell with
    | none => exact List.take_nil.symm
    | some index => rfl
  · simp only [hc, if_false]

theorem orderOf_of_get? {store : Store} {cell : Cell} {index : CellIndex}
    (h : store.cells.get? cell = some index) : store.orderOf cell = index.order := by
  rw [orderOf, h]

end Cells

end Store

/-! ## The entries of a chart -/

namespace Record

/-- Of records with different keys, the beam of the first pass hides those whose keys are among the
entries beyond the first `k`. -/
theorem hideBeyond_eq_map {k : Nat} {records : List Record} (h : (records.map (·.key)).Nodup) :
    hideBeyond k records = records.map fun record =>
      if record.key ∈ ((records.filter (!·.hidden)).drop k).map (·.key) then record.hide
      else record := by
  fun_induction hideBeyond k records with
  | case1 => rfl
  | case2 k r rs hr ih =>
    obtain ⟨hnew, h⟩ := List.nodup_cons.1 h
    rw [List.filter_cons_of_neg (by simp [hr]), List.map_cons, ih h, if_neg fun hm => hnew ?_]
    exact (((List.drop_sublist k _).trans List.filter_sublist).map _).subset hm
  | case3 r rs hr ih =>
    obtain ⟨hnew, h⟩ := List.nodup_cons.1 h
    rw [List.filter_cons_of_pos (by simpa using hr), List.map_cons, ih h, List.drop_zero,
      List.drop_zero, if_pos (List.mem_map_of_mem List.mem_cons_self)]
    refine congrArg _ (List.map_congr_left fun other ho => ?_)
    have hne : other.key ≠ r.key := fun he => hnew (List.mem_map.2 ⟨other, ho, he⟩)
    simp only [List.map_cons, List.mem_cons, hne, false_or]
  | case4 r rs hr k ih =>
    obtain ⟨hnew, h⟩ := List.nodup_cons.1 h
    rw [List.filter_cons_of_pos (by simpa using hr), List.map_cons, ih h, List.drop_succ_cons,
      if_neg fun hm => hnew ?_]
    exact (((List.drop_sublist k _).trans List.filter_sublist).map _).subset hm

end Record

namespace Chart

variable {chart : Chart} {f : Finding}

theorem lookup?_of_mem_entries (hk : chart.Keyed) {cell : Cell} {record : Record}
    (hr : record ∈ chart.entries cell) : record.key.cell = cell ∧
      chart.lookup? record.key = some record := by
  obtain ⟨⟨meaning, hl⟩, -⟩ := mem_entries.1 hr
  have hkey := hk _ record hl
  exact ⟨congrArg BackPointer.cell hkey, by rw [hkey, hl]⟩

/-- The beam of the first pass hides the records of the entries beyond the first `k`. -/
theorem lookup?_truncate_eq (hk : chart.Keyed)
    (hn : ∀ cell, ((chart.recordsOf cell).map (·.key)).Nodup) (cell : Cell) (k : Nat)
    (key : BackPointer) : (chart.truncate cell k).lookup? key =
      if key ∈ ((chart.entries cell).drop k).map (·.key) then (chart.lookup? key).map Record.hide
      else chart.lookup? key := by
  rw [((trims_truncate chart cell k).keyed hk).lookup?_eq_find?, hk.lookup?_eq_find?,
    recordsOf_truncate]
  by_cases hcell : cell = key.cell
  · subst hcell
    rw [if_pos rfl, Record.hideBeyond_eq_map (hn _), List.find?_map]
    have hsame : ∀ record : Record, (if record.key ∈
        (((chart.recordsOf key.cell).filter (!·.hidden)).drop k).map (·.key) then record.hide
        else record).key = record.key := fun record => by split <;> rfl
    simp only [Function.comp_def, hsame]
    cases hf : (chart.recordsOf key.cell).find? (·.key = key) with
    | none => simp
    | some record =>
      have hkey : record.key = key := by simpa using List.find?_some hf
      rw [Option.map_some, hkey, entries]
      split <;> rfl
  · rw [if_neg hcell, if_neg]
    intro hm
    obtain ⟨record, hr, rfl⟩ := List.mem_map.1 hm
    exact hcell (lookup?_of_mem_entries hk (List.mem_of_mem_drop hr)).1.symm

/-- The beam of the second pass changes the records of the entries and no others, as what is hidden
has no derivations to lose. -/
theorem Made.lookup?_keepBest_eq (h : chart.Made) (cell : Cell) (k : Nat) (key : BackPointer) :
    (chart.keepBest cell k).lookup? key =
      if key ∈ (chart.entries cell).map (·.key) then (chart.lookup? key).map (Record.keepBest k)
      else chart.lookup? key := by
  rw [lookup?_keepBest]
  by_cases hm : key ∈ (chart.entries cell).map (·.key)
  · rw [if_pos hm]
    obtain ⟨record, hr, rfl⟩ := List.mem_map.1 hm
    rw [if_pos (lookup?_of_mem_entries h.keyed hr).1.symm]
  · rw [if_neg hm]
    split
    · rename_i hcell
      subst hcell
      cases hl : chart.lookup? key with
      | none => rfl
      | some record =>
        have hhidden : record.hidden = true := by
          by_contra hh
          exact hm (List.mem_map.2 ⟨record, mem_entries.2
            ⟨⟨key.meaning, hl⟩, Bool.eq_false_iff.2 hh⟩, h.keyed key record hl⟩)
        have hsize : record.derivations.size = 0 := by
          rw [← Array.length_toList, h.emptied key record hl hhidden, List.length_nil]
        rw [Option.map_some, Record.keepBest, if_pos (hsize ▸ Nat.zero_le k)]
    · rfl

theorem mem_cells_of_holds {key : BackPointer} (h : chart.Holds key) : key.cell ∈ chart.cells := by
  obtain ⟨record, hr⟩ := h
  obtain ⟨shelf, hs, -⟩ := Option.bind_eq_some_iff.1 hr
  obtain ⟨i, hi, -⟩ := Catalog.get?_eq_some_iff.1 hs
  exact List.mem_of_getElem? hi

/-- A finding of a known meaning leaves the keys of the entries as they are. -/
theorem map_key_entries_add_of_holds (hk : chart.Keyed) (h : chart.Holds f.key)
    (retention : Retention) (cell : Cell) :
    ((chart.add retention f).entries cell).map (·.key) = (chart.entries cell).map (·.key) := by
  unfold entries
  by_cases hcell : f.key.cell = cell
  · subst hcell
    rw [recordsOf_add_of_holds hk h, List.filter_map, List.map_map]
    have hhidden : ∀ record : Record,
        (if record.key = f.key then record.extend retention f else record).hidden =
          record.hidden := fun record => by split <;> rfl
    simp only [Function.comp_def, hhidden]
    refine List.map_congr_left fun record _ => ?_
    split <;> rfl
  · rw [recordsOf_add_of_ne _ _ _ hcell]

/-- A finding of a new meaning is one entry more, at the end of its cell. -/
theorem map_key_entries_add_of_not_holds (h : ¬ chart.Holds f.key) (retention : Retention)
    (cell : Cell) : ((chart.add retention f).entries cell).map (·.key) =
      (chart.entries cell).map (·.key) ++ if f.key.cell = cell then [f.key] else [] := by
  unfold entries
  split
  · rename_i hcell
    subst hcell
    rw [recordsOf_add_of_not_holds h, List.filter_append, List.map_append]
    rfl
  · rename_i hcell
    rw [recordsOf_add_of_ne _ _ _ hcell, List.append_nil]

theorem map_key_entries_keepBest (chart : Chart) (cell other : Cell) (k : Nat) :
    ((chart.keepBest cell k).entries other).map (·.key) = (chart.entries other).map (·.key) := by
  rw [entries_keepBest]
  split
  · rw [List.map_map]
    exact List.map_congr_left fun record _ => (Record.trims_keepBest k record).key
  · rfl

end Chart

/-! ## In step -/

namespace Store

open Chart (Collects)

/-- The store holds the records of the chart, each at the place of its number, and has the orders
and the count of its entries. -/
structure Keeps (store : Store) (chart : Chart) : Prop where
  size : store.arena.size = chart.size
  numVisible : store.numVisible = chart.numEntries
  cells : store.cells.keys = chart.shelves.keys
  place? : ∀ key, store.place? key = (chart.lookup? key).map (·.number)
  record : ∀ key record, chart.lookup? key = some record →
    store.arena[record.number]? = some record
  order : ∀ cell, store.orderOf cell = ((chart.entries cell).map (·.key)).map (·.meaning)

namespace Keeps

variable {store : Store} {chart : Chart}

theorem empty : Store.empty.Keeps .empty where
  size := rfl
  numVisible := rfl
  cells := rfl
  place? _ := rfl
  record _ _ hr := nomatch hr
  order _ := rfl

theorem lookup? (h : store.Keeps chart) (key : BackPointer) :
    store.lookup? key = chart.lookup? key := by
  rw [Store.lookup?, h.place?]
  cases hl : chart.lookup? key with
  | none => rfl
  | some record => exact h.record key record hl

/-- Records stand at different places. -/
theorem key_eq_of_number_eq (h : store.Keeps chart) (hk : chart.Keyed) {key other : BackPointer}
    {r s : Record} (hr : chart.lookup? key = some r) (hs : chart.lookup? other = some s)
    (hn : r.number = s.number) : key = other := by
  have hrs := h.record key r hr
  rw [hn, h.record other s hs] at hrs
  rw [← hk key r hr, ← hk other s hs, Option.some.inj hrs]

theorem number_mem_iff (h : store.Keeps chart) (hk : chart.Keyed) {records : List Record}
    (hrs : ∀ r ∈ records, chart.lookup? r.key = some r) {key : BackPointer} {record : Record}
    (hr : chart.lookup? key = some record) :
    record.number ∈ records.map (·.number) ↔ key ∈ records.map (·.key) := by
  rw [List.mem_map, List.mem_map]
  refine exists_congr fun r => and_congr_right fun hm => ⟨fun hn => ?_, ?_⟩
  · exact h.key_eq_of_number_eq hk (hrs r hm) hr hn
  · rintro rfl
    rw [Option.some.inj ((hrs r hm).symm.trans hr)]

theorem entries? (h : store.Keeps chart) (hk : chart.Keyed) (cell : Cell) :
    store.entries? cell = some (chart.entries cell) := by
  rw [Store.entries?, h.order, List.map_map]
  refine (mapM_map_of_forall fun record hr => ?_).trans (congrArg some (List.map_id _))
  obtain ⟨rfl, hl⟩ := Chart.lookup?_of_mem_entries hk hr
  exact (h.lookup? record.key).trans hl

/-- The places of some entries of a cell are their numbers. -/
theorem mapM_places (h : store.Keeps chart) (hk : chart.Keyed) {cell : Cell} {index : CellIndex}
    (hi : store.cells.get? cell = some index) {records : List Record}
    (hrs : records ⊆ chart.entries cell) :
    ((records.map (·.key)).map (·.meaning)).mapM index.places.get? =
      some (records.map (·.number)) := by
  rw [List.map_map]
  refine mapM_map_of_forall fun record hr => ?_
  obtain ⟨hcell, hl⟩ := Chart.lookup?_of_mem_entries hk (hrs hr)
  have hplace := h.place? record.key
  rw [Store.place?, hcell, hi, hl] at hplace
  exact hplace

/-! ### Findings -/

theorem add_of_lookup? (h : store.Keeps chart) (hk : chart.Keyed) (retention : Retention)
    {f : Finding} {old : Record} (hl : chart.lookup? f.key = some old) :
    ∃ later, store.add? retention f = some (later, old.number) ∧
      later.Keeps (chart.add retention f) := by
  have hplace : store.place? f.key = some old.number := by rw [h.place?, hl]; rfl
  have hlt := (Array.getElem?_eq_some_iff.1 (h.record f.key old hl)).1
  have hheld : chart.Holds f.key := ⟨old, hl⟩
  refine ⟨{ store with arena := store.arena.modify old.number (·.extend retention f) }, ?_, ?_⟩
  · simp only [add?, hplace, changeAt?_of_lt hlt]
    rfl
  · refine
      { size := ?_
        numVisible := ?_
        cells := ?_
        place? := fun key => ?_
        record := fun key record hr => ?_
        order := fun cell => ?_ }
    · rw [Array.size_modify, h.size, Chart.size_add_of_holds hheld]
    · rw [h.numVisible, Chart.add, hl]
      rfl
    · have hcell : f.key.cell ∈ chart.cells := Chart.mem_cells_of_holds hheld
      rw [h.cells]
      exact (Numbering.insert_of_mem hcell).symm.trans (Catalog.keys_alter ..).symm
    · rw [Chart.lookup?_add, hl]
      split
      · rename_i hkey
        rw [← hkey]
        exact hplace
      · exact h.place? key
    · obtain ⟨hne, hold⟩ | ⟨rfl, hnone, -⟩ | ⟨r, rfl, hold, rfl⟩ :=
        Chart.cases_of_lookup?_add hr
      · have hplaces : old.number ≠ record.number := fun hn =>
          hne (h.key_eq_of_number_eq hk hl hold hn)
        rw [Array.getElem?_modify, if_neg hplaces, h.record key record hold]
      · rw [hl] at hnone
        cases hnone
      · cases hl.symm.trans hold
        exact (Array.getElem?_modify ..).trans ((if_pos rfl).trans
          (congrArg (Option.map _) (h.record f.key old hl)))
    · rw [Chart.map_key_entries_add_of_holds hk hheld]
      exact h.order cell

theorem add_of_lookup?_eq_none (h : store.Keeps chart) (retention : Retention)
    {f : Finding} (hl : chart.lookup? f.key = none) :
    ∃ later, store.add? retention f = some (later, chart.size) ∧
      later.Keeps (chart.add retention f) := by
  have hplace : store.place? f.key = none := by rw [h.place?, hl]; rfl
  have hnew : ¬ chart.Holds f.key := fun ⟨record, hr⟩ => by
    rw [hl] at hr
    cases hr
  refine ⟨⟨store.arena.push (.ofFinding store.arena.size f), store.cells.alter f.key.cell
    fun index? => (index?.getD .empty).enter f.key.meaning store.arena.size,
      store.numVisible + 1⟩, ?_, ?_⟩
  · simp only [add?, hplace, h.size]
  · refine
      { size := ?_
        numVisible := ?_
        cells := ?_
        place? := fun key => ?_
        record := fun key record hr => ?_
        order := fun cell => ?_ }
    · rw [Array.size_push, h.size, Chart.size_add_of_not_holds hnew]
    · rw [h.numVisible, Chart.add, hl]
      rfl
    · exact (Catalog.keys_alter ..).trans
        ((congrArg (·.insert f.key.cell) h.cells).trans (Catalog.keys_alter ..).symm)
    · rw [place?_enter, Chart.lookup?_add, hl, h.place?, h.size]
      split <;> rfl
    · obtain ⟨-, hold⟩ | ⟨rfl, -, rfl⟩ | ⟨old, rfl, hold, -⟩ := Chart.cases_of_lookup?_add hr
      · have hrecord := h.record key record hold
        rw [Array.getElem?_push, if_neg (Nat.ne_of_lt (Array.getElem?_eq_some_iff.1 hrecord).1),
          hrecord]
      · rw [← h.size]
        exact Array.getElem?_push_size
      · rw [hl] at hold
        cases hold
    · rw [orderOf_enter, h.order, Chart.map_key_entries_add_of_not_holds hnew, List.map_append]
      split
      · rfl
      · rw [List.map_nil, List.append_nil]

/-- A finding is added where its record stands, or at the end of the arena. -/
theorem add (h : store.Keeps chart) (hk : chart.Keyed) (retention : Retention) (f : Finding) :
    ∃ later place, store.add? retention f = some (later, place) ∧
      later.place? f.key = some place ∧ later.Keeps (chart.add retention f) := by
  cases hl : chart.lookup? f.key with
  | none =>
    obtain ⟨later, hadd, hkeeps⟩ := h.add_of_lookup?_eq_none retention hl
    refine ⟨later, _, hadd, ?_, hkeeps⟩
    rw [hkeeps.place?, Chart.lookup?_add_of_none _ _ _ hl]
    rfl
  | some old =>
    obtain ⟨later, hadd, hkeeps⟩ := h.add_of_lookup? hk retention hl
    refine ⟨later, _, hadd, ?_, hkeeps⟩
    rw [hkeeps.place?, Chart.lookup?_add_of_lookup? _ _ _ hl]
    rfl

/-! ### Beams -/

theorem truncate_of_le (h : store.Keeps chart) (hk : chart.Keyed)
    (hn : ∀ cell, ((chart.recordsOf cell).map (·.key)).Nodup) {cell : Cell} {k : Nat}
    (hle : (chart.entries cell).length ≤ k) : store.Keeps (chart.truncate cell k) := by
  have hlookup : ∀ key, (chart.truncate cell k).lookup? key = chart.lookup? key := fun key => by
    rw [Chart.lookup?_truncate_eq hk hn, List.drop_eq_nil_of_le hle]
    exact if_neg List.not_mem_nil
  refine
    { size := h.size
      numVisible := ?_
      cells := h.cells.trans (Catalog.keys_modify ..).symm
      place? := fun key => by rw [hlookup, h.place?]
      record := fun key record hr => h.record key record ((hlookup key).symm.trans hr)
      order := fun other => ?_ }
  · rw [h.numVisible, Chart.truncate, Chart.numHidden, Nat.sub_eq_zero_of_le hle]
    rfl
  · rw [h.order, Chart.entries_truncate]
    split
    · rename_i hcell
      subst hcell
      rw [List.take_of_length_le hle]
    · rfl

theorem nodup_numbers (h : store.Keeps chart) (hk : chart.Keyed) {records : List Record}
    (hrs : ∀ r ∈ records, chart.lookup? r.key = some r) (hn : records.Nodup) :
    (records.map (·.number)).Nodup := by
  refine (List.nodup_map_iff_inj_on hn).2 fun r hr s hs he => ?_
  have hkey := h.key_eq_of_number_eq hk (hrs r hr) (hrs s hs) he
  exact Option.some.inj ((hrs r hr).symm.trans (hkey ▸ hrs s hs))

/-- The records of some entries are changed in the arena, and no others. -/
theorem exists_change (h : store.Keeps chart) (hk : chart.Keyed) {cell : Cell}
    {records : List Record} (hrs : records.Sublist (chart.entries cell))
    (hn : (chart.entries cell).Nodup) (change : Record → Record) :
    ∃ arena, (records.map (·.number)).foldlM (changeAt? change) store.arena = some arena ∧
      arena.size = store.arena.size ∧ ∀ key record, chart.lookup? key = some record →
        arena[record.number]? =
          some (if key ∈ records.map (·.key) then change record else record) := by
  have hheld : ∀ r ∈ records, chart.lookup? r.key = some r := fun r hr =>
    (Chart.lookup?_of_mem_entries hk (hrs.subset hr)).2
  obtain ⟨arena, hfold, hsize, hget⟩ := exists_foldlM_changeAt? change store.arena
    (h.nodup_numbers hk hheld (hn.sublist hrs)) fun place hp => by
      obtain ⟨r, hr, rfl⟩ := List.mem_map.1 hp
      exact (Array.getElem?_eq_some_iff.1 (h.record r.key r (hheld r hr))).1
  refine ⟨arena, hfold, hsize, fun key record hr => ?_⟩
  rw [hget, h.record key record hr]
  simp only [h.number_mem_iff hk hheld hr]
  split <;> rfl

section Changed

variable {later : Chart} {keys : List BackPointer} {change : Record → Record} {arena : Array Record}

/-- A chart in which the records of some keys are changed has them under the same numbers. -/
theorem map_number_of_change (hnumber : ∀ record, (change record).number = record.number)
    (hlater : ∀ key, later.lookup? key =
      if key ∈ keys then (chart.lookup? key).map change else chart.lookup? key)
    (key : BackPointer) :
    (later.lookup? key).map (·.number) = (chart.lookup? key).map (·.number) := by
  rw [hlater]
  split
  · rw [Option.map_map]
    exact congrArg (Option.map · _) (funext hnumber)
  · rfl

/-- The arena with the same records changed has the records of that chart. -/
theorem getElem?_of_change (hnumber : ∀ record, (change record).number = record.number)
    (hlater : ∀ key, later.lookup? key =
      if key ∈ keys then (chart.lookup? key).map change else chart.lookup? key)
    (hget : ∀ key record, chart.lookup? key = some record →
      arena[record.number]? = some (if key ∈ keys then change record else record))
    {key : BackPointer} {record : Record} (hr : later.lookup? key = some record) :
    arena[record.number]? = some record := by
  rw [hlater] at hr
  split at hr
  · rename_i hkey
    obtain ⟨old, ho, rfl⟩ := Option.map_eq_some_iff.1 hr
    rw [hnumber, hget key old ho, if_pos hkey]
  · rename_i hkey
    rw [hget key record hr, if_neg hkey]

end Changed

/-- With the records of all entries beyond the first `k` hidden and with the order of the cell cut,
the store is in step again. -/
theorem cut (h : store.Keeps chart) (hk : chart.Keyed)
    (hn : ∀ cell, ((chart.recordsOf cell).map (·.key)).Nodup) {cell : Cell} {k : Nat}
    {arena : Array Record} (hsize : arena.size = store.arena.size)
    (hget : ∀ key record, chart.lookup? key = some record → arena[record.number]? =
      some (if key ∈ ((chart.entries cell).drop k).map (·.key) then record.hide else record)) :
    Keeps ⟨arena, store.cells.modify cell (·.cut k), store.numVisible - chart.numHidden cell k⟩
      (chart.truncate cell k) where
  size := hsize.trans h.size
  numVisible := congrArg (· - chart.numHidden cell k) h.numVisible
  cells := (Catalog.keys_modify ..).trans (h.cells.trans (Catalog.keys_modify ..).symm)
  place? key := by
    rw [place?_cut, h.place?]
    exact (map_number_of_change Record.number_hide
      (Chart.lookup?_truncate_eq hk hn cell k) key).symm
  record key record hr :=
    getElem?_of_change Record.number_hide (Chart.lookup?_truncate_eq hk hn cell k) hget hr
  order other := by
    rw [orderOf_cut, h.order, Chart.entries_truncate]
    split
    · rw [List.map_take, List.map_take]
    · rfl

/-- The beam of the first pass succeeds, and hides as many entries as it says. -/
theorem truncate (h : store.Keeps chart) (hm : chart.Made)
    (hn : ∀ cell, ((chart.recordsOf cell).map (·.key)).Nodup) (cell : Cell) (k : Nat) :
    ∃ later, store.truncate? cell k = some (later, chart.numHidden cell k) ∧
      later.Keeps (chart.truncate cell k) := by
  have horder := h.order cell
  have hlength : (store.orderOf cell).length = (chart.entries cell).length := by
    rw [horder, List.length_map, List.length_map]
  by_cases hle : (chart.entries cell).length ≤ k
  · refine ⟨store, ?_, h.truncate_of_le hm.keyed hn hle⟩
    rw [truncate?, Chart.numHidden, Nat.sub_eq_zero_of_le hle]
    split
    · rfl
    · rename_i index hi
      rw [orderOf_of_get? hi] at hlength
      exact if_pos (hlength.trans_le hle)
  · cases hi : store.cells.get? cell with
    | none =>
      rw [orderOf, hi] at hlength
      exact absurd (hlength.symm.trans_le (Nat.zero_le k)) hle
    | some index =>
      rw [orderOf_of_get? hi] at horder hlength
      have hsub := List.drop_sublist k (chart.entries cell)
      obtain ⟨arena, hfold, hsize, hget⟩ := h.exists_change hm.keyed hsub
        (((hn cell).of_map _).sublist List.filter_sublist) Record.hide
      have hplaces := h.mapM_places hm.keyed hi hsub.subset
      rw [List.map_drop, List.map_drop, ← horder] at hplaces
      have hcut : (((chart.entries cell).drop k).map (·.number)).length =
          chart.numHidden cell k := by rw [List.length_map, List.length_drop]; rfl
      have hcount : chart.numHidden cell k ≤ store.numVisible :=
        h.numVisible ▸ (Nat.sub_le _ k).trans (hm.counted.length_entries_le cell)
      refine ⟨⟨arena, store.cells.modify cell (·.cut k),
        store.numVisible - chart.numHidden cell k⟩, ?_, ?_⟩
      · simp only [truncate?, hi, hlength, hle, if_false, hplaces, hfold, Option.bind_eq_bind,
          Option.bind_some, hcut, Nat.not_lt.2 hcount]
        rfl
      · exact h.cut hm.keyed hn hsize hget

/-- The beam of the second pass succeeds, and drops as many derivations as it says. What is hidden
has none to drop. -/
theorem keepBest (h : store.Keeps chart) (hm : chart.Made)
    (hn : ∀ cell, ((chart.recordsOf cell).map (·.key)).Nodup) (cell : Cell) (k : Nat) :
    ∃ later, store.keepBest? cell k = some (later, chart.numDropped cell k) ∧
      later.Keeps (chart.keepBest cell k) := by
  have horder := h.order cell
  have hnodup : (chart.entries cell).Nodup := ((hn cell).of_map _).sublist List.filter_sublist
  obtain ⟨arena, hfold, hsize, hget⟩ :=
    h.exists_change hm.keyed (List.Sublist.refl _) hnodup (Record.keepBest k)
  refine ⟨{ store with arena }, ?_, ?_⟩
  · cases hi : store.cells.get? cell with
    | none =>
      rw [orderOf, hi, eq_comm, List.map_map, List.map_eq_nil_iff] at horder
      rw [horder] at hfold
      cases hfold
      simp only [keepBest?, hi, Chart.numDropped, horder]
      rfl
    | some index =>
      rw [orderOf_of_get? hi] at horder
      have hplaces := h.mapM_places hm.keyed hi (List.Subset.refl _)
      have hheld : ∀ record ∈ chart.entries cell, chart.lookup? record.key = some record :=
        fun record hr => (Chart.lookup?_of_mem_entries hm.keyed hr).2
      have hdrop := foldlM_dropAt? (h.nodup_numbers hm.keyed hheld hnodup)
        (fun record hr => h.record _ record (hheld record hr)) hfold 0
      rw [← horder] at hplaces
      simp only [keepBest?, hi, hplaces, Option.bind_eq_bind, Option.bind_some, hdrop,
        Nat.zero_add]
      rfl
  · refine
      { size := hsize.trans h.size
        numVisible := h.numVisible
        cells := h.cells.trans (Catalog.keys_modify ..).symm
        place? := fun key => ?_
        record := fun key record hr => getElem?_of_change (Record.number_keepBest k)
          (hm.lookup?_keepBest_eq cell k) hget hr
        order := fun other => ?_ }
    · exact (h.place? key).trans (map_number_of_change (Record.number_keepBest k)
        (hm.lookup?_keepBest_eq cell k) key).symm
    · rw [Chart.map_key_entries_keepBest]
      exact h.order other

end Keeps

end Store

end GuidedChart
