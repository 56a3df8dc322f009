import GuidedChart.Proofs.Chart.Counting

/-!
# Histories of charts

Whatever is done to a chart is a list of actions, one after the other: findings are added, and beams
are applied to cells (`Chart.after`). What the chart holds in the end can be told from the list. Its
records are those of the keys that came up, in the order in which they came up, and a record has
collected the ways of all findings for its key, whatever was cut in between (`Chart.Collects`,
`Chart.collects_after`). A record that was hidden stays hidden (`Chart.Hides.after`) and has no
derivations (`Chart.Made.emptied`).

Which derivations a record still has is left out here; that depends on the beams.
-/

namespace GuidedChart

section EraseDups

variable {α : Type} [DecidableEq α]

theorem eraseDups_append_singleton (as : List α) (a : α) :
    (as ++ [a]).eraseDups = if a ∈ as then as.eraseDups else as.eraseDups ++ [a] := by
  rw [List.eraseDups_append, List.removeAll]
  by_cases h : a ∈ as
  · rw [if_pos h, List.filter_cons_of_neg (by simpa using h)]
    exact List.append_nil _
  · rw [if_neg h, List.filter_cons_of_pos (by simpa using h)]
    rfl

theorem nodup_eraseDups (as : List α) : as.eraseDups.Nodup := by
  induction as using List.reverseRecOn with
  | nil => exact List.nodup_nil
  | append_singleton as a ih =>
    rw [eraseDups_append_singleton]
    split
    · exact ih
    · rename_i h
      exact List.nodup_append.2 ⟨ih, List.nodup_singleton a, fun b hb c hc hbc =>
        h (List.mem_eraseDups.1 (List.mem_singleton.1 hc ▸ hbc ▸ hb))⟩

/-- A numbering of a list is the list without its repetitions. -/
theorem Numbering.toList_ofList [Coded α] (as : List α) :
    (Numbering.ofList as).toList = as.eraseDups := by
  induction as using List.reverseRecOn with
  | nil => rfl
  | append_singleton as a ih =>
    have hstep : Numbering.ofList (as ++ [a]) = (Numbering.ofList as).insert a := List.foldl_append
    rw [hstep, eraseDups_append_singleton]
    split
    · rename_i h
      rw [Numbering.insert_of_mem (Numbering.mem_ofList.2 h), ih]
    · rename_i h
      rw [Numbering.toList_insert_of_not_mem (mt Numbering.mem_ofList.1 h), ih]

end EraseDups

namespace Finding

/-- The keys of some findings, in the order in which they first come up. -/
def keys (fs : List Finding) : List BackPointer :=
  (fs.map (·.key)).eraseDups

theorem mem_keys {fs : List Finding} {key : BackPointer} :
    key ∈ keys fs ↔ ∃ f ∈ fs, f.key = key := by
  rw [keys, List.mem_eraseDups, List.mem_map]

theorem keys_append_singleton (fs : List Finding) (f : Finding) :
    keys (fs ++ [f]) = if f.key ∈ keys fs then keys fs else keys fs ++ [f.key] := by
  simp only [keys, List.map_append, List.map_singleton, eraseDups_append_singleton,
    List.mem_eraseDups]

theorem nodup_keys (fs : List Finding) : (keys fs).Nodup :=
  nodup_eraseDups _

end Finding

namespace Record

theorem map_key_hideBeyond (k : Nat) (records : List Record) :
    (hideBeyond k records).map (·.key) = records.map (·.key) := by
  fun_induction hideBeyond k records with
  | case1 => rfl
  | case2 k r rs hr ih => rw [List.map_cons, List.map_cons, ih]
  | case3 r rs hr ih =>
    rw [List.map_cons, List.map_cons, ih]
    rfl
  | case4 r rs hr k ih => rw [List.map_cons, List.map_cons, ih]

theorem number_hide (record : Record) : record.hide.number = record.number := rfl

theorem number_keepBest (k : Nat) (record : Record) :
    (record.keepBest k).number = record.number := by
  unfold keepBest
  split <;> rfl

end Record

namespace Chart

variable {chart : Chart} {f : Finding}

/-- A finding of a known meaning leaves the keys of all records as they are. -/
theorem map_key_recordsOf_add_of_holds (hk : chart.Keyed) (h : chart.Holds f.key)
    (retention : Retention) (cell : Cell) :
    ((chart.add retention f).recordsOf cell).map (·.key) =
      (chart.recordsOf cell).map (·.key) := by
  by_cases hcell : f.key.cell = cell
  · subst hcell
    rw [recordsOf_add_of_holds hk h, List.map_map]
    refine List.map_congr_left fun record _ => ?_
    rw [Function.comp_apply]
    split <;> rfl
  · rw [recordsOf_add_of_ne _ _ _ hcell]

/-- The key of a new meaning goes to the end of its cell. -/
theorem map_key_recordsOf_add_of_not_holds (h : ¬ chart.Holds f.key) (retention : Retention)
    (cell : Cell) :
    ((chart.add retention f).recordsOf cell).map (·.key) =
      (chart.recordsOf cell).map (·.key) ++ [f.key].filter (·.cell = cell) := by
  by_cases hcell : f.key.cell = cell
  · subst hcell
    rw [recordsOf_add_of_not_holds h, List.map_append, List.filter_cons_of_pos (by simp)]
    rfl
  · rw [recordsOf_add_of_ne _ _ _ hcell, List.filter_cons_of_neg (by simpa using hcell),
      List.filter_nil, List.append_nil]

theorem map_key_recordsOf_truncate (chart : Chart) (cell other : Cell) (k : Nat) :
    ((chart.truncate cell k).recordsOf other).map (·.key) =
      (chart.recordsOf other).map (·.key) := by
  rw [recordsOf_truncate]
  split
  · exact Record.map_key_hideBeyond k _
  · rfl

theorem map_key_recordsOf_keepBest (chart : Chart) (cell other : Cell) (k : Nat) :
    ((chart.keepBest cell k).recordsOf other).map (·.key) =
      (chart.recordsOf other).map (·.key) := by
  rw [recordsOf_keepBest]
  split
  · rw [List.map_map]
    exact List.map_congr_left fun record _ => (Record.trims_keepBest k record).key
  · rfl

/-! ## What a chart has collected -/

/-- The chart has the records of these findings, and what they have collected. -/
structure Collects (chart : Chart) (fs : List Finding) : Prop where
  holds_iff : ∀ key, chart.Holds key ↔ key ∈ Finding.keys fs
  size_eq : chart.size = (Finding.keys fs).length
  /-- A record's number is the place of its key among all keys. -/
  number : ∀ key record, chart.lookup? key = some record →
    (Finding.keys fs)[record.number]? = some key
  keys : ∀ cell, (chart.recordsOf cell).map (·.key) = (Finding.keys fs).filter (·.cell = cell)
  ingredients : ∀ key i, i ∈ chart.ingredientsOf key ↔ ∃ f ∈ fs, f.key = key ∧ i = f.ingredient
  backPointers : ∀ key p, p ∈ chart.backPointersOf key ↔ ∃ f ∈ fs, f.key = key ∧ p ∈ f.sources
  derivations : ∀ key, ∀ d ∈ chart.derivationsOf key, ∃ f ∈ fs, f.key = key ∧ d = f.derivation

namespace Collects

variable {fs : List Finding}

theorem empty : Chart.empty.Collects [] where
  holds_iff _ := iff_of_false (fun ⟨_, hr⟩ => nomatch hr) List.not_mem_nil
  size_eq := rfl
  number _ _ hr := nomatch hr
  keys _ := rfl
  ingredients _ _ := iff_of_false List.not_mem_nil fun ⟨_, hf, _⟩ => nomatch hf
  backPointers _ _ := iff_of_false List.not_mem_nil fun ⟨_, hf, _⟩ => nomatch hf
  derivations _ _ hd := nomatch hd

/-- A key that is known keeps its number, and a new one gets the next. -/
theorem number_add (h : chart.Collects fs) (retention : Retention) (f : Finding)
    {key : BackPointer} {record : Record}
    (hr : (chart.add retention f).lookup? key = some record) :
    (Finding.keys (fs ++ [f]))[record.number]? = some key := by
  rw [Finding.keys_append_singleton]
  have hknown : ∀ old, chart.lookup? key = some old →
      (if f.key ∈ Finding.keys fs then Finding.keys fs
        else Finding.keys fs ++ [f.key])[old.number]? = some key := by
    intro old ho
    have hold := h.number key old ho
    split
    · exact hold
    · rw [List.getElem?_append_left (List.getElem?_eq_some_iff.1 hold).1, hold]
  obtain ⟨-, hold⟩ | ⟨rfl, hnone, rfl⟩ | ⟨old, rfl, hold, rfl⟩ := cases_of_lookup?_add hr
  · exact hknown record hold
  · have hnew : f.key ∉ Finding.keys fs := fun hm => by
      obtain ⟨old, ho⟩ := (h.holds_iff _).2 hm
      rw [hnone] at ho
      cases ho
    rw [if_neg hnew, Record.ofFinding, h.size_eq, List.getElem?_concat_length]
  · exact hknown old hold

theorem add (h : chart.Collects fs) (hk : chart.Keyed) (retention : Retention) (f : Finding) :
    (chart.add retention f).Collects (fs ++ [f]) where
  holds_iff key := by
    rw [holds_add, h.holds_iff, Finding.mem_keys, Finding.mem_keys]
    simp [or_and_right, exists_or]
  size_eq := by
    rw [Finding.keys_append_singleton]
    by_cases hf : chart.Holds f.key
    · rw [size_add_of_holds hf, h.size_eq, if_pos ((h.holds_iff _).1 hf)]
    · rw [size_add_of_not_holds hf, h.size_eq, if_neg (mt (h.holds_iff _).2 hf),
        List.length_append, List.length_singleton]
  number _ _ hr := h.number_add retention f hr
  keys cell := by
    rw [Finding.keys_append_singleton]
    by_cases hf : chart.Holds f.key
    · rw [map_key_recordsOf_add_of_holds hk hf, h.keys, if_pos ((h.holds_iff _).1 hf)]
    · rw [map_key_recordsOf_add_of_not_holds hf, h.keys, if_neg (mt (h.holds_iff _).2 hf),
        List.filter_append]
  ingredients key i := by
    rw [mem_ingredientsOf_add, h.ingredients]
    simp [or_and_right, exists_or]
  backPointers key p := by
    rw [mem_backPointersOf_add, h.backPointers]
    simp [or_and_right, exists_or]
  derivations key d hd := by
    rcases mem_derivationsOf_add _ _ _ hd with hd | hd
    · obtain ⟨g, hg, hk⟩ := h.derivations key d hd
      exact ⟨g, List.mem_append_left _ hg, hk⟩
    · exact ⟨f, List.mem_append_right _ (List.mem_singleton_self f), hd⟩

theorem truncate (h : chart.Collects fs) (cell : Cell) (k : Nat) :
    (chart.truncate cell k).Collects fs where
  holds_iff key := ((trims_truncate chart cell k).holds key).trans (h.holds_iff key)
  size_eq := h.size_eq
  number key record hr := by
    obtain ⟨old, ho, rfl | rfl⟩ := exists_of_lookup?_truncate hr
    · exact h.number key record ho
    · exact h.number key old ho
  keys other := (map_key_recordsOf_truncate chart cell other k).trans (h.keys other)
  ingredients key i := by
    rw [(trims_truncate chart cell k).ingredientsOf]
    exact h.ingredients key i
  backPointers key p := by
    rw [(trims_truncate chart cell k).backPointersOf]
    exact h.backPointers key p
  derivations key d hd := h.derivations key d ((trims_truncate chart cell k).derivationsOf hd)

theorem keepBest (h : chart.Collects fs) (cell : Cell) (k : Nat) :
    (chart.keepBest cell k).Collects fs where
  holds_iff key := ((trims_keepBest chart cell k).holds key).trans (h.holds_iff key)
  size_eq := h.size_eq
  number key record hr := by
    obtain ⟨old, ho, rfl | rfl⟩ := exists_of_lookup?_keepBest hr
    · exact h.number key record ho
    · rw [Record.number_keepBest]
      exact h.number key old ho
  keys other := (map_key_recordsOf_keepBest chart cell other k).trans (h.keys other)
  ingredients key i := by
    rw [(trims_keepBest chart cell k).ingredientsOf]
    exact h.ingredients key i
  backPointers key p := by
    rw [(trims_keepBest chart cell k).backPointersOf]
    exact h.backPointers key p
  derivations key d hd := h.derivations key d ((trims_keepBest chart cell k).derivationsOf hd)

end Collects

/-! ## What is hidden -/

/-- The record of the key is hidden. -/
def Hides (chart : Chart) (key : BackPointer) : Prop :=
  ∃ record, chart.lookup? key = some record ∧ record.hidden = true

theorem Hides.add {key : BackPointer} (h : chart.Hides key) (retention : Retention) (f : Finding) :
    (chart.add retention f).Hides key := by
  obtain ⟨record, hl, hh⟩ := h
  by_cases hkey : f.key = key
  · subst hkey
    exact ⟨_, lookup?_add_of_lookup? _ _ _ hl, hh⟩
  · exact ⟨record, (lookup?_add_of_ne _ _ _ hkey).trans hl, hh⟩

theorem Hides.truncate {key : BackPointer} (h : chart.Hides key) (cell : Cell) (k : Nat) :
    (chart.truncate cell k).Hides key := by
  obtain ⟨record, hl, hh⟩ := h
  rcases lookup?_truncate chart cell k key with ht | ht
  · exact ⟨record, ht.trans hl, hh⟩
  · rw [hl] at ht
    exact ⟨record.hide, ht, rfl⟩

theorem Hides.keepBest {key : BackPointer} (h : chart.Hides key) (cell : Cell) (k : Nat) :
    (chart.keepBest cell k).Hides key := by
  obtain ⟨record, hl, hh⟩ := h
  unfold Hides
  rw [lookup?_keepBest, hl]
  split
  · exact ⟨_, rfl, (Record.hidden_keepBest k record).trans hh⟩
  · exact ⟨record, rfl, hh⟩

/-- What is hidden has no derivations. -/
def Emptied (chart : Chart) : Prop :=
  ∀ key record, chart.lookup? key = some record → record.hidden = true →
    record.derivations.toList = []

theorem Emptied.add (h : chart.Emptied) (retention : Retention) (f : Finding) :
    (chart.add retention f).Emptied := by
  intro key record hr hh
  obtain ⟨-, hold⟩ | ⟨rfl, -, rfl⟩ | ⟨old, rfl, hold, rfl⟩ := cases_of_lookup?_add hr
  · exact h key record hold hh
  · cases hh
  · have hhidden : old.hidden = true := hh
    simp only [Record.extend, Record.retains, hhidden, Bool.not_true, Bool.false_and,
      Bool.false_eq_true, if_false]
    exact h _ old hold hhidden

theorem Emptied.truncate (h : chart.Emptied) (cell : Cell) (k : Nat) :
    (chart.truncate cell k).Emptied := by
  intro key record hr hh
  obtain ⟨old, ho, rfl | rfl⟩ := exists_of_lookup?_truncate hr
  · exact h key record ho hh
  · rfl

theorem Emptied.keepBest (h : chart.Emptied) (cell : Cell) (k : Nat) :
    (chart.keepBest cell k).Emptied := by
  intro key record hr hh
  obtain ⟨old, ho, rfl | rfl⟩ := exists_of_lookup?_keepBest hr
  · exact h key record ho hh
  · rw [Record.hidden_keepBest] at hh
    exact List.eq_nil_of_subset_nil fun d hd => h key old ho hh ▸ Record.mem_keepBest hd

theorem Made.emptied (h : chart.Made) : chart.Emptied := by
  induction h with
  | empty => exact nofun
  | add retention f _ ih => exact ih.add retention f
  | truncate cell k _ ih => exact ih.truncate cell k
  | keepBest cell k _ ih => exact ih.keepBest cell k

/-! ## Actions -/

/-- Something that is done to a chart. -/
inductive Action where
  | add (retention : Retention) (f : Finding)
  | truncate (cell : Cell) (k : Nat)
  | keepBest (cell : Cell) (k : Nat)

def Action.finding? : Action → Option Finding
  | .add _ f => some f
  | .truncate .. | .keepBest .. => none

/-- Everything that was found, in order. -/
def findings (actions : List Action) : List Finding :=
  actions.filterMap Action.finding?

section Findings

variable (actions : List Action)

theorem findings_append (more : List Action) :
    findings (actions ++ more) = findings actions ++ findings more :=
  List.filterMap_append

theorem findings_append_add (retention : Retention) (f : Finding) :
    findings (actions ++ [.add retention f]) = findings actions ++ [f] :=
  findings_append actions _

theorem findings_append_truncate (cell : Cell) (k : Nat) :
    findings (actions ++ [.truncate cell k]) = findings actions :=
  (findings_append actions _).trans (List.append_nil _)

theorem findings_append_keepBest (cell : Cell) (k : Nat) :
    findings (actions ++ [.keepBest cell k]) = findings actions :=
  (findings_append actions _).trans (List.append_nil _)

end Findings

def act (chart : Chart) : Action → Chart
  | .add retention f => chart.add retention f
  | .truncate cell k => chart.truncate cell k
  | .keepBest cell k => chart.keepBest cell k

/-- The chart after several actions, one after the other. -/
def after (chart : Chart) (actions : List Action) : Chart :=
  actions.foldl act chart

theorem after_append (chart : Chart) (actions more : List Action) :
    chart.after (actions ++ more) = (chart.after actions).after more :=
  List.foldl_append

theorem Made.act (h : chart.Made) (action : Action) : (chart.act action).Made := by
  cases action with
  | add retention f => exact h.add retention f
  | truncate cell k => exact h.truncate cell k
  | keepBest cell k => exact h.keepBest cell k

theorem Made.after (h : chart.Made) (actions : List Action) : (chart.after actions).Made := by
  induction actions generalizing chart with
  | nil => exact h
  | cons action actions ih => exact ih (h.act action)

theorem Hides.act {key : BackPointer} (h : chart.Hides key) (action : Action) :
    (chart.act action).Hides key := by
  cases action with
  | add retention f => exact h.add retention f
  | truncate cell k => exact h.truncate cell k
  | keepBest cell k => exact h.keepBest cell k

theorem Hides.after {key : BackPointer} (h : chart.Hides key) (actions : List Action) :
    (chart.after actions).Hides key := by
  induction actions generalizing chart with
  | nil => exact h
  | cons action actions ih => exact ih (h.act action)

theorem collects_after (actions : List Action) :
    (Chart.empty.after actions).Collects (findings actions) := by
  induction actions using List.reverseRecOn with
  | nil => exact .empty
  | append_singleton actions action ih =>
    rw [after_append]
    cases action with
    | add retention f =>
      rw [findings_append_add]
      exact ih.add (Made.empty.after actions).keyed retention f
    | truncate cell k =>
      rw [findings_append_truncate]
      exact ih.truncate cell k
    | keepBest cell k =>
      rw [findings_append_keepBest]
      exact ih.keepBest cell k

/-! ## Keys and records -/

theorem Made.lookup?_iff (h : chart.Made) {key : BackPointer} {record : Record} :
    chart.lookup? key = some record ↔ record ∈ chart.records ∧ record.key = key := by
  constructor
  · intro hr
    exact ⟨mem_records.2 ⟨key, hr⟩, h.keyed key record hr⟩
  · rintro ⟨hm, rfl⟩
    obtain ⟨key, hr⟩ := mem_records.1 hm
    rwa [h.keyed key record hr]

theorem Collects.nodup_map_key_recordsOf {fs : List Finding} (h : chart.Collects fs) (cell : Cell) :
    ((chart.recordsOf cell).map (·.key)).Nodup := by
  rw [h.keys]
  exact (Finding.nodup_keys fs).filter _

theorem Collects.nodup_map_key_records {fs : List Finding} (h : chart.Collects fs) :
    (chart.records.map (·.key)).Nodup := by
  have hcells : chart.cells.Nodup := Numbering.nodup_toList _
  rw [records_eq_flatMap, List.map_flatMap, List.nodup_flatMap]
  refine ⟨fun cell _ => h.nodup_map_key_recordsOf cell, hcells.imp fun {cell other} hne => ?_⟩
  -- the keys of a cell bear its name
  intro key hk hother
  simp only [h.keys, List.mem_filter, decide_eq_true_iff] at hk hother
  exact hne (hk.2.symm.trans hother.2)

/-- The records of a cell are those of its keys. -/
theorem Collects.recordsOf_eq {fs : List Finding} (h : chart.Collects fs) (hk : chart.Keyed)
    (cell : Cell) : chart.recordsOf cell =
      ((Finding.keys fs).filter (·.cell = cell)).filterMap chart.lookup? := by
  rw [← h.keys, List.filterMap_map]
  refine List.filterMap_some.symm.trans (List.filterMap_congr fun record hr => ?_)
  obtain ⟨meaning, hl⟩ := mem_recordsOf.1 hr
  rw [Function.comp_apply, hk _ record hl, hl]

theorem Collects.exists_number_iff {fs : List Finding} (h : chart.Collects fs) (key : BackPointer)
    (i : Nat) : (∃ record, chart.lookup? key = some record ∧ record.number = i) ↔
      (Finding.keys fs)[i]? = some key := by
  constructor
  · rintro ⟨record, hr, rfl⟩
    exact h.number key record hr
  · intro hi
    obtain ⟨record, hr⟩ := (h.holds_iff key).2 (List.mem_of_getElem? hi)
    have hnumber := h.number key record hr
    have hlt := (List.getElem?_eq_some_iff.1 hnumber).1
    exact ⟨record, hr, (List.getElem?_inj hlt (Finding.nodup_keys fs)).1 (hnumber.trans hi.symm)⟩

end Chart

end GuidedChart
