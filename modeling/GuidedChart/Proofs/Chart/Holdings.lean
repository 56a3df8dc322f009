import GuidedChart.Chart.Beam
import Mathlib.Data.Set.Card

/-!
# What a chart holds

A chart is seen through what it holds for each key: whether there is a record, and the ingredients,
back-pointers, derivations and flag of that record. A finding adds to what is held for its own key
and to nothing else; a beam takes derivations away and nothing else (`Trims`). All that later proofs
need of charts is said here in these terms.
-/

namespace GuidedChart

namespace Chart

/-- Is there a record for the key, hidden or not? -/
def Holds (chart : Chart) (key : BackPointer) : Prop :=
  ∃ record, chart.lookup? key = some record

/-- The ways to the meaning of a key. -/
def ingredientsOf (chart : Chart) (key : BackPointer) : List Ingredient :=
  ((chart.lookup? key).map (·.ingredients.toList)).getD []

def derivationsOf (chart : Chart) (key : BackPointer) : List Derivation :=
  ((chart.lookup? key).map (·.derivations.toList)).getD []

section Views

variable {chart : Chart} {key : BackPointer} {record : Record}

theorem ingredientsOf_of_lookup? (h : chart.lookup? key = some record) :
    chart.ingredientsOf key = record.ingredients.toList := by
  rw [ingredientsOf, h]
  rfl

theorem backPointersOf_of_lookup? (h : chart.lookup? key = some record) :
    chart.backPointersOf key = record.backPointers.toList := by
  rw [backPointersOf, h]
  rfl

theorem derivationsOf_of_lookup? (h : chart.lookup? key = some record) :
    chart.derivationsOf key = record.derivations.toList := by
  rw [derivationsOf, h]
  rfl

theorem isSingleFormula_of_lookup? (h : chart.lookup? key = some record) :
    chart.isSingleFormula key = record.singleFormula := by
  rw [isSingleFormula, h]

theorem holds_of_mem_derivationsOf {d : Derivation} (h : d ∈ chart.derivationsOf key) :
    chart.Holds key := by
  cases hl : chart.lookup? key with
  | none => simp [derivationsOf, hl] at h
  | some record => exact ⟨record, hl⟩

end Views

/-! ## Well-kept charts -/

/-- Each record bears the key it is kept under. -/
def Keyed (chart : Chart) : Prop :=
  ∀ key record, chart.lookup? key = some record → record.key = key

/-- Every record may be read. -/
def Visible (chart : Chart) : Prop :=
  ∀ key record, chart.lookup? key = some record → record.hidden = false

/-- Every record of the cell may be read. -/
def VisibleIn (chart : Chart) (cell : Cell) : Prop :=
  ∀ key, key.cell = cell → ∀ record, chart.lookup? key = some record → record.hidden = false

/-- Every record may be read and has a derivation to be read. -/
def Readable (chart : Chart) : Prop :=
  ∀ key record, chart.lookup? key = some record →
    record.hidden = false ∧ record.derivations.toList ≠ []

/-- A record that may be read has a derivation to be read. -/
def Stocked (chart : Chart) : Prop :=
  ∀ key record, chart.lookup? key = some record → record.hidden = false →
    record.derivations.toList ≠ []

/-- A record that is flagged has derivations of one formula only. -/
def Uniform (chart : Chart) : Prop :=
  ∀ key, chart.isSingleFormula key = true →
    ∀ d ∈ chart.derivationsOf key, ∀ e ∈ chart.derivationsOf key, d.formula = e.formula

/-- The size counts the keys that are held. -/
structure Sized (chart : Chart) : Prop where
  finite : {key | chart.Holds key}.Finite
  size_eq : chart.size = {key | chart.Holds key}.ncard

theorem Visible.visibleIn {chart : Chart} (h : chart.Visible) (cell : Cell) :
    chart.VisibleIn cell :=
  fun key _ record hr => h key record hr

theorem Readable.visible {chart : Chart} (h : chart.Readable) : chart.Visible :=
  fun key record hr => (h key record hr).1

theorem Readable.stocked {chart : Chart} (h : chart.Readable) : chart.Stocked :=
  fun key record hr _ => (h key record hr).2

theorem Readable.derivationsOf_ne_nil {chart : Chart} (h : chart.Readable) {key : BackPointer}
    (hk : chart.Holds key) : chart.derivationsOf key ≠ [] := by
  obtain ⟨record, hr⟩ := hk
  rw [derivationsOf_of_lookup? hr]
  exact (h key record hr).2

theorem Sized.length_le {chart : Chart} (h : chart.Sized) {keys : List BackPointer}
    (hn : keys.Nodup) (hk : ∀ key ∈ keys, chart.Holds key) : keys.length ≤ chart.size := by
  have hsub : (keys.toFinset : Set BackPointer) ⊆ {key | chart.Holds key} :=
    fun key hm => hk key (List.mem_toFinset.1 (Finset.mem_coe.1 hm))
  rw [h.size_eq, ← List.toFinset_card_of_nodup hn, ← Set.ncard_coe_finset]
  exact Set.ncard_le_ncard hsub h.finite

/-! ## The records of a cell -/

theorem mem_recordsOf {chart : Chart} {cell : Cell} {record : Record} :
    record ∈ chart.recordsOf cell ↔ ∃ meaning, chart.lookup? ⟨cell, meaning⟩ = some record := by
  cases h : chart.shelves.get? cell with
  | none => simp [recordsOf, lookup?, h]
  | some shelf =>
    simp only [recordsOf, lookup?, h, Option.bind_some]
    exact Catalog.mem_values_iff

/-- The record of a key is found among those of its cell. -/
theorem Keyed.lookup?_eq_find? {chart : Chart} (h : chart.Keyed) (key : BackPointer) :
    chart.lookup? key = (chart.recordsOf key.cell).find? (·.key = key) := by
  cases hf : (chart.recordsOf key.cell).find? (·.key = key) with
  | some record =>
    obtain ⟨meaning, hl⟩ := mem_recordsOf.1 (List.mem_of_find?_eq_some hf)
    have hkey : record.key = key := by simpa using List.find?_some hf
    rwa [← h _ _ hl, hkey] at hl
  | none =>
    refine Option.eq_none_iff_forall_ne_some.2 fun record hl => ?_
    have hne := List.find?_eq_none.1 hf record (mem_recordsOf.2 ⟨key.meaning, hl⟩)
    simp [h _ _ hl] at hne

theorem mem_records {chart : Chart} {record : Record} :
    record ∈ chart.records ↔ ∃ key, chart.lookup? key = some record := by
  simp only [records, List.mem_flatMap, Catalog.mem_values_iff, lookup?, Option.bind_eq_some_iff]
  constructor
  · rintro ⟨shelf, ⟨cell, hs⟩, meaning, hm⟩
    exact ⟨⟨cell, meaning⟩, shelf, hs, hm⟩
  · rintro ⟨key, shelf, hs, hm⟩
    exact ⟨shelf, ⟨key.cell, hs⟩, key.meaning, hm⟩

theorem mem_entries {chart : Chart} {cell : Cell} {record : Record} :
    record ∈ chart.entries cell ↔
      (∃ meaning, chart.lookup? ⟨cell, meaning⟩ = some record) ∧ record.hidden = false := by
  rw [entries, List.mem_filter, mem_recordsOf, Bool.not_eq_true']

theorem exists_derivationsOf_of_mem_derivations {chart : Chart} {cell : Cell} {d : Derivation}
    (h : d ∈ chart.derivations cell) : ∃ meaning, d ∈ chart.derivationsOf ⟨cell, meaning⟩ := by
  obtain ⟨record, hr, hd⟩ := List.mem_flatMap.1 h
  obtain ⟨⟨meaning, hl⟩, -⟩ := mem_entries.1 hr
  exact ⟨meaning, by rwa [derivationsOf_of_lookup? hl]⟩

/-! ## Findings -/

section Add

variable (chart : Chart) (retention : Retention) (f : Finding)

theorem lookup?_add_of_ne {key : BackPointer} (h : f.key ≠ key) :
    (chart.add retention f).lookup? key = chart.lookup? key := by
  rw [lookup?_add, if_neg h]

theorem recordsOf_add_of_ne {cell : Cell} (h : f.key.cell ≠ cell) :
    (chart.add retention f).recordsOf cell = chart.recordsOf cell := by
  simp only [recordsOf, add, Catalog.get?_alter, if_neg h]

theorem lookup?_add_of_lookup? {record : Record} (h : chart.lookup? f.key = some record) :
    (chart.add retention f).lookup? f.key = some (record.extend retention f) := by
  rw [lookup?_add, if_pos rfl, h]

theorem lookup?_add_of_none (h : chart.lookup? f.key = none) :
    (chart.add retention f).lookup? f.key = some (.ofFinding chart.size f) := by
  rw [lookup?_add, if_pos rfl, h]

theorem holds_add {key : BackPointer} :
    (chart.add retention f).Holds key ↔ chart.Holds key ∨ f.key = key := by
  by_cases h : f.key = key
  · subst h
    simp [Holds, lookup?_add]
  · simp [Holds, lookup?_add_of_ne _ _ _ h, h]

theorem mem_ingredientsOf_add {key : BackPointer} {i : Ingredient} :
    i ∈ (chart.add retention f).ingredientsOf key ↔
      i ∈ chart.ingredientsOf key ∨ f.key = key ∧ i = f.ingredient := by
  by_cases h : f.key = key
  · subst h
    cases hl : chart.lookup? f.key with
    | none =>
      simp [ingredientsOf, lookup?_add_of_none _ _ _ hl, hl, Record.ofFinding,
        Numbering.mem_ofList]
    | some record =>
      simp [ingredientsOf, lookup?_add_of_lookup? _ _ _ hl, hl, Record.extend,
        Numbering.mem_insert]
  · simp [ingredientsOf, lookup?_add_of_ne _ _ _ h, h]

theorem mem_backPointersOf_add {key p : BackPointer} :
    p ∈ (chart.add retention f).backPointersOf key ↔
      p ∈ chart.backPointersOf key ∨ f.key = key ∧ p ∈ f.sources := by
  by_cases h : f.key = key
  · subst h
    cases hl : chart.lookup? f.key with
    | none =>
      simp [backPointersOf, lookup?_add_of_none _ _ _ hl, hl, Record.ofFinding,
        Numbering.mem_ofList]
    | some record =>
      simp [backPointersOf, lookup?_add_of_lookup? _ _ _ hl, hl, Record.extend,
        Numbering.mem_insertAll]
  · simp [backPointersOf, lookup?_add_of_ne _ _ _ h, h]

theorem derivationsOf_add_of_ne {key : BackPointer} (h : f.key ≠ key) :
    (chart.add retention f).derivationsOf key = chart.derivationsOf key := by
  rw [derivationsOf, lookup?_add_of_ne _ _ _ h, derivationsOf]

theorem derivationsOf_add_self :
    (chart.add retention f).derivationsOf f.key = chart.derivationsOf f.key ∨
      (chart.add retention f).derivationsOf f.key =
        chart.derivationsOf f.key ++ [f.derivation] := by
  cases hl : chart.lookup? f.key with
  | none =>
    right
    rw [derivationsOf_of_lookup? (lookup?_add_of_none _ _ _ hl), derivationsOf, hl]
    rfl
  | some record =>
    rw [derivationsOf_of_lookup? (lookup?_add_of_lookup? _ _ _ hl), derivationsOf_of_lookup? hl]
    simp only [Record.extend]
    split
    · exact Or.inr Array.toList_push
    · exact Or.inl rfl

theorem derivationsOf_prefix_add (key : BackPointer) :
    chart.derivationsOf key <+: (chart.add retention f).derivationsOf key := by
  by_cases h : f.key = key
  · subst h
    rcases derivationsOf_add_self chart retention f with he | he
    · rw [he]
    · rw [he]
      exact List.prefix_append _ _
  · rw [derivationsOf_add_of_ne _ _ _ h]

theorem mem_derivationsOf_add {key : BackPointer} {d : Derivation}
    (h : d ∈ (chart.add retention f).derivationsOf key) :
    d ∈ chart.derivationsOf key ∨ f.key = key ∧ d = f.derivation := by
  by_cases hk : f.key = key
  · subst hk
    rcases derivationsOf_add_self chart retention f with he | he
    · exact Or.inl (he ▸ h)
    · rw [he, List.mem_append, List.mem_singleton] at h
      exact h.imp_right fun hd => ⟨rfl, hd⟩
  · rw [derivationsOf_add_of_ne _ _ _ hk] at h
    exact Or.inl h

theorem isSingleFormula_add_of_ne {key : BackPointer} (h : f.key ≠ key) :
    (chart.add retention f).isSingleFormula key = chart.isSingleFormula key := by
  rw [isSingleFormula, lookup?_add_of_ne _ _ _ h, isSingleFormula]

/-- A finding from an ambiguous source makes its record ambiguous. -/
theorem sourcesSingle_of_isSingleFormula_add
    (h : (chart.add retention f).isSingleFormula f.key = true) : f.sourcesSingle = true := by
  cases hl : chart.lookup? f.key with
  | none =>
    rw [isSingleFormula_of_lookup? (lookup?_add_of_none _ _ _ hl)] at h
    exact h
  | some record =>
    rw [isSingleFormula_of_lookup? (lookup?_add_of_lookup? _ _ _ hl), Record.extend] at h
    simp only [Bool.and_eq_true] at h
    exact h.1.2

theorem isSingleFormula_of_add {key : BackPointer}
    (h : (chart.add retention f).isSingleFormula key = true) (hk : chart.Holds key) :
    chart.isSingleFormula key = true := by
  by_cases he : f.key = key
  · subst he
    obtain ⟨record, hl⟩ := hk
    rw [isSingleFormula_of_lookup? (lookup?_add_of_lookup? _ _ _ hl), Record.extend] at h
    simp only [Bool.and_eq_true] at h
    rw [isSingleFormula_of_lookup? hl]
    exact h.1.1
  · rwa [isSingleFormula_add_of_ne _ _ _ he] at h

end Add

section AddWellKept

variable {chart : Chart} {retention : Retention} {f : Finding}

/-- What is there after a finding is the record of another key, a new one, or one that has been
extended. -/
theorem cases_of_lookup?_add {key : BackPointer} {record : Record}
    (hr : (chart.add retention f).lookup? key = some record) :
    (f.key ≠ key ∧ chart.lookup? key = some record) ∨
    (f.key = key ∧ chart.lookup? key = none ∧ record = .ofFinding chart.size f) ∨
    ∃ old, f.key = key ∧ chart.lookup? key = some old ∧ record = old.extend retention f := by
  by_cases hk : f.key = key
  · subst hk
    cases hl : chart.lookup? f.key with
    | none =>
      rw [lookup?_add_of_none _ _ _ hl] at hr
      exact Or.inr (Or.inl ⟨rfl, rfl, (Option.some.inj hr).symm⟩)
    | some old =>
      rw [lookup?_add_of_lookup? _ _ _ hl] at hr
      exact Or.inr (Or.inr ⟨old, rfl, rfl, (Option.some.inj hr).symm⟩)
  · exact Or.inl ⟨hk, (lookup?_add_of_ne _ _ _ hk).symm.trans hr⟩

theorem Keyed.add (h : chart.Keyed) : (chart.add retention f).Keyed := by
  intro key record hr
  obtain ⟨-, hold⟩ | ⟨rfl, -, rfl⟩ | ⟨old, rfl, hold, rfl⟩ := cases_of_lookup?_add hr
  · exact h key record hold
  · rfl
  · exact h f.key old hold

theorem VisibleIn.add {cell : Cell} (h : chart.VisibleIn cell) :
    (chart.add retention f).VisibleIn cell := by
  intro key hcell record hr
  obtain ⟨-, hold⟩ | ⟨rfl, -, rfl⟩ | ⟨old, rfl, hold, rfl⟩ := cases_of_lookup?_add hr
  · exact h key hcell record hold
  · rfl
  · exact h f.key hcell old hold

theorem Visible.add (h : chart.Visible) : (chart.add retention f).Visible :=
  fun key record hr => (h.visibleIn key.cell).add key rfl record hr

theorem Stocked.add (h : chart.Stocked) : (chart.add retention f).Stocked := by
  intro key record hr hh
  obtain ⟨-, hold⟩ | ⟨rfl, -, rfl⟩ | ⟨old, rfl, hold, rfl⟩ := cases_of_lookup?_add hr
  · exact h key record hold hh
  · exact List.cons_ne_nil _ _
  · have hprefix := derivationsOf_prefix_add chart retention f f.key
    rw [derivationsOf_of_lookup? hold, derivationsOf_of_lookup? hr] at hprefix
    intro hnil
    rw [hnil] at hprefix
    exact h f.key old hold hh (List.prefix_nil.1 hprefix)

theorem Readable.add (h : chart.Readable) : (chart.add retention f).Readable := by
  intro key record hr
  have hvisible := h.visible.add key record hr
  exact ⟨hvisible, h.stocked.add key record hr hvisible⟩

/-- Where all derivations are kept and nothing is hidden, a finding adds its own derivation. -/
theorem VisibleIn.derivationsOf_add (h : chart.VisibleIn f.key.cell) :
    (chart.add .all f).derivationsOf f.key = chart.derivationsOf f.key ++ [f.derivation] := by
  cases hl : chart.lookup? f.key with
  | none =>
    rw [derivationsOf_of_lookup? (lookup?_add_of_none _ _ _ hl), derivationsOf, hl]
    rfl
  | some record =>
    rw [derivationsOf_of_lookup? (lookup?_add_of_lookup? _ _ _ hl), derivationsOf_of_lookup? hl]
    simp [Record.extend, Record.retains, h _ rfl _ hl]

/-- A finding that leaves its record flagged has the formula of every derivation kept there. -/
theorem Uniform.formula_eq_of_add (h : chart.Uniform)
    (hs : (chart.add retention f).isSingleFormula f.key = true) {d : Derivation}
    (hd : d ∈ (chart.add retention f).derivationsOf f.key) :
    d.formula = f.derivation.formula := by
  rcases mem_derivationsOf_add chart retention f hd with hold | ⟨-, rfl⟩
  · obtain ⟨record, hl⟩ := holds_of_mem_derivationsOf hold
    have hflag := isSingleFormula_of_add _ _ _ hs ⟨record, hl⟩
    rw [isSingleFormula_of_lookup? (lookup?_add_of_lookup? _ _ _ hl), Record.extend] at hs
    simp only [Bool.and_eq_true, Record.agrees] at hs
    have hmem := hold
    rw [derivationsOf_of_lookup? hl] at hmem
    -- the finding was compared with the first derivation, and all others are like the first
    have hpos : 0 < record.derivations.size := by
      have := List.length_pos_of_mem hmem
      rwa [Array.length_toList] at this
    have hfirst : record.derivations[0].formula = f.derivation.formula := by
      simpa [Array.getElem?_eq_getElem hpos] using hs.2
    rw [← hfirst]
    refine h _ hflag d hold _ ?_
    rw [derivationsOf_of_lookup? hl]
    exact Array.getElem_mem_toList hpos
  · rfl

theorem Uniform.add (h : chart.Uniform) : (chart.add retention f).Uniform := by
  intro key hs d hd e he
  by_cases hk : f.key = key
  · subst hk
    rw [h.formula_eq_of_add hs hd, h.formula_eq_of_add hs he]
  · rw [isSingleFormula_add_of_ne _ _ _ hk] at hs
    rw [derivationsOf_add_of_ne _ _ _ hk] at hd he
    exact h key hs d hd e he

theorem Sized.add (h : chart.Sized) : (chart.add retention f).Sized := by
  have hset : {key | (chart.add retention f).Holds key} = insert f.key {key | chart.Holds key} := by
    ext key
    rw [Set.mem_insert_iff, or_comm, eq_comm]
    exact holds_add ..
  refine ⟨hset ▸ h.finite.insert _, ?_⟩
  rw [hset]
  cases hl : chart.lookup? f.key with
  | none =>
    have hnot : f.key ∉ {key | chart.Holds key} := by
      rintro ⟨record, hr⟩
      rw [hl] at hr
      cases hr
    rw [Set.ncard_insert_of_notMem hnot h.finite, ← h.size_eq]
    simp [Chart.add, hl]
  | some record =>
    rw [Set.insert_eq_of_mem (show f.key ∈ {key | chart.Holds key} from ⟨record, hl⟩), ← h.size_eq]
    simp [Chart.add, hl]

theorem numEntries_add (h : chart.numEntries = chart.size) :
    (chart.add retention f).numEntries = (chart.add retention f).size := by
  simp only [Chart.add, h]

end AddWellKept

/-! ### Several findings -/

/-- The chart after several findings, one after the other. -/
def addAll (retention : Retention) (chart : Chart) (fs : List Finding) : Chart :=
  fs.foldl (·.add retention ·) chart

section AddAll

variable {retention : Retention} {chart : Chart} {fs : List Finding}

theorem addAll_append (gs : List Finding) :
    addAll retention chart (fs ++ gs) = addAll retention (addAll retention chart fs) gs :=
  List.foldl_append

theorem recordsOf_addAll_of_ne {cell : Cell} (h : ∀ f ∈ fs, f.key.cell ≠ cell) :
    (addAll retention chart fs).recordsOf cell = chart.recordsOf cell := by
  induction fs generalizing chart with
  | nil => rfl
  | cons f fs ih =>
    rw [addAll, List.foldl_cons, ← addAll, ih fun g hg => h g (List.mem_cons_of_mem _ hg),
      recordsOf_add_of_ne _ _ _ (h f List.mem_cons_self)]

theorem holds_addAll {key : BackPointer} :
    (addAll retention chart fs).Holds key ↔ chart.Holds key ∨ ∃ f ∈ fs, f.key = key := by
  induction fs generalizing chart with
  | nil => simp [addAll]
  | cons f fs ih =>
    rw [addAll, List.foldl_cons, ← addAll, ih, holds_add]
    simp [or_assoc]

theorem mem_ingredientsOf_addAll {key : BackPointer} {i : Ingredient} :
    i ∈ (addAll retention chart fs).ingredientsOf key ↔
      i ∈ chart.ingredientsOf key ∨ ∃ f ∈ fs, f.key = key ∧ i = f.ingredient := by
  induction fs generalizing chart with
  | nil => simp [addAll]
  | cons f fs ih =>
    rw [addAll, List.foldl_cons, ← addAll, ih, mem_ingredientsOf_add]
    simp [or_assoc]

theorem mem_backPointersOf_addAll {key p : BackPointer} :
    p ∈ (addAll retention chart fs).backPointersOf key ↔
      p ∈ chart.backPointersOf key ∨ ∃ f ∈ fs, f.key = key ∧ p ∈ f.sources := by
  induction fs generalizing chart with
  | nil => simp [addAll]
  | cons f fs ih =>
    rw [addAll, List.foldl_cons, ← addAll, ih, mem_backPointersOf_add]
    simp [or_assoc]

theorem mem_derivationsOf_addAll {key : BackPointer} {d : Derivation}
    (h : d ∈ (addAll retention chart fs).derivationsOf key) :
    d ∈ chart.derivationsOf key ∨ ∃ f ∈ fs, f.key = key ∧ d = f.derivation := by
  induction fs generalizing chart with
  | nil => exact Or.inl h
  | cons f fs ih =>
    rcases ih h with hd | ⟨g, hg, hk⟩
    · rcases mem_derivationsOf_add _ _ _ hd with hd | hd
      · exact Or.inl hd
      · exact Or.inr ⟨f, List.mem_cons_self, hd⟩
    · exact Or.inr ⟨g, List.mem_cons_of_mem _ hg, hk⟩

theorem derivationsOf_prefix_addAll (key : BackPointer) :
    chart.derivationsOf key <+: (addAll retention chart fs).derivationsOf key := by
  induction fs generalizing chart with
  | nil => exact List.prefix_refl _
  | cons f fs ih => exact (derivationsOf_prefix_add chart retention f key).trans ih

theorem isSingleFormula_of_addAll {key : BackPointer}
    (h : (addAll retention chart fs).isSingleFormula key = true) (hk : chart.Holds key) :
    chart.isSingleFormula key = true := by
  induction fs generalizing chart with
  | nil => exact h
  | cons f fs ih =>
    exact isSingleFormula_of_add _ _ _ (ih h ((holds_add ..).2 (Or.inl hk))) hk

theorem Keyed.addAll (h : chart.Keyed) (retention : Retention) (fs : List Finding) :
    (addAll retention chart fs).Keyed :=
  List.foldlRecOn fs _ h fun _ hc _ _ => hc.add

theorem Visible.addAll (h : chart.Visible) (retention : Retention) (fs : List Finding) :
    (addAll retention chart fs).Visible :=
  List.foldlRecOn fs _ h fun _ hc _ _ => hc.add

theorem Readable.addAll (h : chart.Readable) (retention : Retention) (fs : List Finding) :
    (addAll retention chart fs).Readable :=
  List.foldlRecOn fs _ h fun _ hc _ _ => hc.add

theorem Uniform.addAll (h : chart.Uniform) (retention : Retention) (fs : List Finding) :
    (addAll retention chart fs).Uniform :=
  List.foldlRecOn fs _ h fun _ hc _ _ => hc.add

theorem Sized.addAll (h : chart.Sized) (retention : Retention) (fs : List Finding) :
    (addAll retention chart fs).Sized :=
  List.foldlRecOn fs _ h fun _ hc _ _ => hc.add

theorem numEntries_addAll (h : chart.numEntries = chart.size) :
    (addAll retention chart fs).numEntries = (addAll retention chart fs).size :=
  List.foldlRecOn (motive := fun c : Chart => c.numEntries = c.size) fs _ h fun _ hc _ _ =>
    numEntries_add hc

/-- A flag that outlasts several findings vouches for each of them: its sources were flagged, and
its formula is that of every derivation kept. -/
theorem formula_eq_of_addAll (hr : chart.Readable) (hu : chart.Uniform) {f : Finding}
    (hf : f ∈ fs) (hs : (addAll retention chart fs).isSingleFormula f.key = true) :
    f.sourcesSingle = true ∧ ∀ d ∈ (addAll retention chart fs).derivationsOf f.key,
      d.formula = f.derivation.formula := by
  obtain ⟨before, after, rfl⟩ := List.append_of_mem hf
  have hr' := hr.addAll retention before
  have hu' := hu.addAll retention before
  rw [addAll_append] at hs ⊢
  -- the chart from the finding on
  change (addAll retention ((addAll retention chart before).add retention f) after).isSingleFormula
    f.key = true at hs
  change _ ∧ ∀ d ∈ (addAll retention ((addAll retention chart before).add retention f)
    after).derivationsOf f.key, _
  have hheld : ((addAll retention chart before).add retention f).Holds f.key :=
    (holds_add ..).2 (Or.inr rfl)
  have hflag : ((addAll retention chart before).add retention f).isSingleFormula f.key = true :=
    isSingleFormula_of_addAll hs hheld
  refine ⟨sourcesSingle_of_isSingleFormula_add _ _ _ hflag, fun d hd => ?_⟩
  -- some derivation was kept when the flag vouched for the finding, and it is kept still
  obtain ⟨e, he⟩ := List.exists_mem_of_ne_nil _ (hr'.add.derivationsOf_ne_nil hheld)
  have hde : d.formula = e.formula :=
    hu'.add.addAll retention after f.key hs d hd e ((derivationsOf_prefix_addAll f.key).subset he)
  rw [hde, hu'.formula_eq_of_add hflag he]

end AddAll

end Chart

end GuidedChart
