import GuidedChart.Proofs.Chart.Trims
import GuidedChart.Proofs.Sense

/-!
# In which order derivations are kept

The derivations of a cell are kept meaning by meaning: a derivation that is filed comes after the
last one of its sense, and at the end if it is the first of its sense (`derivations_addAll`). So
what derivations of some senses there are, and in which order, does not depend on when derivations
of other senses were filed between them (`Derivation.filter_placeAll`). Where the order does not
matter, a derivation that is filed is one more, of whatever sense (`derivations_addAll_perm`).

A cell fits a beam if no sense has more derivations there than the beam leaves, and then the beam
changes nothing that can be read (`entries_keepBest_of_le`).
-/

namespace GuidedChart

namespace Derivation

open Classical in
/-- The derivations with one more, after the last one of its sense. -/
noncomputable def place : List Derivation → Derivation → List Derivation
  | [], d => [d]
  | e :: es, d =>
    if e.sense = d.sense ∧ ∀ x ∈ es, x.sense ≠ d.sense then e :: d :: es else e :: place es d

noncomputable def placeAll (ds es : List Derivation) : List Derivation :=
  es.foldl place ds

section Place

variable {ds es : List Derivation} {d : Derivation}

theorem place_of_forall_ne (h : ∀ e ∈ ds, e.sense ≠ d.sense) : place ds d = ds ++ [d] := by
  induction ds with
  | nil => rfl
  | cons e es ih =>
    rw [place, if_neg fun hc => h e List.mem_cons_self hc.1,
      ih fun x hx => h x (List.mem_cons_of_mem _ hx), List.cons_append]

/-- Where the derivations of a sense stand together, the place is behind them. -/
theorem place_of_forall_eq {before same after : List Derivation} (hn : same ≠ [])
    (hs : ∀ e ∈ same, e.sense = d.sense) (ha : ∀ e ∈ after, e.sense ≠ d.sense) :
    place (before ++ (same ++ after)) d = before ++ ((same ++ [d]) ++ after) := by
  induction before with
  | nil =>
    simp only [List.nil_append]
    induction same with
    | nil => exact absurd rfl hn
    | cons e rest ih =>
      have he := hs e List.mem_cons_self
      cases rest with
      | nil => exact if_pos ⟨he, ha⟩
      | cons f rest =>
        have hf := hs f (List.mem_cons_of_mem _ List.mem_cons_self)
        have hlater : ¬ ∀ x ∈ f :: rest ++ after, x.sense ≠ d.sense := fun hall =>
          hall f List.mem_cons_self hf
        rw [List.cons_append, place, if_neg fun hc => hlater hc.2,
          ih (List.cons_ne_nil _ _) fun x hx => hs x (List.mem_cons_of_mem _ hx)]
        rfl
  | cons e before ih =>
    obtain ⟨f, hf⟩ := List.exists_mem_of_ne_nil _ hn
    have hlater : ¬ ∀ x ∈ before ++ (same ++ after), x.sense ≠ d.sense := fun hall =>
      hall f (List.mem_append_right _ (List.mem_append_left _ hf)) (hs f hf)
    rw [List.cons_append, place, if_neg fun hc => hlater hc.2, ih, List.cons_append]

theorem place_perm (ds : List Derivation) (d : Derivation) : (place ds d).Perm (ds ++ [d]) := by
  induction ds with
  | nil => exact .refl _
  | cons e es ih =>
    unfold place
    split
    · exact (List.perm_append_singleton d es).symm.cons e
    · exact ih.cons e

theorem placeAll_perm (ds es : List Derivation) : (placeAll ds es).Perm (ds ++ es) := by
  induction es generalizing ds with
  | nil => rw [List.append_nil]; exact .refl _
  | cons e es ih =>
    refine (ih (place ds e)).trans (((place_perm ds e).append_right es).trans ?_)
    rw [List.append_assoc, List.singleton_append]

variable {p : Derivation → Bool} (hp : ∀ d e, d.sense = e.sense → p d = p e)

include hp

theorem filter_place : (place ds d).filter p =
    if p d = true then place (ds.filter p) d else ds.filter p := by
  induction ds with
  | nil =>
    cases h : p d <;> simp [place, h]
  | cons e es ih =>
    by_cases hd : p d = true
    · rw [if_pos hd] at ih ⊢
      by_cases he : p e = true
      · rw [List.filter_cons_of_pos he]
        -- the derivations that count are the same with and without the others
        have hlater : (∀ x ∈ es.filter p, x.sense ≠ d.sense) ↔ ∀ x ∈ es, x.sense ≠ d.sense := by
          refine ⟨fun h x hx hxd => ?_, fun h x hx => h x (List.mem_of_mem_filter hx)⟩
          exact h x (List.mem_filter.2 ⟨hx, (hp x d hxd).trans hd⟩) hxd
        by_cases hc : e.sense = d.sense ∧ ∀ x ∈ es, x.sense ≠ d.sense
        · rw [place, if_pos hc, place, if_pos ⟨hc.1, hlater.2 hc.2⟩, List.filter_cons_of_pos he,
            List.filter_cons_of_pos hd]
        · rw [place, if_neg hc, place, if_neg fun h => hc ⟨h.1, hlater.1 h.2⟩,
            List.filter_cons_of_pos he, ih]
      · have hne : ¬ (e.sense = d.sense ∧ ∀ x ∈ es, x.sense ≠ d.sense) := fun hc =>
          he ((hp e d hc.1).trans hd)
        rw [place, if_neg hne, List.filter_cons_of_neg he, List.filter_cons_of_neg he, ih]
    · rw [if_neg hd] at ih ⊢
      unfold place
      split
      · rename_i hc
        have he : ¬ p e = true := fun he => hd ((hp e d hc.1).symm.trans he)
        rw [List.filter_cons_of_neg he, List.filter_cons_of_neg hd, List.filter_cons_of_neg he]
      · rw [List.filter_cons, List.filter_cons, ih]

/-- Derivations of some senses are placed among themselves as they are among all. -/
theorem filter_placeAll :
    (placeAll ds es).filter p = placeAll (ds.filter p) (es.filter p) := by
  induction es generalizing ds with
  | nil => rfl
  | cons e es ih =>
    change (placeAll (place ds e) es).filter p = _
    rw [ih, filter_place hp]
    by_cases he : p e = true
    · rw [if_pos he, List.filter_cons_of_pos he]
      rfl
    · rw [if_neg he, List.filter_cons_of_neg he]

end Place

end Derivation

namespace Chart

open GuidedChart.Derivation (place placeAll)

/-! ## The meanings of a cell -/

/-- The numbers of the meanings of a cell, in the order in which they were first found. -/
def meaningsOf (chart : Chart) (cell : Cell) : List MeaningId :=
  match chart.shelves.get? cell with
  | some shelf => shelf.keys.toList
  | none => []

/-- Does each derivation have the sense of the number it is kept under? -/
def Faithful (chart : Chart) (table : MeaningTable) : Prop :=
  ∀ key, ∀ d ∈ chart.derivationsOf key, table.sense? key.meaning = some d.sense

variable {chart : Chart} {cell : Cell} {table : MeaningTable} {k : Nat}

theorem nodup_meaningsOf (chart : Chart) (cell : Cell) : (chart.meaningsOf cell).Nodup := by
  unfold meaningsOf
  split
  · exact Numbering.nodup_toList _
  · exact List.nodup_nil

theorem map_lookup?_meaningsOf (chart : Chart) (cell : Cell) :
    (chart.meaningsOf cell).map (fun meaning => chart.lookup? ⟨cell, meaning⟩) =
      (chart.recordsOf cell).map some := by
  cases h : chart.shelves.get? cell with
  | none => simp [meaningsOf, recordsOf, h]
  | some shelf =>
    simp only [meaningsOf, recordsOf, lookup?, h, Option.bind_some]
    exact shelf.map_get?_keys

theorem mem_meaningsOf {meaning : MeaningId} :
    meaning ∈ chart.meaningsOf cell ↔ chart.Holds ⟨cell, meaning⟩ := by
  unfold Holds lookup?
  cases h : chart.shelves.get? cell with
  | none => simp [meaningsOf, h]
  | some shelf =>
    simp only [meaningsOf, h, Option.bind_some]
    rw [← Option.isSome_iff_exists, Option.isSome_iff_ne_none, ne_eq, Catalog.get?_eq_none_iff,
      not_not]

theorem meaningsOf_add (chart : Chart) (retention : Retention) (f : Finding) (cell : Cell) :
    (chart.add retention f).meaningsOf cell =
      if f.key.cell = cell ∧ f.key.meaning ∉ chart.meaningsOf cell then
        chart.meaningsOf cell ++ [f.key.meaning]
      else chart.meaningsOf cell := by
  simp only [meaningsOf, add, Catalog.get?_alter]
  by_cases hc : f.key.cell = cell
  · subst hc
    simp only [if_true, true_and, Shelf.add, Catalog.keys_alter]
    cases chart.shelves.get? f.key.cell with
    | none => rfl
    | some shelf =>
      simp only [Option.getD_some]
      by_cases hm : f.key.meaning ∈ shelf.keys.toList
      · rw [if_neg fun h => h hm, Numbering.insert_of_mem hm]
      · rw [if_pos hm, Numbering.toList_insert_of_not_mem hm]
  · simp only [hc, if_false, false_and]

/-- A finding of a new meaning makes a record at the end of its cell. -/
theorem recordsOf_add_of_not_holds {f : Finding} (h : ¬ chart.Holds f.key)
    (retention : Retention) :
    (chart.add retention f).recordsOf f.key.cell =
      chart.recordsOf f.key.cell ++ [.ofFinding chart.size f] := by
  have hnew : f.key.meaning ∉ chart.meaningsOf f.key.cell := fun hm => h (mem_meaningsOf.1 hm)
  have hnone : chart.lookup? f.key = none :=
    Option.eq_none_iff_forall_ne_some.2 fun record hr => h ⟨record, hr⟩
  apply List.map_injective_iff.2 (Option.some_injective Record)
  rw [← map_lookup?_meaningsOf, meaningsOf_add, if_pos ⟨rfl, hnew⟩, List.map_append,
    List.map_append, ← map_lookup?_meaningsOf]
  refine congrArg₂ _ (List.map_congr_left fun meaning hm => ?_) ?_
  · refine lookup?_add_of_ne _ _ _ fun he => hnew ?_
    rw [he]
    exact hm
  · exact congrArg (fun record? => [record?]) (lookup?_add_of_none _ _ _ hnone)

/-- A finding of a known meaning extends the record of the meaning where it stands. -/
theorem recordsOf_add_of_holds {f : Finding} (hk : chart.Keyed) (h : chart.Holds f.key)
    (retention : Retention) :
    (chart.add retention f).recordsOf f.key.cell = (chart.recordsOf f.key.cell).map fun record =>
      if record.key = f.key then record.extend retention f else record := by
  have hold : f.key.meaning ∈ chart.meaningsOf f.key.cell := mem_meaningsOf.2 h
  apply List.map_injective_iff.2 (Option.some_injective Record)
  rw [← map_lookup?_meaningsOf, meaningsOf_add, if_neg fun hc => hc.2 hold, List.map_map]
  have hmap := congrArg (List.map (Option.map fun record : Record =>
    if record.key = f.key then record.extend retention f else record))
    (chart.map_lookup?_meaningsOf f.key.cell)
  rw [List.map_map, List.map_map] at hmap
  refine Eq.trans (List.map_congr_left fun meaning _ => ?_) hmap
  rw [Function.comp_apply, lookup?_add]
  by_cases he : f.key = ⟨f.key.cell, meaning⟩
  · obtain ⟨record, hr⟩ := h
    rw [if_pos he, ← he, hr, Option.map_some, if_pos (hk _ _ hr)]
  · rw [if_neg he]
    cases hr : chart.lookup? ⟨f.key.cell, meaning⟩ with
    | none => rfl
    | some record =>
      have hne : record.key ≠ f.key := fun heq => he (heq.symm.trans (hk _ _ hr))
      rw [Option.map_some, if_neg hne]

theorem VisibleIn.entries_eq (h : chart.VisibleIn cell) :
    chart.entries cell = chart.recordsOf cell := by
  refine List.filter_eq_self.2 fun record hr => ?_
  obtain ⟨meaning, hl⟩ := mem_recordsOf.1 hr
  rw [h _ rfl _ hl]
  rfl

/-- Where nothing is hidden, the derivations of a cell are those of its meanings. -/
theorem derivations_eq_flatMap (h : chart.VisibleIn cell) :
    chart.derivations cell =
      (chart.meaningsOf cell).flatMap fun meaning => chart.derivationsOf ⟨cell, meaning⟩ := by
  have hmap := congrArg (List.flatMap fun record? : Option Record =>
    (record?.map (·.derivations.toList)).getD []) (chart.map_lookup?_meaningsOf cell)
  rw [List.flatMap_map, List.flatMap_map] at hmap
  rw [derivations, h.entries_eq]
  exact hmap.symm

/-! ## Filing -/

section Add

variable {f : Finding}

theorem derivations_add_of_ne (hcell : f.key.cell ≠ cell) :
    (chart.add .all f).derivations cell = chart.derivations cell := by
  rw [derivations, entries, recordsOf_add_of_ne _ _ _ hcell]
  rfl

theorem flatMap_derivationsOf_add {meanings : List MeaningId} (hm : f.key.meaning ∉ meanings) :
    (meanings.flatMap fun meaning => (chart.add .all f).derivationsOf ⟨f.key.cell, meaning⟩) =
      meanings.flatMap fun meaning => chart.derivationsOf ⟨f.key.cell, meaning⟩ := by
  refine List.flatMap_congr fun meaning hmem => derivationsOf_add_of_ne _ _ _ fun hk => hm ?_
  rw [hk]
  exact hmem

/-- A finding of a new meaning goes to the end of its cell. -/
theorem derivations_add_of_not_holds (h : chart.VisibleIn f.key.cell)
    (hf : ¬ chart.Holds f.key) :
    (chart.add .all f).derivations f.key.cell =
      chart.derivations f.key.cell ++ [f.derivation] := by
  have hm : f.key.meaning ∉ chart.meaningsOf f.key.cell := fun hm => hf (mem_meaningsOf.1 hm)
  have hnone : chart.derivationsOf f.key = [] := by
    by_contra hne
    obtain ⟨d, hd⟩ := List.exists_mem_of_ne_nil _ hne
    exact hf (holds_of_mem_derivationsOf hd)
  rw [derivations_eq_flatMap h.add, derivations_eq_flatMap h, meaningsOf_add, if_pos ⟨rfl, hm⟩,
    List.flatMap_append, flatMap_derivationsOf_add hm, List.flatMap_singleton]
  change _ ++ (chart.add .all f).derivationsOf f.key = _
  rw [h.derivationsOf_add, hnone]
  rfl

/-- A finding of a known meaning goes to the end of that meaning. -/
theorem exists_derivations_add_of_holds (h : chart.VisibleIn f.key.cell)
    (hf : chart.Holds f.key) :
    ∃ before after : List MeaningId, f.key.meaning ∉ before ∧ f.key.meaning ∉ after ∧
      chart.derivations f.key.cell =
        (before.flatMap fun meaning => chart.derivationsOf ⟨f.key.cell, meaning⟩) ++
          (chart.derivationsOf f.key ++
            after.flatMap fun meaning => chart.derivationsOf ⟨f.key.cell, meaning⟩) ∧
      (chart.add .all f).derivations f.key.cell =
        (before.flatMap fun meaning => chart.derivationsOf ⟨f.key.cell, meaning⟩) ++
          ((chart.derivationsOf f.key ++ [f.derivation]) ++
            after.flatMap fun meaning => chart.derivationsOf ⟨f.key.cell, meaning⟩) := by
  have hm := mem_meaningsOf.2 hf
  obtain ⟨before, after, he⟩ := List.append_of_mem hm
  have hnodup := chart.nodup_meaningsOf f.key.cell
  rw [he, List.nodup_append, List.nodup_cons] at hnodup
  have hbefore : f.key.meaning ∉ before := fun hb => hnodup.2.2 _ hb _ List.mem_cons_self rfl
  refine ⟨before, after, hbefore, hnodup.2.1.1, ?_, ?_⟩
  · rw [derivations_eq_flatMap h, he, List.flatMap_append, List.flatMap_cons]
  · rw [derivations_eq_flatMap h.add, meaningsOf_add, if_neg fun hc => hc.2 hm, he,
      List.flatMap_append, List.flatMap_cons, flatMap_derivationsOf_add hbefore,
      flatMap_derivationsOf_add hnodup.2.1.1]
    change _ ++ ((chart.add .all f).derivationsOf f.key ++ _) = _
    rw [h.derivationsOf_add]

/-- Wherever it goes to, a finding is one derivation more in its cell. -/
theorem derivations_add_perm (h : chart.VisibleIn cell) (f : Finding) :
    ((chart.add .all f).derivations cell).Perm
      (chart.derivations cell ++ if f.key.cell = cell then [f.derivation] else []) := by
  by_cases hcell : f.key.cell = cell
  · subst hcell
    rw [if_pos rfl]
    by_cases hf : chart.Holds f.key
    · obtain ⟨before, after, -, -, hold, hnew⟩ := exists_derivations_add_of_holds h hf
      rw [hold, hnew, List.append_assoc, List.append_assoc, List.append_assoc]
      exact ((List.perm_append_comm).append_left _).append_left _
    · rw [derivations_add_of_not_holds h hf]
  · rw [derivations_add_of_ne hcell, if_neg hcell, List.append_nil]

theorem derivations_addAll_perm (h : chart.Visible) (fs : List Finding) (cell : Cell) :
    ((chart.addAll .all fs).derivations cell).Perm
      (chart.derivations cell ++ (fs.filter (·.key.cell = cell)).map (·.derivation)) := by
  induction fs generalizing chart with
  | nil =>
    rw [List.filter_nil, List.map_nil, List.append_nil]
    exact .refl _
  | cons f fs ih =>
    refine (ih h.add).trans (((derivations_add_perm (h.visibleIn cell) f).append_right _).trans ?_)
    rw [List.append_assoc]
    by_cases hcell : f.key.cell = cell
    · rw [if_pos hcell, List.filter_cons_of_pos (by simpa using hcell)]
      exact .refl _
    · rw [if_neg hcell, List.filter_cons_of_neg (by simpa using hcell)]
      exact .refl _

end Add

theorem Faithful.sense_ne (h : chart.Faithful table) (ht : table.RefersBack)
    {meaning other : MeaningId} {s : Sense} (hs : table.sense? meaning = some s)
    (hne : other ≠ meaning) {d : Derivation} (hd : d ∈ chart.derivationsOf ⟨cell, other⟩) :
    d.sense ≠ s := by
  rintro rfl
  exact hne (MeaningTable.sense?_inj ht (h _ d hd) hs)

/-- A finding is placed among the derivations of its cell. -/
theorem derivations_add (hr : chart.Readable) (hc : chart.Faithful table) (ht : table.RefersBack)
    {f : Finding} (hs : table.sense? f.key.meaning = some f.derivation.sense) (cell : Cell) :
    (chart.add .all f).derivations cell =
      if f.key.cell = cell then place (chart.derivations cell) f.derivation
      else chart.derivations cell := by
  by_cases hcell : f.key.cell = cell
  · subst hcell
    have hne : ∀ meanings : List MeaningId, f.key.meaning ∉ meanings →
        ∀ e ∈ meanings.flatMap fun meaning => chart.derivationsOf ⟨f.key.cell, meaning⟩,
          e.sense ≠ f.derivation.sense := by
      intro meanings hm e he
      obtain ⟨meaning, hmem, he⟩ := List.mem_flatMap.1 he
      exact hc.sense_ne ht hs (fun heq => hm (heq ▸ hmem)) he
    rw [if_pos rfl]
    by_cases hf : chart.Holds f.key
    · -- the meaning is known: its derivations stand together
      obtain ⟨before, after, -, hafter, hold, hnew⟩ :=
        exists_derivations_add_of_holds (hr.visible.visibleIn _) hf
      rw [hold, hnew, Derivation.place_of_forall_eq (hr.derivationsOf_ne_nil hf) (fun e he => ?_)
        (hne after hafter)]
      have hsense := hc _ e he
      rw [hs] at hsense
      exact (Option.some.inj hsense).symm
    · rw [derivations_add_of_not_holds (hr.visible.visibleIn _) hf,
        Derivation.place_of_forall_ne]
      intro e he
      rw [derivations_eq_flatMap (hr.visible.visibleIn _)] at he
      exact hne _ (fun hm => hf (mem_meaningsOf.1 hm)) e he
  · rw [derivations_add_of_ne hcell, if_neg hcell]

theorem Faithful.add (h : chart.Faithful table) {retention : Retention} {f : Finding}
    (hs : table.sense? f.key.meaning = some f.derivation.sense) :
    (chart.add retention f).Faithful table := by
  intro key d hd
  rcases mem_derivationsOf_add _ _ _ hd with hd | ⟨rfl, rfl⟩
  · exact h key d hd
  · exact hs

/-- Several findings are placed in their cells one after the other. -/
theorem derivations_addAll (hr : chart.Readable) (hc : chart.Faithful table)
    (ht : table.RefersBack) {fs : List Finding}
    (hs : ∀ f ∈ fs, table.sense? f.key.meaning = some f.derivation.sense) (cell : Cell) :
    (chart.addAll .all fs).derivations cell =
      placeAll (chart.derivations cell)
        ((fs.filter (·.key.cell = cell)).map (·.derivation)) := by
  induction fs generalizing chart with
  | nil => rfl
  | cons f fs ih =>
    have hf := hs f List.mem_cons_self
    change ((chart.add .all f).addAll .all fs).derivations cell = _
    rw [ih hr.add (hc.add hf) fun g hg => hs g (List.mem_cons_of_mem _ hg),
      derivations_add hr hc ht hf]
    by_cases hcell : f.key.cell = cell
    · rw [if_pos hcell, List.filter_cons_of_pos (by simpa using hcell)]
      rfl
    · rw [if_neg hcell, List.filter_cons_of_neg (by simpa using hcell)]

/-! ## Beams -/

/-- Does no sense have more derivations in the cell than a beam of this size leaves? -/
def Fits (chart : Chart) (k : Nat) (cell : Cell) : Prop :=
  ∀ ds : List Derivation, ds.Subperm (chart.derivations cell) →
    (∀ d ∈ ds, ∀ e ∈ ds, d.sense = e.sense) → ds.length ≤ k

theorem Fits.mono {larger : Chart} (h : larger.Fits k cell)
    (hsub : (chart.derivations cell).Subperm (larger.derivations cell)) : chart.Fits k cell :=
  fun ds hds => h ds (hds.trans hsub)

theorem Fits.length_le (h : chart.Fits k cell) (hc : chart.Faithful table) {record : Record}
    (hr : record ∈ chart.entries cell) : record.derivations.toList.length ≤ k := by
  obtain ⟨⟨meaning, hl⟩, -⟩ := mem_entries.1 hr
  have hsub : record.derivations.toList.Sublist (chart.derivations cell) := by
    rw [derivations, List.flatMap_def]
    exact List.sublist_flatten_of_mem (List.mem_map_of_mem hr)
  refine h _ hsub.subperm fun d hd e he => ?_
  rw [← derivationsOf_of_lookup? hl] at hd he
  exact Option.some.inj ((hc _ d hd).symm.trans (hc _ e he))

open Classical in
/-- The derivations of one sense in a cell are those kept under the number of the sense. -/
theorem filter_derivations (hr : chart.Readable) (hc : chart.Faithful table)
    (ht : table.RefersBack) {meaning : MeaningId} (hk : chart.Holds ⟨cell, meaning⟩) {s : Sense}
    (hs : table.sense? meaning = some s) :
    (chart.derivations cell).filter (fun d => decide (d.sense = s)) =
      chart.derivationsOf ⟨cell, meaning⟩ := by
  have hnone : ∀ meanings : List MeaningId, meaning ∉ meanings →
      (meanings.flatMap fun m => (chart.derivationsOf ⟨cell, m⟩).filter
        fun d => decide (d.sense = s)) = [] := by
    intro meanings hm
    refine List.flatMap_eq_nil_iff.2 fun m hmem => List.filter_eq_nil_iff.2 fun d hd => ?_
    have hne : m ≠ meaning := fun he => hm (he ▸ hmem)
    simpa using hc.sense_ne ht hs hne hd
  have hself : (chart.derivationsOf ⟨cell, meaning⟩).filter (fun d => decide (d.sense = s)) =
      chart.derivationsOf ⟨cell, meaning⟩ := by
    refine List.filter_eq_self.2 fun d hd => decide_eq_true ?_
    exact Option.some.inj ((hc _ d hd).symm.trans hs)
  obtain ⟨before, after, he⟩ := List.append_of_mem (mem_meaningsOf.2 hk)
  have hnodup := chart.nodup_meaningsOf cell
  rw [he, List.nodup_append, List.nodup_cons] at hnodup
  have hbefore : meaning ∉ before := fun h => hnodup.2.2 _ h _ List.mem_cons_self rfl
  rw [derivations_eq_flatMap (hr.visible.visibleIn _), List.filter_flatMap, he, List.flatMap_append,
    List.flatMap_cons, hnone before hbefore, hnone after hnodup.2.1.1, hself, List.nil_append,
    List.append_nil]

theorem fits_of_length_le (hr : chart.Readable) (hc : chart.Faithful table)
    (ht : table.RefersBack)
    (h : ∀ record ∈ chart.entries cell, record.derivations.toList.length ≤ k) :
    chart.Fits k cell := by
  classical
  intro ds hds hsame
  cases ds with
  | nil => exact Nat.zero_le k
  | cons d ds =>
    obtain ⟨meaning, hd⟩ :=
      exists_derivationsOf_of_mem_derivations (hds.subset List.mem_cons_self)
    obtain ⟨record, hl⟩ := holds_of_mem_derivationsOf hd
    have hfilter := hds.filter fun e => decide (e.sense = d.sense)
    rw [filter_derivations hr hc ht ⟨record, hl⟩ (hc _ d hd), derivationsOf_of_lookup? hl,
      List.filter_eq_self.2 fun e he => decide_eq_true (hsame e he d List.mem_cons_self)] at hfilter
    exact hfilter.length_le.trans
      (h record (mem_entries.2 ⟨⟨meaning, hl⟩, (hr _ _ hl).1⟩))

/-- A beam that drops nothing leaves everything that can be read. -/
theorem entries_keepBest_of_le
    (h : ∀ record ∈ chart.entries cell, record.derivations.toList.length ≤ k) (other : Cell) :
    (chart.keepBest cell k).entries other = chart.entries other := by
  rw [entries_keepBest]
  split
  · rename_i hcell
    subst hcell
    have hself : ∀ record ∈ chart.entries cell, record.keepBest k = record := fun record hr =>
      if_pos (Array.length_toList ▸ h record hr)
    exact (List.map_congr_left hself).trans (List.map_id _)
  · rfl

theorem length_le_of_numDropped (h : chart.numDropped cell k = 0) {record : Record}
    (hr : record ∈ chart.entries cell) : record.derivations.toList.length ≤ k :=
  List.drop_eq_nil_iff.1 (List.flatMap_eq_nil_iff.1 (List.length_eq_zero_iff.1 h) record hr)

end Chart

end GuidedChart
