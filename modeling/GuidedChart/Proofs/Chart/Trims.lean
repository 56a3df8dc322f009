import GuidedChart.Proofs.Chart.Holdings

/-!
# What a beam leaves

Both beams take derivations away and nothing else: the records, how they came about and their flags
stay as they are (`trims_truncate`, `trims_keepBest`). The beam of the second pass leaves every
record something to be read (`Readable.keepBest`). So the size of a chart counts its records,
whatever was found and cut (`Made.sized`).
-/

namespace GuidedChart

namespace Derivation

theorem insertRanked_perm (d : Derivation) (ds : List Derivation) :
    (insertRanked d ds).Perm (d :: ds) := by
  induction ds with
  | nil => exact List.Perm.refl _
  | cons e es ih =>
    unfold insertRanked
    split
    · exact (ih.cons e).trans (List.Perm.swap d e es)
    · exact List.Perm.refl _

theorem ranked_perm (ds : List Derivation) : (ranked ds).Perm ds := by
  induction ds with
  | nil => exact List.Perm.refl _
  | cons d ds ih => exact (insertRanked_perm d (ranked ds)).trans (ih.cons d)

end Derivation

/-! ## Records -/

namespace Record

/-- The second record is the first one, with derivations taken away. -/
structure Trims (record trimmed : Record) : Prop where
  key : trimmed.key = record.key
  ingredients : trimmed.ingredients = record.ingredients
  backPointers : trimmed.backPointers = record.backPointers
  singleFormula : trimmed.singleFormula = record.singleFormula
  derivations : trimmed.derivations.toList ⊆ record.derivations.toList

theorem Trims.refl (record : Record) : record.Trims record :=
  ⟨rfl, rfl, rfl, rfl, fun _ h => h⟩

theorem Trims.trans {record trimmed last : Record} (h : record.Trims trimmed)
    (k : trimmed.Trims last) : record.Trims last :=
  ⟨k.key.trans h.key, k.ingredients.trans h.ingredients, k.backPointers.trans h.backPointers,
    k.singleFormula.trans h.singleFormula, fun _ hd => h.derivations (k.derivations hd)⟩

theorem trims_hide (record : Record) : record.Trims record.hide :=
  ⟨rfl, rfl, rfl, rfl, fun _ h => absurd h List.not_mem_nil⟩

theorem mem_keepBest {k : Nat} {record : Record} {d : Derivation}
    (h : d ∈ (record.keepBest k).derivations.toList) : d ∈ record.derivations.toList := by
  unfold keepBest at h
  split at h
  · exact h
  · exact (Derivation.ranked_perm _).subset (List.mem_of_mem_take h)

theorem trims_keepBest (k : Nat) (record : Record) : record.Trims (record.keepBest k) := by
  refine ⟨?_, ?_, ?_, ?_, fun _ => mem_keepBest⟩ <;>
  · unfold keepBest
    split <;> rfl

theorem hidden_keepBest (k : Nat) (record : Record) :
    (record.keepBest k).hidden = record.hidden := by
  unfold keepBest
  split <;> rfl

theorem filter_map_keepBest (k : Nat) (records : List Record) :
    (records.map (keepBest k)).filter (!·.hidden) =
      (records.filter (!·.hidden)).map (keepBest k) := by
  rw [List.filter_map]
  simp only [Function.comp_def, hidden_keepBest]

theorem size_keepBest_le (k : Nat) (record : Record) :
    (record.keepBest k).derivations.size ≤ k := by
  unfold keepBest
  split
  · assumption
  · simp only [List.size_toArray, List.length_take]
    omega

@[simp]
theorem keepBest_keepBest (k : Nat) (record : Record) :
    (record.keepBest k).keepBest k = record.keepBest k := by
  rw [keepBest, if_pos (size_keepBest_le k record)]

theorem keepBest_ne_nil {k : Nat} (hk : 0 < k) {record : Record}
    (h : record.derivations.toList ≠ []) : (record.keepBest k).derivations.toList ≠ [] := by
  unfold keepBest
  split
  · exact h
  · intro hn
    have hlen := congrArg List.length hn
    have hpos := List.length_pos_iff.2 h
    have hperm := (Derivation.ranked_perm record.derivations.toList).length_eq
    simp only [List.length_take, List.length_nil] at hlen
    omega

theorem getElem?_hideBeyond (k : Nat) (records : List Record) (i : Nat) :
    (hideBeyond k records)[i]? = records[i]? ∨
      (hideBeyond k records)[i]? = records[i]?.map hide := by
  fun_induction hideBeyond k records generalizing i with
  | case1 => exact Or.inl rfl
  | case2 k r rs hr ih =>
    cases i with
    | zero => exact Or.inl rfl
    | succ i => exact ih i
  | case3 r rs hr ih =>
    cases i with
    | zero => exact Or.inr rfl
    | succ i => exact ih i
  | case4 r rs hr k ih =>
    cases i with
    | zero => exact Or.inl rfl
    | succ i => exact ih i

/-- Hidden records do not count, so it is the first `k` of the others that may still be read. -/
theorem filter_hideBeyond (k : Nat) (records : List Record) :
    (hideBeyond k records).filter (!·.hidden) = (records.filter (!·.hidden)).take k := by
  fun_induction hideBeyond k records with
  | case1 => exact List.take_nil.symm
  | case2 k r rs hr ih =>
    rw [List.filter_cons_of_neg (by simp [hr]), ih, List.filter_cons_of_neg (by simp [hr])]
  | case3 r rs hr ih =>
    rw [List.filter_cons_of_neg (by simp [hide]), ih, List.take_zero, List.take_zero]
  | case4 r rs hr k ih =>
    rw [List.filter_cons_of_pos (by simpa using hr), ih,
      List.filter_cons_of_pos (by simpa using hr), List.take_succ_cons]

@[simp]
theorem hideBeyond_hideBeyond (k : Nat) (records : List Record) :
    hideBeyond k (hideBeyond k records) = hideBeyond k records := by
  fun_induction hideBeyond k records with
  | case1 => rfl
  | case2 k r rs hr ih => simp [hideBeyond, hr, ih]
  | case3 r rs hr ih => simp [hideBeyond, hide, ih]
  | case4 r rs hr k ih => simp [hideBeyond, hr, ih]

end Record

/-! ## Charts -/

namespace Chart

/-- The second chart is the first one, with derivations taken away from its records. -/
structure Trims (chart trimmed : Chart) : Prop where
  record : ∀ key, Option.Rel Record.Trims (chart.lookup? key) (trimmed.lookup? key)
  size : trimmed.size = chart.size

namespace Trims

variable {chart trimmed : Chart}

theorem refl (chart : Chart) : chart.Trims chart := by
  refine ⟨fun key => ?_, rfl⟩
  cases chart.lookup? key with
  | none => exact .none
  | some record => exact .some (.refl record)

theorem trans {last : Chart} (h : chart.Trims trimmed) (k : trimmed.Trims last) :
    chart.Trims last := by
  refine ⟨fun key => ?_, k.size.trans h.size⟩
  have hk := h.record key
  have kk := k.record key
  generalize chart.lookup? key = old, trimmed.lookup? key = new, last.lookup? key = final
    at hk kk ⊢
  cases hk with
  | some ht =>
    cases kk with
    | some kt => exact .some (ht.trans kt)
  | none => exact kk

theorem exists_of_lookup? (h : chart.Trims trimmed) {key : BackPointer} {record : Record}
    (hr : trimmed.lookup? key = some record) :
    ∃ old, chart.lookup? key = some old ∧ old.Trims record := by
  have hk := h.record key
  rw [hr] at hk
  cases ho : chart.lookup? key with
  | none => rw [ho] at hk; cases hk
  | some old =>
    rw [ho] at hk
    cases hk with
    | some ht => exact ⟨old, rfl, ht⟩

theorem holds (h : chart.Trims trimmed) (key : BackPointer) :
    trimmed.Holds key ↔ chart.Holds key := by
  have hk := h.record key
  unfold Holds
  generalize chart.lookup? key = old, trimmed.lookup? key = new at hk ⊢
  cases hk with
  | some ht => simp
  | none => simp

theorem ingredientsOf (h : chart.Trims trimmed) (key : BackPointer) :
    trimmed.ingredientsOf key = chart.ingredientsOf key := by
  have hk := h.record key
  unfold Chart.ingredientsOf
  generalize chart.lookup? key = old, trimmed.lookup? key = new at hk ⊢
  cases hk with
  | some ht => simp [ht.ingredients]
  | none => rfl

theorem backPointersOf (h : chart.Trims trimmed) (key : BackPointer) :
    trimmed.backPointersOf key = chart.backPointersOf key := by
  have hk := h.record key
  unfold Chart.backPointersOf
  generalize chart.lookup? key = old, trimmed.lookup? key = new at hk ⊢
  cases hk with
  | some ht => simp [ht.backPointers]
  | none => rfl

theorem isSingleFormula (h : chart.Trims trimmed) (key : BackPointer) :
    trimmed.isSingleFormula key = chart.isSingleFormula key := by
  have hk := h.record key
  unfold Chart.isSingleFormula
  generalize chart.lookup? key = old, trimmed.lookup? key = new at hk ⊢
  cases hk with
  | some ht => exact ht.singleFormula
  | none => rfl

theorem derivationsOf (h : chart.Trims trimmed) {key : BackPointer} {d : Derivation}
    (hd : d ∈ trimmed.derivationsOf key) : d ∈ chart.derivationsOf key := by
  obtain ⟨record, hr⟩ := holds_of_mem_derivationsOf hd
  obtain ⟨old, ho, ht⟩ := h.exists_of_lookup? hr
  rw [derivationsOf_of_lookup? hr] at hd
  rw [derivationsOf_of_lookup? ho]
  exact ht.derivations hd

theorem keyed (h : chart.Trims trimmed) (hk : chart.Keyed) : trimmed.Keyed := by
  intro key record hr
  obtain ⟨old, ho, ht⟩ := h.exists_of_lookup? hr
  rw [ht.key, hk key old ho]

theorem uniform (h : chart.Trims trimmed) (hu : chart.Uniform) : trimmed.Uniform := by
  intro key hs d hd e he
  rw [h.isSingleFormula] at hs
  exact hu key hs d (h.derivationsOf hd) e (h.derivationsOf he)

theorem sized (h : chart.Trims trimmed) (hs : chart.Sized) : trimmed.Sized := by
  have hset : {key | trimmed.Holds key} = {key | chart.Holds key} := Set.ext h.holds
  exact ⟨hset ▸ hs.finite, by rw [hset, h.size, hs.size_eq]⟩

end Trims

theorem lookup?_keepBest (chart : Chart) (cell : Cell) (k : Nat) (key : BackPointer) :
    (chart.keepBest cell k).lookup? key =
      if cell = key.cell then (chart.lookup? key).map (Record.keepBest k)
      else chart.lookup? key := by
  simp only [lookup?, keepBest, Catalog.get?_modify]
  split
  · rename_i h
    subst h
    cases chart.shelves.get? key.cell with
    | none => rfl
    | some shelf =>
      rw [Option.map_some, Option.bind_some, Option.bind_some, Catalog.get?_revise, Catalog.get?]
      cases shelf.keys.number? key.meaning with
      | none => rfl
      | some i => simp [Catalog.values]
  · rfl

theorem lookup?_truncate (chart : Chart) (cell : Cell) (k : Nat) (key : BackPointer) :
    (chart.truncate cell k).lookup? key = chart.lookup? key ∨
      (chart.truncate cell k).lookup? key = (chart.lookup? key).map Record.hide := by
  simp only [lookup?, truncate, Catalog.get?_modify]
  split
  · rename_i h
    subst h
    cases chart.shelves.get? key.cell with
    | none => exact Or.inl rfl
    | some shelf =>
      rw [Option.map_some, Option.bind_some, Option.bind_some, Catalog.get?_revise, Catalog.get?]
      cases shelf.keys.number? key.meaning with
      | none => exact Or.inl rfl
      | some i =>
        have := Record.getElem?_hideBeyond k shelf.values i
        simpa [Catalog.values] using this
  · exact Or.inl rfl

theorem entries_truncate (chart : Chart) (cell other : Cell) (k : Nat) :
    (chart.truncate cell k).entries other =
      if cell = other then (chart.entries other).take k else chart.entries other := by
  rw [entries, recordsOf_truncate]
  split
  · exact Record.filter_hideBeyond k _
  · rfl

theorem entries_keepBest (chart : Chart) (cell other : Cell) (k : Nat) :
    (chart.keepBest cell k).entries other =
      if cell = other then (chart.entries other).map (Record.keepBest k)
      else chart.entries other := by
  rw [entries, recordsOf_keepBest]
  split
  · exact Record.filter_map_keepBest k _
  · rfl

theorem trims_keepBest (chart : Chart) (cell : Cell) (k : Nat) :
    chart.Trims (chart.keepBest cell k) := by
  refine ⟨fun key => ?_, rfl⟩
  rw [lookup?_keepBest]
  split
  · cases chart.lookup? key with
    | none => exact .none
    | some record => exact .some (Record.trims_keepBest k record)
  · exact (Trims.refl chart).record key

theorem trims_truncate (chart : Chart) (cell : Cell) (k : Nat) :
    chart.Trims (chart.truncate cell k) := by
  refine ⟨fun key => ?_, rfl⟩
  rcases lookup?_truncate chart cell k key with h | h
  · rw [h]
    exact (Trims.refl chart).record key
  · rw [h]
    cases chart.lookup? key with
    | none => exact .none
    | some record => exact .some (Record.trims_hide record)

theorem exists_of_lookup?_truncate {chart : Chart} {cell : Cell} {k : Nat} {key : BackPointer}
    {record : Record} (hr : (chart.truncate cell k).lookup? key = some record) :
    ∃ old, chart.lookup? key = some old ∧ (record = old ∨ record = old.hide) := by
  rcases lookup?_truncate chart cell k key with hl | hl
  · exact ⟨record, hl.symm.trans hr, Or.inl rfl⟩
  · rw [hl] at hr
    obtain ⟨old, ho, rfl⟩ := Option.map_eq_some_iff.1 hr
    exact ⟨old, ho, Or.inr rfl⟩

theorem exists_of_lookup?_keepBest {chart : Chart} {cell : Cell} {k : Nat} {key : BackPointer}
    {record : Record} (hr : (chart.keepBest cell k).lookup? key = some record) :
    ∃ old, chart.lookup? key = some old ∧ (record = old ∨ record = old.keepBest k) := by
  rw [lookup?_keepBest] at hr
  split at hr
  · obtain ⟨old, ho, rfl⟩ := Option.map_eq_some_iff.1 hr
    exact ⟨old, ho, Or.inr rfl⟩
  · exact ⟨record, hr, Or.inl rfl⟩

theorem VisibleIn.keepBest {chart : Chart} {other : Cell} (h : chart.VisibleIn other) (cell : Cell)
    (k : Nat) : (chart.keepBest cell k).VisibleIn other := by
  intro key hcell record hr
  obtain ⟨old, ho, rfl | rfl⟩ := exists_of_lookup?_keepBest hr
  · exact h key hcell record ho
  · rw [Record.hidden_keepBest, h key hcell old ho]

theorem Visible.keepBest {chart : Chart} (h : chart.Visible) (cell : Cell) (k : Nat) :
    (chart.keepBest cell k).Visible :=
  fun key record hr => (h.visibleIn key.cell).keepBest cell k key rfl record hr

theorem Stocked.truncate {chart : Chart} (h : chart.Stocked) (cell : Cell) (k : Nat) :
    (chart.truncate cell k).Stocked := by
  intro key record hr hh
  obtain ⟨old, ho, rfl | rfl⟩ := exists_of_lookup?_truncate hr
  · exact h key record ho hh
  · cases hh

theorem Stocked.keepBest {chart : Chart} (h : chart.Stocked) (cell : Cell) {k : Nat}
    (hk : 0 < k) : (chart.keepBest cell k).Stocked := by
  intro key record hr hh
  obtain ⟨old, ho, rfl | rfl⟩ := exists_of_lookup?_keepBest hr
  · exact h key record ho hh
  · rw [Record.hidden_keepBest] at hh
    exact Record.keepBest_ne_nil hk (h key old ho hh)

theorem Readable.keepBest {chart : Chart} (h : chart.Readable) (cell : Cell) {k : Nat}
    (hk : 0 < k) : (chart.keepBest cell k).Readable := by
  intro key record hr
  have hvisible := h.visible.keepBest cell k key record hr
  exact ⟨hvisible, h.stocked.keepBest cell hk key record hr hvisible⟩

/-! ### Charts that can be come to -/

/-- Charts that findings and beams lead to, in any order. -/
inductive Made : Chart → Prop
  | empty : Made .empty
  | add {chart : Chart} (retention : Retention) (f : Finding) : Made chart →
    Made (chart.add retention f)
  | truncate {chart : Chart} (cell : Cell) (k : Nat) : Made chart → Made (chart.truncate cell k)
  | keepBest {chart : Chart} (cell : Cell) (k : Nat) : Made chart → Made (chart.keepBest cell k)

theorem sized_empty : Chart.empty.Sized := by
  have hset : {key | Chart.empty.Holds key} = ∅ :=
    Set.eq_empty_of_forall_notMem fun _ ⟨_, hr⟩ => nomatch hr
  exact ⟨hset ▸ Set.finite_empty, by rw [hset, Set.ncard_empty]; rfl⟩

theorem Made.keyed {chart : Chart} (h : chart.Made) : chart.Keyed := by
  induction h with
  | empty => exact nofun
  | add retention f _ ih => exact ih.add
  | truncate cell k _ ih => exact (trims_truncate _ cell k).keyed ih
  | keepBest cell k _ ih => exact (trims_keepBest _ cell k).keyed ih

theorem Made.sized {chart : Chart} (h : chart.Made) : chart.Sized := by
  induction h with
  | empty => exact sized_empty
  | add retention f _ ih => exact ih.add
  | truncate cell k _ ih => exact (trims_truncate _ cell k).sized ih
  | keepBest cell k _ ih => exact (trims_keepBest _ cell k).sized ih

end Chart

end GuidedChart
