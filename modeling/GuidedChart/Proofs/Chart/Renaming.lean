import GuidedChart.Proofs.Chart.Counting
import GuidedChart.Proofs.Chart.Pairing

/-!
# Charts with other numbers

The numbers that a chart knows meanings by are names and no more. A record is renamed by renaming
its key, its ingredients and its back-pointers; two charts are the same up to a renaming
(`Chart.Renamed`) if they have the same cells and hold renamed records there, in the same order.
Findings (`Chart.Renamed.add`) and both beams (`Chart.Renamed.truncate`, `Chart.Renamed.keepBest`)
keep it so, as long as different numbers get different names.
-/

namespace GuidedChart

/-! ## Numberings of images -/

namespace Numbering

variable {α β : Type} [Coded α] [Coded β]

/-- The images of the items, in the same order. -/
def map (f : α → β) (numbering : Numbering α) : Numbering β :=
  .ofList (numbering.toList.map f)

theorem map_insert (f : α → β) (numbering : Numbering α) (a : α) :
    (numbering.insert a).map f = (numbering.map f).insert (f a) := by
  by_cases h : a ∈ numbering.toList
  · have hf : f a ∈ (numbering.map f).toList := mem_ofList.2 (List.mem_map_of_mem h)
    rw [insert_of_mem h, insert_of_mem hf]
  · rw [map, toList_insert_of_not_mem h, List.map_append, ofList, insertAll, List.foldl_append]
    rfl

theorem map_insertAll (f : α → β) (numbering : Numbering α) (as : List α) :
    (numbering.insertAll as).map f = (numbering.map f).insertAll (as.map f) := by
  induction as generalizing numbering with
  | nil => rfl
  | cons a as ih => exact (ih _).trans (by rw [map_insert]; rfl)

theorem map_ofList (f : α → β) (as : List α) : (ofList as).map f = ofList (as.map f) :=
  map_insertAll f .empty as

/-- Different items with different images keep their numbers. -/
theorem toList_map {f : α → β} (hf : Function.Injective f) (numbering : Numbering α) :
    (numbering.map f).toList = numbering.toList.map f := by
  have hall : ∀ as : List α, as.Nodup → (ofList (as.map f)).toList = as.map f := by
    intro as
    induction as using List.reverseRecOn with
    | nil => exact fun _ => rfl
    | append_singleton as a ih =>
      intro hn
      have hd := List.nodup_append.1 hn
      have hnew : f a ∉ (ofList (as.map f)).toList := by
        rw [ih hd.1, List.mem_map_of_injective hf]
        exact fun ha => hd.2.2 a ha a (List.mem_singleton_self a) rfl
      rw [List.map_append, ofList, insertAll, List.foldl_append]
      exact (toList_insert_of_not_mem hnew).trans (by rw [ih hd.1]; rfl)
  exact hall _ numbering.nodup_toList

end Numbering

/-! ## Renaming -/

section Rename

variable (ρ : MeaningId → MeaningId)

def BackPointer.rename (key : BackPointer) : BackPointer :=
  ⟨key.cell, ρ key.meaning⟩

def Ingredient.rename (ingredient : Ingredient) : Ingredient :=
  { ingredient with first := ingredient.first.map ρ, second := ingredient.second.map ρ }

def Finding.rename (f : Finding) : Finding :=
  { f with
    key := f.key.rename ρ
    ingredient := f.ingredient.rename ρ
    sources := f.sources.map (·.rename ρ) }

def Record.rename (record : Record) : Record :=
  { record with
    key := record.key.rename ρ
    ingredients := record.ingredients.map (·.rename ρ)
    backPointers := record.backPointers.map (·.rename ρ) }

variable {ρ}

theorem BackPointer.rename_injective (hρ : Function.Injective ρ) :
    Function.Injective (BackPointer.rename ρ) := by
  intro k l h
  obtain ⟨hc, hm⟩ := BackPointer.mk.inj h
  exact BackPointer.ext hc (hρ hm)

theorem Ingredient.rename_injective (hρ : Function.Injective ρ) :
    Function.Injective (Ingredient.rename ρ) := by
  rintro ⟨c, r, i, j⟩ ⟨c', r', i', j'⟩ h
  simp only [rename, Ingredient.mk.injEq] at h ⊢
  obtain ⟨hc, hr, hi, hj⟩ := h
  exact ⟨hc, hr, Option.map_injective hρ hi, Option.map_injective hρ hj⟩

end Rename

namespace Finding

variable (ρ : MeaningId → MeaningId) (f : Finding)

theorem key_rename : (f.rename ρ).key = f.key.rename ρ := rfl

theorem cell_rename : (f.rename ρ).key.cell = f.key.cell := rfl

end Finding

namespace Record

variable (ρ : MeaningId → MeaningId)

theorem rename_ofFinding (number : Nat) (f : Finding) :
    (ofFinding number f).rename ρ = ofFinding number (f.rename ρ) := by
  simp only [ofFinding, rename, Numbering.map_ofList, List.map_cons, List.map_nil, Finding.rename]

theorem rename_extend (record : Record) (retention : Retention) (f : Finding) :
    (record.extend retention f).rename ρ = (record.rename ρ).extend retention (f.rename ρ) := by
  simp only [extend, rename, Numbering.map_insert, Numbering.map_insertAll, Finding.rename]
  rfl

variable {ρ} in
/-- The ingredients of a renamed record are renamed, in the same order. -/
theorem toList_ingredients_rename (hρ : Function.Injective ρ) (record : Record) :
    (record.rename ρ).ingredients.toList = record.ingredients.toList.map (Ingredient.rename ρ) :=
  Numbering.toList_map (Ingredient.rename_injective hρ) record.ingredients

variable {ρ} in
theorem toList_backPointers_rename (hρ : Function.Injective ρ) (record : Record) :
    (record.rename ρ).backPointers.toList = record.backPointers.toList.map (BackPointer.rename ρ) :=
  Numbering.toList_map (BackPointer.rename_injective hρ) record.backPointers

theorem rename_keepBest (k : Nat) (record : Record) :
    (record.keepBest k).rename ρ = (record.rename ρ).keepBest k := by
  have hkept : (record.rename ρ).derivations = record.derivations := rfl
  rw [keepBest, keepBest, hkept]
  split <;> rfl

theorem map_rename_hideBeyond (k : Nat) (records : List Record) :
    (hideBeyond k records).map (rename ρ) = hideBeyond k (records.map (rename ρ)) := by
  have hhidden : ∀ record : Record, (record.rename ρ).hidden = record.hidden := fun _ => rfl
  fun_induction hideBeyond k records with
  | case1 => rfl
  | case2 k r rs hr ih => simp [hideBeyond, hhidden, hr, ih]
  | case3 r rs hr ih =>
    simp only [List.map_cons, hideBeyond, hhidden, hr, ih]
    rfl
  | case4 r rs hr k ih => simp [hideBeyond, hhidden, hr, ih]

end Record

/-! ## Charts -/

namespace Chart

/-- The second chart is the first one with its meanings renamed. -/
structure Renamed (ρ : MeaningId → MeaningId) (c d : Chart) : Prop where
  cells : d.cells = c.cells
  recordsOf : ∀ cell, d.recordsOf cell = (c.recordsOf cell).map (Record.rename ρ)
  size : d.size = c.size
  numEntries : d.numEntries = c.numEntries

/-- A cell that is new goes to the end. -/
theorem cells_add (chart : Chart) (retention : Retention) (f : Finding) :
    (chart.add retention f).cells =
      if f.key.cell ∈ chart.cells then chart.cells else chart.cells ++ [f.key.cell] := by
  rw [cells, add, Catalog.keys_alter, cells]
  split
  · rename_i hm
    rw [Numbering.insert_of_mem hm]
  · rename_i hm
    exact Numbering.toList_insert_of_not_mem hm

namespace Renamed

variable {ρ : MeaningId → MeaningId} {c d : Chart}

theorem refl_empty : Chart.empty.Renamed ρ Chart.empty :=
  ⟨rfl, fun _ => rfl, rfl, rfl⟩

theorem records (h : c.Renamed ρ d) : d.records = c.records.map (Record.rename ρ) := by
  rw [records_eq_flatMap, records_eq_flatMap, h.cells, List.map_flatMap]
  exact List.flatMap_congr fun cell _ => h.recordsOf cell

theorem entries (h : c.Renamed ρ d) (cell : Cell) :
    d.entries cell = (c.entries cell).map (Record.rename ρ) := by
  rw [Chart.entries, h.recordsOf, List.filter_map]
  rfl

theorem derivations (h : c.Renamed ρ d) (cell : Cell) :
    d.derivations cell = c.derivations cell := by
  rw [Chart.derivations, Chart.derivations, h.entries, List.flatMap_map]
  rfl

theorem truncate (h : c.Renamed ρ d) (cell : Cell) (k : Nat) :
    (c.truncate cell k).Renamed ρ (d.truncate cell k) where
  cells := by
    rw [Chart.cells, Chart.cells, Chart.truncate, Chart.truncate, Catalog.keys_modify,
      Catalog.keys_modify]
    exact h.cells
  recordsOf other := by
    rw [recordsOf_truncate, recordsOf_truncate, h.recordsOf]
    split
    · rw [Record.map_rename_hideBeyond]
    · rfl
  size := h.size
  numEntries := by
    simp only [Chart.truncate, numHidden, h.entries, List.length_map, h.numEntries]

theorem keepBest (h : c.Renamed ρ d) (cell : Cell) (k : Nat) :
    (c.keepBest cell k).Renamed ρ (d.keepBest cell k) where
  cells := by
    rw [Chart.cells, Chart.cells, Chart.keepBest, Chart.keepBest, Catalog.keys_modify,
      Catalog.keys_modify]
    exact h.cells
  recordsOf other := by
    rw [recordsOf_keepBest, recordsOf_keepBest, h.recordsOf]
    split
    · rw [List.map_map, List.map_map]
      exact List.map_congr_left fun record _ => (Record.rename_keepBest ρ k record).symm
    · rfl
  size := h.size
  numEntries := h.numEntries

theorem numHidden (h : c.Renamed ρ d) (cell : Cell) (k : Nat) :
    d.numHidden cell k = c.numHidden cell k := by
  rw [Chart.numHidden, Chart.numHidden, h.entries, List.length_map]

theorem numDropped (h : c.Renamed ρ d) (cell : Cell) (k : Nat) :
    d.numDropped cell k = c.numDropped cell k := by
  rw [Chart.numDropped, Chart.numDropped, h.entries, List.flatMap_map]
  rfl

section Keyed

variable (hρ : Function.Injective ρ) (hc : c.Keyed) (hd : d.Keyed)
include hρ hc hd

theorem lookup? (h : c.Renamed ρ d) (key : BackPointer) :
    d.lookup? (key.rename ρ) = (c.lookup? key).map (Record.rename ρ) := by
  rw [hd.lookup?_eq_find?, hc.lookup?_eq_find?, BackPointer.rename, h.recordsOf, List.find?_map]
  have hkey : ∀ record : Record,
      decide ((record.rename ρ).key = key.rename ρ) = decide (record.key = key) := fun record =>
    decide_eq_decide.2 (BackPointer.rename_injective hρ).eq_iff
  exact congrArg _ (congrArg (List.find? · _) (funext hkey))

theorem isSingleFormula (h : c.Renamed ρ d) (key : BackPointer) :
    d.isSingleFormula (key.rename ρ) = c.isSingleFormula key := by
  rw [Chart.isSingleFormula, Chart.isSingleFormula, h.lookup? hρ hc hd]
  cases c.lookup? key <;> rfl

/-- The ways to a meaning are renamed one by one. -/
theorem ingredientsOf (h : c.Renamed ρ d) (key : BackPointer) :
    d.ingredientsOf (key.rename ρ) = (c.ingredientsOf key).map (Ingredient.rename ρ) := by
  rw [Chart.ingredientsOf, Chart.ingredientsOf, h.lookup? hρ hc hd]
  cases c.lookup? key with
  | none => rfl
  | some record => exact record.toList_ingredients_rename hρ

theorem backPointersOf (h : c.Renamed ρ d) (key : BackPointer) :
    d.backPointersOf (key.rename ρ) = (c.backPointersOf key).map (BackPointer.rename ρ) := by
  rw [Chart.backPointersOf, Chart.backPointersOf, h.lookup? hρ hc hd]
  cases c.lookup? key with
  | none => rfl
  | some record => exact record.toList_backPointers_rename hρ

theorem holds_iff (h : c.Renamed ρ d) (key : BackPointer) :
    d.Holds (key.rename ρ) ↔ c.Holds key := by
  rw [Holds, Holds, h.lookup? hρ hc hd]
  cases c.lookup? key <;> simp

theorem recordsOf_add (h : c.Renamed ρ d) (retention : Retention) (f : Finding) (cell : Cell) :
    (d.add retention (f.rename ρ)).recordsOf cell =
      ((c.add retention f).recordsOf cell).map (Record.rename ρ) := by
  by_cases hcell : f.key.cell = cell
  · subst hcell
    by_cases hholds : c.Holds f.key
    · rw [recordsOf_add_of_holds hc hholds]
      refine (recordsOf_add_of_holds hd ((h.holds_iff hρ hc hd f.key).2 hholds) retention).trans ?_
      rw [f.cell_rename, h.recordsOf, List.map_map, List.map_map]
      refine List.map_congr_left fun record _ => ?_
      have hkey : (record.rename ρ).key = (f.rename ρ).key ↔ record.key = f.key :=
        (BackPointer.rename_injective hρ).eq_iff
      simp only [Function.comp_apply, hkey]
      split
      · exact (Record.rename_extend ρ record retention f).symm
      · rfl
    · rw [recordsOf_add_of_not_holds hholds]
      refine (recordsOf_add_of_not_holds (fun hn => hholds ((h.holds_iff hρ hc hd f.key).1 hn))
        retention).trans ?_
      rw [f.cell_rename, h.recordsOf, List.map_append, List.map_cons, List.map_nil,
        Record.rename_ofFinding, h.size]
  · rw [recordsOf_add_of_ne c _ _ hcell]
    exact (recordsOf_add_of_ne d retention (f.rename ρ) hcell).trans (h.recordsOf cell)

/-- A finding, and the same finding renamed, leave charts that are the same up to the renaming. -/
theorem add (h : c.Renamed ρ d) (retention : Retention) (f : Finding) :
    (c.add retention f).Renamed ρ (d.add retention (f.rename ρ)) := by
  have hsome : (d.lookup? (f.rename ρ).key).isSome = (c.lookup? f.key).isSome := by
    rw [f.key_rename, h.lookup? hρ hc hd, Option.isSome_map]
  refine ⟨?_, h.recordsOf_add hρ hc hd retention f, ?_, ?_⟩
  · rw [cells_add, cells_add, h.cells, f.cell_rename]
  · simp only [Chart.add, hsome, h.size]
  · simp only [Chart.add, hsome, h.numEntries]

end Keyed

end Renamed

end Chart

end GuidedChart
