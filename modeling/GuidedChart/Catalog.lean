import GuidedChart.Numbering

/-!
# Catalogs

A catalog has one value for each of its keys and keeps the keys in the order in which they were
first entered. Values change, keys stay.

A catalog is seen through its keys, its values in the order of the keys, and the value of a key
(`get?`). Main statements: an operation on one key leaves the value of every other key alone
(`get?_alter`, `get?_modify`), and the values are those of the keys (`mem_values_iff`).
-/

namespace GuidedChart

/-- A value for each of several keys. -/
structure Catalog (κ β : Type) [Coded κ] where
  keys : Numbering κ
  contents : Array β
  size_contents : contents.size = keys.size

namespace Catalog

variable {κ β : Type} [Coded κ]

def empty : Catalog κ β where
  keys := .empty
  contents := #[]
  size_contents := rfl

/-- The values in the order of their keys. -/
def values (catalog : Catalog κ β) : List β :=
  catalog.contents.toList

def get? (catalog : Catalog κ β) (key : κ) : Option β :=
  (catalog.keys.number? key).bind fun i => catalog.contents[i]?

/-- The catalog with the value of a key changed, if the key is there. -/
def modify (catalog : Catalog κ β) (key : κ) (change : β → β) : Catalog κ β :=
  match catalog.keys.number? key with
  | some i =>
    { catalog with
      contents := catalog.contents.modify i change
      size_contents := by rw [Array.size_modify, catalog.size_contents] }
  | none => catalog

/-- The catalog with the value of a key changed; a key that is new is entered. -/
def alter (catalog : Catalog κ β) (key : κ) (change : Option β → β) : Catalog κ β :=
  match h : catalog.keys.number? key with
  | some i =>
    { catalog with
      contents := catalog.contents.modify i fun value => change (some value)
      size_contents := by rw [Array.size_modify, catalog.size_contents] }
  | none =>
    { keys := catalog.keys.push key h
      contents := catalog.contents.push (change none)
      size_contents := by
        rw [Array.size_push, catalog.size_contents, ← Numbering.length_toList,
          ← Numbering.length_toList, Numbering.toList_push, List.length_append,
          List.length_singleton] }

/-- The catalog with all its values changed together, each staying in its place. -/
def revise (catalog : Catalog κ β) (change : List β → List β)
    (h : ∀ values, (change values).length = values.length) : Catalog κ β where
  keys := catalog.keys
  contents := (change catalog.values).toArray
  size_contents := by
    rw [List.size_toArray, h, values, Array.length_toList, catalog.size_contents]

/-! ### Reading -/

@[simp]
theorem values_empty : (empty : Catalog κ β).values = [] := rfl

theorem length_values (catalog : Catalog κ β) :
    catalog.values.length = catalog.keys.toList.length := by
  rw [values, Array.length_toList, Numbering.length_toList, catalog.size_contents]

theorem get?_eq_some_iff {catalog : Catalog κ β} {key : κ} {value : β} :
    catalog.get? key = some value ↔
      ∃ i : Nat, catalog.keys.toList[i]? = some key ∧ catalog.values[i]? = some value := by
  simp only [get?, Option.bind_eq_some_iff, Numbering.number?_eq_some_iff, values,
    Array.getElem?_toList]

theorem get?_eq_none_iff {catalog : Catalog κ β} {key : κ} :
    catalog.get? key = none ↔ key ∉ catalog.keys.toList := by
  rw [← Numbering.number?_eq_none_iff, get?]
  cases h : catalog.keys.number? key with
  | none => simp
  | some i =>
    have hi := Numbering.number?_lt_size h
    rw [← catalog.size_contents] at hi
    simp [Array.getElem?_eq_getElem hi]

theorem mem_values_iff {catalog : Catalog κ β} {value : β} :
    value ∈ catalog.values ↔ ∃ key, catalog.get? key = some value := by
  simp only [get?_eq_some_iff, List.mem_iff_getElem?]
  constructor
  · rintro ⟨i, hi⟩
    have hlt := (List.getElem?_eq_some_iff.1 hi).1
    rw [length_values] at hlt
    exact ⟨_, i, List.getElem?_eq_getElem hlt, hi⟩
  · rintro ⟨key, i, -, hi⟩
    exact ⟨i, hi⟩

theorem map_get?_keys (catalog : Catalog κ β) :
    catalog.keys.toList.map catalog.get? = catalog.values.map some := by
  refine List.ext_getElem? fun i => ?_
  rw [List.getElem?_map, List.getElem?_map]
  cases hk : catalog.keys.toList[i]? with
  | none =>
    have hlen := List.getElem?_eq_none_iff.1 hk
    rw [← length_values] at hlen
    rw [List.getElem?_eq_none hlen]
    rfl
  | some key =>
    have hlen := (List.getElem?_eq_some_iff.1 hk).1
    rw [← length_values] at hlen
    have hget : catalog.get? key = some catalog.values[i] :=
      get?_eq_some_iff.2 ⟨i, hk, List.getElem?_eq_getElem hlen⟩
    rw [Option.map_some, hget, List.getElem?_eq_getElem hlen, Option.map_some]

/-! ### Changing -/

@[simp]
theorem keys_modify (catalog : Catalog κ β) (key : κ) (change : β → β) :
    (catalog.modify key change).keys = catalog.keys := by
  unfold modify
  split <;> rfl

theorem keys_alter (catalog : Catalog κ β) (key : κ) (change : Option β → β) :
    (catalog.alter key change).keys = catalog.keys.insert key := by
  unfold alter
  split
  · rename_i i hi
    have hmem := List.mem_of_getElem? (Numbering.number?_eq_some_iff.1 hi)
    exact (Numbering.insert_of_mem hmem).symm
  · rename_i hn
    exact (Numbering.insert_of_number?_eq_none hn).symm

@[simp]
theorem keys_revise (catalog : Catalog κ β) (change : List β → List β)
    (h : ∀ values, (change values).length = values.length) :
    (catalog.revise change h).keys = catalog.keys := rfl

@[simp]
theorem values_revise (catalog : Catalog κ β) (change : List β → List β)
    (h : ∀ values, (change values).length = values.length) :
    (catalog.revise change h).values = change catalog.values := rfl

theorem get?_revise (catalog : Catalog κ β) (change : List β → List β)
    (h : ∀ values, (change values).length = values.length) (key : κ) :
    (catalog.revise change h).get? key =
      (catalog.keys.number? key).bind fun i => (change catalog.values)[i]? := by
  simp [get?, revise]

theorem number?_ne_of_ne {catalog : Catalog κ β} {key other : κ} {i j : Nat} (he : key ≠ other)
    (hi : catalog.keys.number? key = some i) (hj : catalog.keys.number? other = some j) :
    i ≠ j := by
  rintro rfl
  rw [Numbering.number?_eq_some_iff] at hi hj
  exact he (Option.some.inj (hi.symm.trans hj))

theorem get?_modify [DecidableEq κ] (catalog : Catalog κ β) (key other : κ) (change : β → β) :
    (catalog.modify key change).get? other =
      if key = other then (catalog.get? key).map change else catalog.get? other := by
  unfold modify
  split
  · rename_i i hi
    split
    · rename_i he
      subst he
      simp [get?, hi, Array.getElem?_modify]
    · rename_i he
      cases hj : catalog.keys.number? other with
      | none => simp [get?, hj]
      | some j => simp [get?, hj, Array.getElem?_modify, number?_ne_of_ne he hi hj]
  · rename_i hn
    split
    · rename_i he
      subst he
      simp [get?, hn]
    · rfl

/-- A value that is entered or changed is found under its key, and every other key is left
alone. -/
theorem get?_alter [DecidableEq κ] (catalog : Catalog κ β) (key other : κ)
    (change : Option β → β) :
    (catalog.alter key change).get? other =
      if key = other then some (change (catalog.get? key)) else catalog.get? other := by
  unfold alter
  split
  · rename_i i hi
    have hlt := Numbering.number?_lt_size hi
    rw [← catalog.size_contents] at hlt
    split
    · rename_i he
      subst he
      simp [get?, hi, Array.getElem?_modify, hlt]
    · rename_i he
      cases hj : catalog.keys.number? other with
      | none => simp [get?, hj]
      | some j => simp [get?, hj, Array.getElem?_modify, number?_ne_of_ne he hi hj]
  · rename_i hn
    split
    · rename_i he
      subst he
      simp [get?, hn, Numbering.number?_push_self, ← catalog.size_contents]
    · rename_i he
      cases hj : catalog.keys.number? other with
      | none => simp [get?, hj, Numbering.number?_push_of_ne _ hn he]
      | some j =>
        have hlt := Numbering.number?_lt_size hj
        rw [← catalog.size_contents] at hlt
        simp [get?, hj, Numbering.number?_push_of_ne _ hn he, Array.getElem?_push,
          Nat.ne_of_lt hlt]

end Catalog

end GuidedChart
