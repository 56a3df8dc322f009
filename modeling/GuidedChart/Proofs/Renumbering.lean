import GuidedChart.Proofs.Sense

/-!
# Renumbering

A meaning refers to other meanings by their numbers, so it says something else in another table.
Where the meanings of a list refer back, they can be numbered again on top of any table: each of
them is given over the numbers that stand for those it refers to (`MeaningTable.renumber`).
Different numbers have different numbers standing for them (`number_renumber_injective`), although
the table may know some of the meanings already; and numbering one meaning more on either side
leaves a table and its renumbering (`intern_renumber`).
-/

namespace GuidedChart

/-! ## Renumbering -/

/-- The meaning over other numbers. -/
def Meaning.rename (ρ : MeaningId → MeaningId) : Meaning → Meaning
  | .value v => .value v
  | .failure rule first second => .failure rule (first.map ρ) (second.map ρ)

namespace Meaning

variable {ρ σ : MeaningId → MeaningId}

theorem rename_ofOutcome (outcome : Outcome) (rule : RuleId) (first second : Option MeaningId) :
    (ofOutcome outcome rule first second).rename ρ =
      ofOutcome outcome rule (first.map ρ) (second.map ρ) := by
  cases outcome <;> rfl

@[simp]
theorem isFailure_rename (m : Meaning) : (m.rename ρ).isFailure = m.isFailure := by
  cases m <;> rfl

theorem rename_congr {m : Meaning} {n : Nat} (hm : m.RefersBelow n)
    (h : ∀ i < n, ρ i = σ i) : m.rename ρ = m.rename σ := by
  cases m with
  | value v => rfl
  | failure rule first second =>
    have hmap : ∀ a : Option MeaningId, (∀ i ∈ a, i < n) → a.map ρ = a.map σ := fun a ha =>
      Option.map_congr fun i hi => h i (ha i hi)
    simp only [rename, hmap first hm.1, hmap second hm.2]

theorem rename_inj {m k : Meaning} {n : Nat} (hm : m.RefersBelow n) (hk : k.RefersBelow n)
    (hρ : ∀ i < n, ∀ j < n, ρ i = ρ j → i = j) (h : m.rename ρ = k.rename ρ) : m = k := by
  have hmap : ∀ a b : Option MeaningId, (∀ i ∈ a, i < n) → (∀ i ∈ b, i < n) →
      a.map ρ = b.map ρ → a = b := by
    rintro (_ | i) (_ | j) ha hb he
    · rfl
    · cases he
    · cases he
    · exact congrArg some (hρ i (ha i rfl) j (hb j rfl) (Option.some.inj he))
  cases m with
  | value v =>
    cases k with
    | value w => exact h
    | failure => cases h
  | failure rule first second =>
    cases k with
    | value => cases h
    | failure rule' first' second' =>
      obtain ⟨hr, hf, hs⟩ := Meaning.failure.inj h
      rw [hr, hmap _ _ hm.1 hk.1 hf, hmap _ _ hm.2 hk.2 hs]

end Meaning

theorem Meaning.ReferBack.of_prefix {ms later : List Meaning} (h : ReferBack later)
    (hp : ms <+: later) : ReferBack ms := by
  obtain ⟨more, rfl⟩ := hp
  intro i m hi
  exact h i m (by rwa [List.getElem?_append_left (List.getElem?_eq_some_iff.1 hi).1])

/-- A number that stands for a renamed meaning is one of a failure just when the other one is. -/
theorem MeaningTable.isFailure_eq_of_key? {table other : MeaningTable} {id id' : MeaningId}
    {ρ : MeaningId → MeaningId} (h : other.key? id' = (table.key? id).map (Meaning.rename ρ)) :
    other.isFailure id' = table.isFailure id := by
  unfold isFailure
  rw [h]
  cases table.key? id with
  | none => rfl
  | some m => exact m.isFailure_rename

/-- A table that has numbered the meanings of a list, and the numbers it has given them. -/
structure Renumbering where
  table : MeaningTable
  ids : List MeaningId

namespace Renumbering

/-- The number that stands for a number of the list. There are none beyond the list, and numbers
beyond the table stand for those. -/
def number (r : Renumbering) (i : MeaningId) : MeaningId :=
  r.ids[i]?.getD (r.table.size + i)

/-- Numbers one meaning more, which is given over the numbers of the list. -/
def next (r : Renumbering) (m : Meaning) : Renumbering :=
  let (table, id) := r.table.intern (m.rename r.number)
  ⟨table, r.ids ++ [id]⟩

end Renumbering

namespace MeaningTable

/-- The meanings of a list, each given over the numbers of those before it, are numbered on top of a
table. -/
def renumber (base : MeaningTable) (ms : List Meaning) : Renumbering :=
  ms.foldl .next ⟨base, []⟩

variable (base : MeaningTable) {ms later : List Meaning}

theorem renumber_append_singleton (ms : List Meaning) (m : Meaning) :
    base.renumber (ms ++ [m]) = (base.renumber ms).next m := by
  rw [renumber, List.foldl_append]
  rfl

@[simp]
theorem length_ids_renumber (ms : List Meaning) : (base.renumber ms).ids.length = ms.length := by
  induction ms using List.reverseRecOn with
  | nil => rfl
  | append_singleton ms m ih =>
    rw [renumber_append_singleton, Renumbering.next, List.length_append, ih, List.length_append]
    rfl

/-- What is numbered later changes nothing. -/
theorem prefix_renumber (h : ms <+: later) :
    (base.renumber ms).ids <+: (base.renumber later).ids ∧
      (base.renumber ms).table.keys.toList <+: (base.renumber later).table.keys.toList := by
  obtain ⟨more, rfl⟩ := h
  induction more using List.reverseRecOn with
  | nil => simp only [List.append_nil, List.prefix_refl, and_self]
  | append_singleton more m ih =>
    rw [← List.append_assoc, renumber_append_singleton]
    exact ⟨ih.1.trans (List.prefix_append _ _), ih.2.trans (keys_prefix_intern _ _)⟩

theorem number_renumber_of_prefix (h : ms <+: later) {i : MeaningId} (hi : i < ms.length) :
    (base.renumber later).number i = (base.renumber ms).number i := by
  have hlt : i < (base.renumber ms).ids.length := by rwa [length_ids_renumber]
  obtain ⟨more, he⟩ := (base.prefix_renumber h).1
  rw [Renumbering.number, ← he, List.getElem?_append_left hlt, Renumbering.number,
    List.getElem?_eq_getElem hlt]
  rfl

theorem number_renumber_length (ms : List Meaning) (m : Meaning) :
    (base.renumber (ms ++ [m])).number ms.length =
      ((base.renumber ms).table.intern (m.rename (base.renumber ms).number)).2 := by
  rw [Renumbering.number, renumber_append_singleton, Renumbering.next,
    List.getElem?_append_right (Nat.le_of_eq (base.length_ids_renumber ms)), length_ids_renumber,
    Nat.sub_self]
  rfl

/-- Each number stands for the meaning of its place, over the numbers that stand for those the
meaning refers to. -/
theorem key?_number_renumber (h : Meaning.ReferBack ms) {i : MeaningId} {m : Meaning}
    (hi : ms[i]? = some m) : (base.renumber ms).table.key? ((base.renumber ms).number i) =
      some (m.rename (base.renumber ms).number) := by
  induction ms using List.reverseRecOn generalizing i m with
  | nil => cases hi
  | append_singleton ms k ih =>
    obtain ⟨hb, hk⟩ := Meaning.referBack_append_singleton.1 h
    have hpre : ms <+: ms ++ [k] := List.prefix_append _ _
    have hnumbers : ∀ j < ms.length,
        (base.renumber (ms ++ [k])).number j = (base.renumber ms).number j :=
      fun j hj => base.number_renumber_of_prefix hpre hj
    rcases Nat.lt_or_ge i ms.length with hlt | hge
    · rw [List.getElem?_append_left hlt] at hi
      have hm := (hb i m hi).mono (Nat.le_of_lt hlt)
      rw [hnumbers i hlt, Meaning.rename_congr hm hnumbers]
      exact MeaningTable.key?_of_prefix (base.prefix_renumber hpre).2 (ih hb hi)
    · have hlt : i < (ms ++ [k]).length := (List.getElem?_eq_some_iff.1 hi).1
      rw [List.length_append, List.length_singleton] at hlt
      obtain rfl : i = ms.length := Nat.le_antisymm (Nat.le_of_lt_succ hlt) hge
      rw [List.getElem?_append_right (Nat.le_refl _), Nat.sub_self] at hi
      cases hi
      rw [Meaning.rename_congr hk hnumbers]
      rw [number_renumber_length, renumber_append_singleton]
      exact key?_intern _ _

theorem number_renumber_lt (h : Meaning.ReferBack ms) {i : MeaningId} (hi : i < ms.length) :
    (base.renumber ms).number i < (base.renumber ms).table.size := by
  have hk := base.key?_number_renumber h (List.getElem?_eq_getElem hi)
  rw [key?, Numbering.item?_eq_getElem?_toList] at hk
  have hlt := (List.getElem?_eq_some_iff.1 hk).1
  rwa [Numbering.length_toList] at hlt

theorem number_renumber_of_le {i : MeaningId} (hi : ms.length ≤ i) :
    (base.renumber ms).number i = (base.renumber ms).table.size + i := by
  rw [Renumbering.number, List.getElem?_eq_none (by simpa using hi)]
  rfl

/-- Different numbers have different numbers standing for them. -/
theorem number_renumber_injective (hn : ms.Nodup) (h : Meaning.ReferBack ms) :
    Function.Injective (base.renumber ms).number := by
  -- first for numbers of the list, by the meanings they stand for
  have hwithin : ∀ n ≤ ms.length, ∀ i < n, ∀ j < n,
      (base.renumber ms).number i = (base.renumber ms).number j → i = j := by
    intro n
    induction n with
    | zero => exact fun _ i hi => absurd hi (Nat.not_lt_zero i)
    | succ n ih =>
      intro hle i hi j hj he
      have hi' : i < ms.length := Nat.lt_of_lt_of_le hi hle
      have hj' : j < ms.length := Nat.lt_of_lt_of_le hj hle
      have hmi := base.key?_number_renumber h (List.getElem?_eq_getElem hi')
      have hmj := base.key?_number_renumber h (List.getElem?_eq_getElem hj')
      rw [he, hmj, Option.some.injEq] at hmi
      have hbi := (h i _ (List.getElem?_eq_getElem hi')).mono (Nat.le_of_lt_succ hi)
      have hbj := (h j _ (List.getElem?_eq_getElem hj')).mono (Nat.le_of_lt_succ hj)
      have hmeaning := Meaning.rename_inj hbj hbi (ih (Nat.le_of_succ_le hle)) hmi
      exact ((List.Nodup.getElem_inj_iff hn).1 hmeaning).symm
  intro i j he
  rcases Nat.lt_or_ge i ms.length with hi | hi
  · rcases Nat.lt_or_ge j ms.length with hj | hj
    · exact hwithin _ (Nat.le_refl _) i hi j hj he
    · have hlt := base.number_renumber_lt h hi
      rw [he, base.number_renumber_of_le hj] at hlt
      exact absurd hlt (Nat.not_lt.2 (Nat.le_add_right _ _))
  · rcases Nat.lt_or_ge j ms.length with hj | hj
    · have hlt := base.number_renumber_lt h hj
      rw [← he, base.number_renumber_of_le hi] at hlt
      exact absurd hlt (Nat.not_lt.2 (Nat.le_add_right _ _))
    · rw [base.number_renumber_of_le hi, base.number_renumber_of_le hj] at he
      exact Nat.add_left_cancel he

/-- All numbers stand for what they should, those that stand for nothing included. -/
theorem key?_renumber (h : Meaning.ReferBack ms) (i : MeaningId) :
    (base.renumber ms).table.key? ((base.renumber ms).number i) =
      ms[i]?.map (Meaning.rename (base.renumber ms).number) := by
  rcases Nat.lt_or_ge i ms.length with hi | hi
  · rw [base.key?_number_renumber h (List.getElem?_eq_getElem hi), List.getElem?_eq_getElem hi]
    rfl
  · rw [base.number_renumber_of_le hi, List.getElem?_eq_none hi, key?,
      Numbering.item?_eq_getElem?_toList, List.getElem?_eq_none]
    · rfl
    · rw [Numbering.length_toList]
      exact Nat.le_add_right _ _

/-- Numbering a meaning, and numbering it renamed on top of another table, lead to a table and its
renumbering, and to a number and the one that stands for it. -/
theorem intern_renumber {table : MeaningTable} {final : List Meaning}
    (hb : Meaning.ReferBack final) {m : Meaning}
    (hf : (table.intern m).1.keys.toList <+: final) :
    (base.renumber table.keys.toList).table.intern (m.rename (base.renumber final).number) =
      ((base.renumber (table.intern m).1.keys.toList).table,
        (base.renumber final).number (table.intern m).2) := by
  -- over the numbers of the table it makes no difference what was numbered later
  have hrename : table.keys.toList <+: final → m.RefersBelow table.keys.toList.length →
      m.rename (base.renumber final).number =
        m.rename (base.renumber table.keys.toList).number := fun hp hm =>
    Meaning.rename_congr hm fun i hi => base.number_renumber_of_prefix hp hi
  by_cases hm : m ∈ table.keys.toList
  · obtain ⟨id, hid⟩ := List.mem_iff_getElem?.1 hm
    have hlt := (List.getElem?_eq_some_iff.1 hid).1
    have hkey : table.key? id = some m := by rwa [key?, Numbering.item?_eq_getElem?_toList]
    rw [intern_of_key? hkey] at hf ⊢
    have hback := hb.of_prefix hf
    rw [hrename hf ((hback id m hid).mono (Nat.le_of_lt hlt)),
      base.number_renumber_of_prefix hf hlt]
    exact intern_of_key? (base.key?_number_renumber hback hid)
  · obtain ⟨hkeys, hid⟩ := intern_of_not_mem hm
    rw [hkeys] at hf
    have hback := (Meaning.referBack_append_singleton.1 (hb.of_prefix hf)).2
    rw [hrename ((List.prefix_append _ _).trans hf) hback, hkeys, hid,
      base.number_renumber_of_prefix hf (by simp), number_renumber_length,
      renumber_append_singleton]
    rfl

end MeaningTable

end GuidedChart
