import GuidedChart.Derivation
import GuidedChart.Meaning
import Mathlib.Data.List.Induction
import Mathlib.Data.List.Nodup

/-!
# Senses

A meaning refers to the meanings of children by their numbers in a table, so it cannot be compared
with a meaning of another table. Its *sense* is the meaning with all numbers spelled out. The sense
of a derivation can be read off the derivation itself, with no table at hand.

In a table whose failures refer back to earlier entries, different numbers have different senses
(`sense?_inj`), numbering more meanings keeps the senses there are (`senses_prefix`), and the number
a meaning gets has the sense of the meaning (`sense?_intern`).
-/

namespace GuidedChart

/-- A meaning with everything spelled out that it refers to. -/
inductive Sense where
  | value (v : Value)
  | failure (rule : RuleId) (first second : Option Sense)

namespace Sense

def value? : Sense → Option Value
  | .value v => some v
  | .failure _ _ _ => none

/-- The sense of what a rule makes of children with these senses: the value, or else a failure of
the rule. -/
def ofValue? (rule : RuleId) (children : List Sense) : Option Value → Sense
  | some v => .value v
  | none => .failure rule children[0]? children[1]?

@[simp]
theorem value?_ofValue? (rule : RuleId) (children : List Sense) (v : Option Value) :
    (ofValue? rule children v).value? = v := by
  cases v <;> rfl

end Sense

/-- The value of a formula, if its execution succeeds. -/
def Formula.value? (formula : Formula) : Option Value :=
  formula.execute.value?

/-! ## The sense of a derivation -/

namespace Derivation

mutual

/-- What the formula of a derivation comes to; failures are told apart by the rule and the senses of
the children. -/
def sense : Derivation → Sense
  | ⟨rule, _, formula, children, _, _, _⟩ => .ofValue? rule.id (senses children) formula.value?

def senses : List Derivation → List Sense
  | [] => []
  | d :: ds => sense d :: senses ds

end

theorem senses_eq_map (ds : List Derivation) : senses ds = ds.map sense := by
  induction ds with
  | nil => rfl
  | cons d ds ih => rw [senses, ih, List.map_cons]

theorem sense_eq (d : Derivation) :
    d.sense = .ofValue? d.rule.id (d.children.map sense) d.formula.value? := by
  cases d
  rw [sense, senses_eq_map]

theorem value?_sense (d : Derivation) : d.sense.value? = d.formula.value? := by
  rw [sense_eq, Sense.value?_ofValue?]

theorem sense_congr {d e : Derivation} (hr : d.rule = e.rule) (hf : d.formula = e.formula)
    (hc : d.children = e.children) : d.sense = e.sense := by
  rw [sense_eq, sense_eq, hr, hf, hc]

end Derivation

/-! ## The senses of a table -/

namespace Meaning

/-- The sense of a meaning over the senses of the numbers it may refer to. -/
def sense (known : List Sense) : Meaning → Sense
  | .value v => .value v
  | .failure rule first second =>
    .failure rule (first.bind (known[·]?)) (second.bind (known[·]?))

/-- Are all numbers the meaning refers to below a bound? -/
def RefersBelow (n : Nat) : Meaning → Prop
  | .value _ => True
  | .failure _ first second => (∀ id ∈ first, id < n) ∧ (∀ id ∈ second, id < n)

theorem RefersBelow.mono {m : Meaning} {n k : Nat} (h : m.RefersBelow n) (hk : n ≤ k) :
    m.RefersBelow k := by
  cases m with
  | value v => trivial
  | failure rule first second =>
    exact ⟨fun id hid => Nat.lt_of_lt_of_le (h.1 id hid) hk,
      fun id hid => Nat.lt_of_lt_of_le (h.2 id hid) hk⟩

theorem bind_getElem?_append {known : List Sense} {id : Option MeaningId}
    (h : ∀ i ∈ id, i < known.length) (more : List Sense) :
    id.bind ((known ++ more)[·]?) = id.bind (known[·]?) := by
  cases id with
  | none => rfl
  | some i => exact List.getElem?_append_left (h i rfl)

/-- What is numbered later does not change the sense of a meaning. -/
theorem sense_append {m : Meaning} {known : List Sense} (h : m.RefersBelow known.length)
    (more : List Sense) : m.sense (known ++ more) = m.sense known := by
  cases m with
  | value v => rfl
  | failure rule first second =>
    simp only [sense, bind_getElem?_append h.1, bind_getElem?_append h.2]

theorem bind_getElem?_inj {known : List Sense} (hn : known.Nodup) {a b : Option MeaningId}
    (ha : ∀ i ∈ a, i < known.length) (hb : ∀ i ∈ b, i < known.length)
    (h : a.bind (known[·]?) = b.bind (known[·]?)) : a = b := by
  cases a with
  | none =>
    cases b with
    | none => rfl
    | some j =>
      have hj := hb j rfl
      simp [List.getElem?_eq_getElem hj] at h
  | some i =>
    have hi := ha i rfl
    cases b with
    | none => simp [List.getElem?_eq_getElem hi] at h
    | some j => exact congrArg some ((List.getElem?_inj hi hn).1 h)

/-- Over different senses, different meanings have different senses. -/
theorem sense_inj {known : List Sense} (hn : known.Nodup) {m n : Meaning}
    (hm : m.RefersBelow known.length) (hk : n.RefersBelow known.length)
    (h : m.sense known = n.sense known) : m = n := by
  cases m with
  | value v =>
    cases n with
    | value w => rw [Sense.value.inj h]
    | failure => cases h
  | failure rule first second =>
    cases n with
    | value => cases h
    | failure rule' first' second' =>
      obtain ⟨hr, hf, hs⟩ := Sense.failure.inj h
      rw [hr, bind_getElem?_inj hn hm.1 hk.1 hf, bind_getElem?_inj hn hm.2 hk.2 hs]

/-- The senses of several meanings, each of which may refer to those before it. -/
def senses (meanings : List Meaning) : List Sense :=
  meanings.foldl (fun known m => known ++ [m.sense known]) []

theorem senses_append_singleton (meanings : List Meaning) (m : Meaning) :
    senses (meanings ++ [m]) = senses meanings ++ [m.sense (senses meanings)] := by
  simp only [senses, List.foldl_append, List.foldl_cons, List.foldl_nil]

theorem senses_prefix {meanings later : List Meaning} (h : meanings <+: later) :
    senses meanings <+: senses later := by
  obtain ⟨more, rfl⟩ := h
  induction more using List.reverseRecOn with
  | nil => simp only [List.append_nil, List.prefix_refl]
  | append_singleton more m ih =>
    rw [← List.append_assoc, senses_append_singleton]
    exact ih.trans (List.prefix_append _ _)

@[simp]
theorem length_senses (meanings : List Meaning) : (senses meanings).length = meanings.length := by
  induction meanings using List.reverseRecOn with
  | nil => rfl
  | append_singleton meanings m ih => simp [senses_append_singleton, ih]

/-- Does every meaning of a list refer only to those before it? -/
def ReferBack (meanings : List Meaning) : Prop :=
  ∀ (i : Nat) (m : Meaning), meanings[i]? = some m → m.RefersBelow i

theorem referBack_append_singleton {meanings : List Meaning} {m : Meaning} :
    ReferBack (meanings ++ [m]) ↔ ReferBack meanings ∧ m.RefersBelow meanings.length := by
  constructor
  · intro h
    refine ⟨fun i n hi => h i n ?_, h meanings.length m ?_⟩
    · rw [List.getElem?_append_left (List.getElem?_eq_some_iff.1 hi).1, hi]
    · simp
  · rintro ⟨h, hm⟩ i n hi
    rcases Nat.lt_or_ge i meanings.length with hlt | hge
    · exact h i n (by rwa [List.getElem?_append_left hlt] at hi)
    · rw [List.getElem?_append_right hge, List.getElem?_singleton] at hi
      split at hi
      · have : i = meanings.length := by omega
        cases hi
        rwa [this]
      · cases hi

/-- Each sense is the sense of the meaning in its place over all of them. -/
theorem getElem?_senses {meanings : List Meaning} (h : ReferBack meanings) (i : Nat) :
    (senses meanings)[i]? = meanings[i]?.map (sense (senses meanings)) := by
  induction meanings using List.reverseRecOn with
  | nil => rfl
  | append_singleton meanings m ih =>
    obtain ⟨hb, hm⟩ := referBack_append_singleton.1 h
    rw [senses_append_singleton]
    rcases Nat.lt_trichotomy i meanings.length with hlt | rfl | hgt
    · rw [List.getElem?_append_left (by rwa [length_senses]), ih hb,
        List.getElem?_append_left hlt, List.getElem?_eq_getElem hlt]
      have hi := (hb i _ (List.getElem?_eq_getElem hlt)).mono (Nat.le_of_lt hlt)
      rw [← length_senses] at hi
      exact congrArg some (sense_append hi _).symm
    · rw [← length_senses] at hm
      rw [List.getElem?_append_right (by simp), List.getElem?_append_right (Nat.le_refl _)]
      simp [sense_append hm]
    · rw [List.getElem?_eq_none (by simp; omega), List.getElem?_eq_none (by simp; omega)]
      rfl

theorem nodup_senses {meanings : List Meaning} (hn : meanings.Nodup) (h : ReferBack meanings) :
    (senses meanings).Nodup := by
  induction meanings using List.reverseRecOn with
  | nil => exact List.nodup_nil
  | append_singleton meanings m ih =>
    obtain ⟨hb, hm⟩ := referBack_append_singleton.1 h
    have hd := List.nodup_append.1 hn
    have hk := ih hd.1 hb
    rw [senses_append_singleton, List.nodup_append]
    refine ⟨hk, List.nodup_singleton _, ?_⟩
    rintro s hs t ht rfl
    rw [List.mem_singleton.1 ht] at hs
    obtain ⟨i, hi⟩ := List.mem_iff_getElem?.1 hs
    rw [getElem?_senses hb, Option.map_eq_some_iff] at hi
    obtain ⟨n, hin, hsense⟩ := hi
    have hn' : n.RefersBelow (senses meanings).length :=
      (hb i n hin).mono (by
        rw [length_senses]
        exact Nat.le_of_lt (List.getElem?_eq_some_iff.1 hin).1)
    have : n = m := sense_inj hk hn' (by rwa [length_senses]) hsense
    exact hd.2.2 n (List.mem_of_getElem? hin) m (List.mem_singleton_self m) this

end Meaning

namespace MeaningTable

/-- The senses of the numbers of a table, in their order. -/
def senses (table : MeaningTable) : List Sense :=
  Meaning.senses table.keys.toList

/-- The sense of a number. -/
def sense? (table : MeaningTable) (id : MeaningId) : Option Sense :=
  table.senses[id]?

/-- Do the failures of a table refer to earlier entries only? They do in a table that a pass has
numbered, since the children of a failure are numbered before it. -/
def RefersBack (table : MeaningTable) : Prop :=
  Meaning.ReferBack table.keys.toList

theorem refersBack_empty : empty.RefersBack := by
  intro i m h
  cases h

@[simp]
theorem length_senses (table : MeaningTable) : table.senses.length = table.size := by
  rw [senses, Meaning.length_senses, Numbering.length_toList, size]

theorem lt_size_of_sense? {table : MeaningTable} {id : MeaningId} {s : Sense}
    (h : table.sense? id = some s) : id < table.size := by
  rw [← length_senses]
  exact (List.getElem?_eq_some_iff.1 h).1

theorem sense?_eq {table : MeaningTable} (h : table.RefersBack) (id : MeaningId) :
    table.sense? id = (table.key? id).map (Meaning.sense table.senses) := by
  rw [key?, Numbering.item?_eq_getElem?_toList]
  exact Meaning.getElem?_senses h id

theorem sense?_inj {table : MeaningTable} (h : table.RefersBack) {i j : MeaningId} {s : Sense}
    (hi : table.sense? i = some s) (hj : table.sense? j = some s) : i = j :=
  (List.getElem?_inj (List.getElem?_eq_some_iff.1 hi).1
    (Meaning.nodup_senses table.keys.nodup_toList h)).1 (hi.trans hj.symm)

/-- A number that has a sense keeps it in a table with more entries. -/
theorem sense?_of_prefix {table later : MeaningTable} (h : table.senses <+: later.senses)
    {id : MeaningId} {s : Sense} (hs : table.sense? id = some s) : later.sense? id = some s := by
  obtain ⟨more, hm⟩ := h
  rw [sense?, ← hm, List.getElem?_append_left (List.getElem?_eq_some_iff.1 hs).1]
  exact hs

/-- The value a number stands for can be read off its sense. -/
theorem value?_sense? {table : MeaningTable} (h : table.RefersBack) (id : MeaningId) :
    (table.sense? id).bind Sense.value? = (table.key? id).bind Meaning.value? := by
  rw [sense?_eq h]
  cases table.key? id with
  | none => rfl
  | some m => cases m <;> rfl

/-! ### Numbering a meaning -/

theorem toList_intern (table : MeaningTable) (m : Meaning) :
    (table.intern m).1.keys.toList = table.keys.toList ∨
      (table.intern m).1.keys.toList = table.keys.toList ++ [m] := by
  unfold intern
  split
  · exact Or.inl rfl
  · rename_i hn
    exact Or.inr (Numbering.toList_push _ _ hn)

theorem keys_prefix_intern (table : MeaningTable) (m : Meaning) :
    table.keys.toList <+: (table.intern m).1.keys.toList := by
  rcases toList_intern table m with h | h
  · simp only [h, List.prefix_refl]
  · simp only [h, List.prefix_append]

/-- A number goes on standing for what it stood for in a table with more entries. -/
theorem key?_of_prefix {table later : MeaningTable}
    (h : table.keys.toList <+: later.keys.toList) {id : MeaningId} {m : Meaning}
    (hm : table.key? id = some m) : later.key? id = some m := by
  rw [key?, Numbering.item?_eq_getElem?_toList] at hm ⊢
  obtain ⟨more, he⟩ := h
  rw [← he, List.getElem?_append_left (List.getElem?_eq_some_iff.1 hm).1, hm]

theorem intern_of_key? {table : MeaningTable} {m : Meaning} {id : MeaningId}
    (h : table.key? id = some m) : table.intern m = (table, id) := by
  rw [key?, Numbering.item?_eq_getElem?_toList, ← Numbering.number?_eq_some_iff] at h
  unfold intern
  split
  · rename_i number hn
    rw [Option.some.inj (hn.symm.trans h)]
  · rename_i hn
    exact absurd (hn.symm.trans h) (by simp)

/-- A meaning that was numbered once has its number in every later table. -/
theorem intern_of_prefix {table later : MeaningTable} {m : Meaning}
    (h : (table.intern m).1.keys.toList <+: later.keys.toList) :
    later.intern m = (later, (table.intern m).2) :=
  intern_of_key? <| key?_of_prefix h (key?_intern table m)

theorem intern_of_not_mem {table : MeaningTable} {m : Meaning} (h : m ∉ table.keys.toList) :
    (table.intern m).1.keys.toList = table.keys.toList ++ [m] ∧
      (table.intern m).2 = table.keys.toList.length := by
  have hn := Numbering.number?_eq_none_iff.2 h
  unfold intern
  split
  · rename_i id hid
    exact absurd (hid.symm.trans hn) (Option.some_ne_none id)
  · exact ⟨Numbering.toList_push _ _ hn, (Numbering.length_toList _).symm⟩

theorem senses_prefix {table later : MeaningTable}
    (h : table.keys.toList <+: later.keys.toList) : table.senses <+: later.senses :=
  Meaning.senses_prefix h

/-- Numbering a meaning leaves the senses there are. -/
theorem senses_prefix_intern (table : MeaningTable) (m : Meaning) :
    table.senses <+: (table.intern m).1.senses :=
  senses_prefix (keys_prefix_intern table m)

theorem RefersBack.intern {table : MeaningTable} (h : table.RefersBack) {m : Meaning}
    (hm : m.RefersBelow table.size) : (table.intern m).1.RefersBack := by
  unfold RefersBack
  rcases toList_intern table m with he | he
  · rwa [he]
  · rw [he]
    exact Meaning.referBack_append_singleton.2 ⟨h, by rwa [Numbering.length_toList]⟩

theorem sense?_intern {table : MeaningTable} (h : table.RefersBack) {m : Meaning}
    (hm : m.RefersBelow table.size) :
    (table.intern m).1.sense? (table.intern m).2 = some (m.sense table.senses) := by
  rw [sense?_eq (h.intern hm), key?_intern, Option.map_some]
  obtain ⟨more, hs⟩ := senses_prefix_intern table m
  rw [← hs, Meaning.sense_append (by rwa [length_senses])]

end MeaningTable

end GuidedChart
