import GuidedChart.Proofs.Construction.Run
import GuidedChart.Proofs.Nodes

/-!
# Identification of outcomes

A table of meanings is used through calls, each of which names a meaning, or an outcome with the
rule and the children it came from, and is given a number. However many other calls lie between
two of them, in one pass or in several, the numbers tell outcomes apart exactly by what they mean
(`MeaningTable.answers_identify`). A pass does nothing else to a table than make calls
(`Work.Calls`), so what holds of a run of calls holds across passes.
-/

namespace GuidedChart

namespace MeaningTable

/-! ## Calls -/

/-- What became of a formula that a rule made over children of these meanings. -/
structure Executed where
  outcome : Outcome
  rule : RuleId
  first : Option MeaningId
  second : Option MeaningId

/-- Two formulas have the same value, or fail for the same cause; what their failures say is no
part of it. -/
def Executed.Same (a b : Executed) : Prop :=
  (∃ v, a.outcome = .ok v ∧ b.outcome = .ok v) ∨
    ∃ e e', a.outcome = .error e ∧ b.outcome = .error e' ∧
      a.rule = b.rule ∧ a.first = b.first ∧ a.second = b.second

inductive Call where
  | intern (meaning : Meaning)
  | canonicalize (executed : Executed)

/-- The meaning a call asks the number of. -/
def Call.meaning : Call → Meaning
  | .intern meaning => meaning
  | .canonicalize executed =>
    .ofOutcome executed.outcome executed.rule executed.first executed.second

/-- The table that calls leave behind. -/
def run (table : MeaningTable) (calls : List Call) : MeaningTable :=
  calls.foldl (fun table call => (table.intern call.meaning).1) table

/-- The numbers that calls are given, each in the table that the calls before it left. -/
def answers (table : MeaningTable) : List Call → List MeaningId
  | [] => []
  | call :: calls =>
    (table.intern call.meaning).2 :: (table.intern call.meaning).1.answers calls

/-- The numbers of a table are those below its size, and they and the meanings of one kind stand
for each other. -/
structure Pairs (table : MeaningTable) (P : Meaning → Prop) : Prop where
  id?_iff : ∀ m id, table.id? m = some id ↔ table.key? id = some m
  lt_size_iff : ∀ id, id < table.size ↔ ∃ m, table.key? id = some m
  interned_iff : ∀ m, P m ↔ ∃ id, table.id? m = some id

theorem Executed.same_iff {a b : Executed} :
    (Call.canonicalize a).meaning = (Call.canonicalize b).meaning ↔ a.Same b := by
  obtain ⟨oa, ra, fa, sa⟩ := a
  obtain ⟨ob, rb, fb, sb⟩ := b
  cases oa <;> cases ob <;> simp [Call.meaning, Meaning.ofOutcome, Same, eq_comm]

/-! ## Tables after calls -/

section Runs

variable {table later : MeaningTable} {calls : List Call}

@[simp]
theorem run_cons (call : Call) :
    table.run (call :: calls) = (table.intern call.meaning).1.run calls := rfl

theorem run_append (before after : List Call) :
    table.run (before ++ after) = (table.run before).run after :=
  List.foldl_append

theorem keys_prefix_run (table : MeaningTable) (calls : List Call) :
    table.keys.toList <+: (table.run calls).keys.toList := by
  induction calls generalizing table with
  | nil => exact List.prefix_refl _
  | cons call calls ih => exact (keys_prefix_intern table call.meaning).trans (ih _)

theorem mem_keys_intern {m m' : Meaning} :
    m' ∈ (table.intern m).1.keys.toList ↔ m' ∈ table.keys.toList ∨ m' = m := by
  by_cases hm : m ∈ table.keys.toList
  · obtain ⟨id, hid⟩ := List.mem_iff_getElem?.1 hm
    rw [intern_of_key? (by rwa [key?, Numbering.item?_eq_getElem?_toList])]
    exact ⟨Or.inl, fun h => h.elim (fun h => h) fun he => he ▸ hm⟩
  · rw [(intern_of_not_mem hm).1, List.mem_append, List.mem_singleton]

theorem mem_keys_run {m : Meaning} :
    m ∈ (table.run calls).keys.toList ↔
      m ∈ table.keys.toList ∨ ∃ call ∈ calls, call.meaning = m := by
  induction calls generalizing table with
  | nil => simp [run]
  | cons call calls ih => simp [ih, mem_keys_intern, or_assoc, eq_comm]

/-- What a call was given stands for its meaning in the table that all calls leave. -/
theorem key?_answers (table : MeaningTable) {calls : List Call} {i : Nat} {call : Call}
    (h : calls[i]? = some call) :
    ∃ id, (table.answers calls)[i]? = some id ∧ (table.run calls).key? id = some call.meaning := by
  induction calls generalizing table i with
  | nil => simp at h
  | cons c calls ih =>
    cases i with
    | zero =>
      obtain rfl := Option.some.inj h
      exact ⟨_, rfl, key?_of_prefix (keys_prefix_run _ calls) (key?_intern table c.meaning)⟩
    | succ i => exact ih _ h

theorem exists_id?_iff_mem {m : Meaning} :
    (∃ id, table.id? m = some id) ↔ m ∈ table.keys.toList := by
  simp only [List.mem_iff_getElem?, id?, Numbering.number?_eq_some_iff]

theorem lt_size_iff_exists_key? {id : MeaningId} :
    id < table.size ↔ ∃ m, table.key? id = some m := by
  rw [size, ← Numbering.length_toList]
  simp only [key?, Numbering.item?_eq_getElem?_toList, List.getElem?_eq_some_iff]
  constructor
  · exact fun h => ⟨_, h, rfl⟩
  · rintro ⟨m, hlt, -⟩
    exact hlt

theorem key?_injective {id id' : MeaningId} {m : Meaning} (h : table.key? id = some m)
    (h' : table.key? id' = some m) : id = id' := by
  rw [← id?_eq_some_iff] at h h'
  exact Option.some.inj (h.symm.trans h')

theorem pairs_run (table : MeaningTable) (calls : List Call) :
    (table.run calls).Pairs fun m =>
      (∃ id, table.id? m = some id) ∨ ∃ call ∈ calls, call.meaning = m where
  id?_iff _ _ := id?_eq_some_iff
  lt_size_iff _ := lt_size_iff_exists_key?
  interned_iff m := by rw [exists_id?_iff_mem, exists_id?_iff_mem, mem_keys_run]

end Runs

end MeaningTable

/-! ## Passes -/

/-- All that became of the table of a work is that calls were made. -/
def Work.Calls (before after : Work) : Prop :=
  ∃ calls, after.table = before.table.run calls

namespace Work.Calls

variable {before between after : Work}

theorem of_table_eq (h : after.table = before.table) : before.Calls after :=
  ⟨[], h⟩

theorem trans (h : before.Calls between) (h' : between.Calls after) : before.Calls after := by
  obtain ⟨calls, hcalls⟩ := h
  obtain ⟨more, hmore⟩ := h'
  exact ⟨calls ++ more, by rw [hmore, hcalls, MeaningTable.run_append]⟩

theorem foldl {α : Type} {f : Work → α → Work} (h : ∀ (work : Work) a, work.Calls (f work a))
    (work : Work) (as : List α) : work.Calls (as.foldl f work) :=
  List.foldlRecOn (motive := work.Calls) as f (of_table_eq rfl)
    fun _ hw a _ => hw.trans (h _ a)

/-- The entries that are there stay where they are. -/
theorem grows (h : before.Calls after) :
    before.table.keys.toList <+: after.table.keys.toList := by
  obtain ⟨calls, hcalls⟩ := h
  rw [hcalls]
  exact MeaningTable.keys_prefix_run _ _

end Work.Calls

namespace Task

variable (task : Task) (work : Work)

theorem calls_consider (i : Ingredient) (sources : List BackPointer) (single : Bool)
    (c : Derivation) : work.Calls (task.consider i sources single work c) :=
  ⟨[.canonicalize ⟨c.formula.execute, i.rule, i.first, i.second⟩], table_consider ..⟩

theorem calls_apply (rule : Rule) (target : Cell) (children : List Child) :
    work.Calls (task.apply rule target children work) := by
  unfold apply
  cases task.verdict rule target children work with
  | admitted => exact .trans (.of_table_eq rfl) (.foldl (fun w => task.calls_consider w _ _ _) _ _)
  | passedOver | disallowed | overlapping => exact .of_table_eq rfl

theorem calls_runStep (step : Step) : work.Calls (task.runStep work step) :=
  .foldl (fun w => task.calls_apply w step.rule step.target) work _

theorem calls_runBlock (steps : List Step) : work.Calls (task.runBlock work steps) :=
  (Work.Calls.foldl task.calls_runStep work steps).trans
    (.of_table_eq (task.settles_settle _).table)

theorem calls_runDepths (useful : CategoryId → Nat → Bool) (count depth : Nat) :
    work.Calls (task.runDepths useful count depth work) := by
  induction count generalizing depth work with
  | zero => exact .of_table_eq rfl
  | succ count ih =>
    unfold runDepths
    split
    · exact .of_table_eq rfl
    · exact (task.calls_runBlock work _).trans (ih _ _)

/-- A pass makes calls of its own, and nothing else happens to the table it was given. -/
theorem exists_run_build (table : MeaningTable) (cancelAt : Option Nat) :
    ∃ calls, (task.build table cancelAt).table = table.run calls := by
  obtain ⟨calls, hcalls⟩ : (Work.start table cancelAt).Calls
      (task.runDepths task.parser.depthBounds.admits (task.parser.config.maxDepth + 1) 0
        (task.anchoredSchedule.foldl task.runBlock (.start table cancelAt))) :=
    (Work.Calls.foldl task.calls_runBlock _ _).trans (task.calls_runDepths ..)
  exact ⟨calls, (task.settles_settle _).table.trans hcalls⟩

end Task

/-! ## Numbers for outcomes -/

/-- In any run of calls, two outcomes are given one number exactly if they are the same. Numbers
and meanings stand for each other in the table the calls leave, whose meanings are those of the
table they started from and those they named; what a call was given stands for its meaning, and
what a number stood for on the way it still stands for. A pass on that table is a longer run. -/
theorem MeaningTable.answers_identify (table : MeaningTable) (calls : List Call) :
    (∀ (i j : Nat) (a b : Executed), calls[i]? = some (.canonicalize a) →
      calls[j]? = some (.canonicalize b) →
      ((table.answers calls)[i]? = (table.answers calls)[j]? ↔ a.Same b)) ∧
    ((table.run calls).Pairs fun m =>
      (∃ id, table.id? m = some id) ∨ ∃ call ∈ calls, call.meaning = m) ∧
    (∀ (i : Nat) (call : Call), calls[i]? = some call → ∃ id, (table.answers calls)[i]? = some id ∧
      (table.run calls).key? id = some call.meaning) ∧
    (∀ before, before <+: calls → ∀ id m, (table.run before).key? id = some m →
      (table.run calls).key? id = some m) ∧
    ∀ (task : Task) (cancelAt : Option Nat), ∃ later,
      (task.build (table.run calls) cancelAt).table = table.run (calls ++ later) := by
  refine ⟨fun i j a b hi hj => ?_, pairs_run table calls, fun i call => key?_answers table, ?_, ?_⟩
  · obtain ⟨id, hid, hkey⟩ := key?_answers table hi
    obtain ⟨id', hid', hkey'⟩ := key?_answers table hj
    rw [hid, hid', Option.some.injEq, ← Executed.same_iff]
    constructor
    · rintro rfl
      exact Option.some.inj (hkey.symm.trans hkey')
    · intro he
      exact key?_injective hkey (he ▸ hkey')
  · rintro before ⟨after, rfl⟩ id m hm
    rw [run_append]
    exact key?_of_prefix (keys_prefix_run _ after) hm
  · intro task cancelAt
    obtain ⟨later, hlater⟩ := task.exists_run_build (table.run calls) cancelAt
    exact ⟨later, by rw [hlater, run_append]⟩

/-- A division of five by zero fails, and later another formula of the same rule and the same
children fails in another way. -/
def MeaningTable.divisions : List Call :=
  [.canonicalize ⟨.ok (.number 5), 0, none, none⟩,
    .canonicalize ⟨.ok (.number 0), 0, none, none⟩,
    .canonicalize ⟨.error .divisionByZero, 3, some 0, some 1⟩,
    .intern (.failure 4 (some 0) (some 1)),
    .canonicalize ⟨.error (.overflow "/"), 3, some 0, some 1⟩]

theorem MeaningTable.answers_identify_divisions :
    divisions[2]? = some (.canonicalize ⟨.error .divisionByZero, 3, some 0, some 1⟩) ∧
    divisions[4]? = some (.canonicalize ⟨.error (.overflow "/"), 3, some 0, some 1⟩) ∧
    (empty.answers divisions)[2]? = (empty.answers divisions)[4]? ∧
    divisions.take 3 <+: divisions ∧
    (empty.run (divisions.take 3)).key? 2 = some (.failure 3 (some 0) (some 1)) ∧
    (empty.run divisions).key? 2 = some (.failure 3 (some 0) (some 1)) := by
  obtain ⟨hsame, -, -, hkept, -⟩ := answers_identify empty divisions
  have hprefix : divisions.take 3 <+: divisions := List.take_prefix 3 divisions
  have hkey : (empty.run (divisions.take 3)).key? 2 = some (.failure 3 (some 0) (some 1)) := by
    decide +kernel
  exact ⟨rfl, rfl, (hsame 2 4 _ _ rfl rfl).2 (.inr ⟨_, _, rfl, rfl, rfl, rfl, rfl⟩), hprefix,
    hkey, hkept _ hprefix 2 _ hkey⟩

end GuidedChart
