import GuidedChart.Proofs.Parsing

/-!
# A guided parse is precise

If no rule leaves a choice and no rule reads the root, every candidate of a guided parse answers
the target (`Parser.answers_of_mem_candidates`). An ingredient does not say which children it stands
for, only what they mean; but what a rule without a choice makes of its children depends on their
senses alone. So an ingredient of a root entry accounts for one sense (`Accounts.unique`), in the
first pass and in the second, which share a table. As nothing is built from root entries, the only
ingredients of root cells that the second pass may use are those of the entries that answer the
target.
-/

namespace GuidedChart

open GuidedChart.Derivation (sense)

/-- The phrase on which a rule for the cell stands. -/
def Cell.phrase? (tokens : List String) : Cell → Option String
  | .anchored _ start stop => GuidedChart.phrase? tokens start stop
  | .floating _ _ => none

theorem Application.phrase?_eq (rule : Rule) (cell : Cell) (children : List Derivation)
    (tokens : List String) :
    (⟨rule, cell.span, children⟩ : Application).phrase? tokens = cell.phrase? tokens := by
  cases cell <;> rfl

/-! ## What an ingredient accounts for -/

/-- The rule of the ingredient makes this sense of children of the meanings that the ingredient
names. -/
def Accounts (grammar : Grammar) (tokens : List String) (table : MeaningTable) (i : Ingredient)
    (s : Sense) : Prop :=
  ∃ rule ∈ grammar.rules, rule.id = i.rule ∧ ∃ children : List Sense, children.length ≤ 2 ∧
    i.first.map table.sense? = children[0]?.map some ∧
    i.second.map table.sense? = children[1]?.map some ∧
    s ∈ rule.senses (i.cell.phrase? tokens) children

namespace Accounts

variable {grammar : Grammar} {tokens : List String} {table later : MeaningTable} {i : Ingredient}
  {s t : Sense}

theorem map_sense?_mono (h : table.senses <+: later.senses) {id : Option MeaningId}
    {child : Option Sense} (hm : id.map table.sense? = child.map some) :
    id.map later.sense? = child.map some := by
  cases id with
  | none => exact hm
  | some n =>
    cases child with
    | none => cases hm
    | some c => exact congrArg some (MeaningTable.sense?_of_prefix h (Option.some.inj hm))

theorem mono (h : Accounts grammar tokens table i s) (hl : table.senses <+: later.senses) :
    Accounts grammar tokens later i s := by
  obtain ⟨rule, hr, hid, children, hlen, hfirst, hsecond, hs⟩ := h
  exact ⟨rule, hr, hid, children, hlen, map_sense?_mono hl hfirst, map_sense?_mono hl hsecond, hs⟩

/-- Without a choice, an ingredient accounts for one sense. -/
theorem unique (hg : grammar.Accepted)
    (hchoice : ∀ rule ∈ grammar.rules, ∀ alternatives, rule.semantics ≠ .choice alternatives)
    (h : Accounts grammar tokens table i s) (k : Accounts grammar tokens table i t) : s = t := by
  obtain ⟨rule, hr, hid, children, hlen, hfirst, hsecond, hs⟩ := h
  obtain ⟨rule', hr', hid', children', hlen', hfirst', hsecond', ht⟩ := k
  obtain rfl : rule = rule' := hg.eq_of_id_eq hr hr' (hid.trans hid'.symm)
  have hinj : Function.Injective (Option.map (some : Sense → Option Sense)) :=
    Option.map_injective (Option.some_injective _)
  have hchildren : children = children' := by
    refine List.ext_getElem? fun n => ?_
    match n with
    | 0 => exact hinj (hfirst.symm.trans hfirst')
    | 1 => exact hinj (hsecond.symm.trans hsecond')
    | n + 2 => rw [List.getElem?_eq_none (by omega), List.getElem?_eq_none (by omega)]
  subst hchildren
  exact Rule.senses_unique (hchoice rule hr) hs ht

end Accounts

/-! ## What holds in both passes -/

/-- What is true of the ways in which the records of a work came about. -/
structure Work.Accounted (task : Task) (work : Work) : Prop where
  sound : work.Sound
  exists_ingredient : ∀ key, work.chart.Holds key → ∃ i, i ∈ work.chart.ingredientsOf key
  allowed : ∀ key, ∀ i ∈ work.chart.ingredientsOf key, task.allows i = true
  cell : ∀ key, ∀ i ∈ work.chart.ingredientsOf key, i.cell = key.cell
  /-- Nothing is built from a root entry. -/
  noRoot : ∀ key source, work.chart.Back key source →
    source.cell.category ≠ task.parser.grammar.root
  /-- The ingredients of a root entry account for its sense. -/
  accounts : ∀ key, key.cell.category = task.parser.grammar.root →
    ∀ i ∈ work.chart.ingredientsOf key, ∃ s, work.table.sense? key.meaning = some s ∧
      Accounts task.parser.grammar task.tokens work.table i s

namespace Task

variable {task : Task} {step : Step} {work : Work} {groups : List (List Finding)}

theorem Finds.accounts (hs : work.Sound) (hlegal : step.Legal task.parser.grammar)
    {children : List Child} (hc : children ∈ work.readings step) {single : Bool} {f : Finding}
    (hf : task.Finds step.rule step.target children single f) :
    Accounts task.parser.grammar task.tokens work.table f.ingredient f.derivation.sense := by
  obtain ⟨c, hcand, -, hfin⟩ := mem_accepted.1 hf.derivation
  have hknown : work.table.Knows children := fun child hm => by
    obtain ⟨cell, -, hchild⟩ := Work.exists_cell_of_mem_readings hc hm
    exact hs.knows cell child hchild
  have hchild : ∀ n : Nat, (children[n]?.map (·.key.meaning)).map work.table.sense? =
      ((children.map fun child => child.derivation.sense)[n]?).map some := by
    intro n
    rw [List.getElem?_map]
    cases hn : children[n]? with
    | none => rfl
    | some child => exact congrArg some (hknown child (List.mem_of_getElem? hn))
  have hsense : c.sense ∈ step.rule.senses (step.target.phrase? task.tokens)
      (children.map fun child => child.derivation.sense) := by
    have hm := List.mem_map_of_mem (f := sense) hcand
    rw [Application.map_sense_candidates, application, Application.phrase?_eq, List.map_map] at hm
    exact hm
  rw [hf.ingredient, ← hfin, sense_finished]
  refine ⟨step.rule, hlegal.rule, rfl, _, ?_, hchild 0, hchild 1, hsense⟩
  rw [List.length_map, (Work.mem_readings.1 hc).length_eq]
  exact hlegal.length

end Task

namespace Work.Accounted

variable {task : Task} {step : Step} {work : Work}

theorem runStep (h : work.Accounted task) (hlegal : step.Legal task.parser.grammar)
    (hroot : ∀ rule ∈ task.parser.grammar.rules,
      task.parser.grammar.root ∉ rule.childCategories) :
    (task.runStep work step).Accounted task := by
  obtain ⟨groups, hall, hg⟩ := h.sound.exists_attempts task step
  have hnew : ∀ f ∈ groups.flatten, task.allows f.ingredient = true ∧
      f.ingredient.cell = f.key.cell ∧ (f.key.cell.category = task.parser.grammar.root →
        Accounts task.parser.grammar task.tokens work.table f.ingredient f.derivation.sense) := by
    intro f hf
    obtain ⟨children, hc, single, -, -, g, -, hfinds, hlift⟩ := Task.exists_finds_of_mem hall hf
    rcases hlift with rfl | ⟨hl, hcell, hallows⟩
    · refine ⟨?_, ?_, fun _ => hfinds.accounts h.sound hlegal hc⟩
      · have ha := hfinds.admits
        rw [Task.admits, Bool.and_eq_true] at ha
        rw [hfinds.ingredient]
        exact ha.1
      · rw [hfinds.ingredient, hfinds.cell]
        rfl
    · refine ⟨hallows, by rw [hl.ingredient], fun hcategory => ?_⟩
      -- root cells are not lifted
      obtain ⟨-, hlifts, hfloat⟩ := Task.eq_of_mem_lift? hcell
      rw [hfloat, Cell.category] at hcategory
      simp [Parser.lifts, hcategory] at hlifts
  refine ⟨h.sound.runStep task step, fun key hk => ?_, fun key i hi => ?_, fun key i hi => ?_,
    fun key source hb => ?_, fun key hcategory i hi => ?_⟩
  · rw [hg.chart, Chart.holds_addAll] at hk
    rw [hg.chart]
    rcases hk with hk | ⟨f, hf, hkey⟩
    · obtain ⟨i, hi⟩ := h.exists_ingredient key hk
      exact ⟨i, Chart.mem_ingredientsOf_addAll.2 (Or.inl hi)⟩
    · exact ⟨_, Chart.mem_ingredientsOf_addAll.2 (Or.inr ⟨f, hf, hkey, rfl⟩)⟩
  · rw [hg.chart, Chart.mem_ingredientsOf_addAll] at hi
    rcases hi with hi | ⟨f, hf, -, rfl⟩
    · exact h.allowed key i hi
    · exact (hnew f hf).1
  · rw [hg.chart, Chart.mem_ingredientsOf_addAll] at hi
    rcases hi with hi | ⟨f, hf, rfl, rfl⟩
    · exact h.cell key i hi
    · exact (hnew f hf).2.1
  · rw [Chart.Back, hg.chart, Chart.mem_backPointersOf_addAll] at hb
    rcases hb with hb | ⟨f, hf, -, hsource⟩
    · exact h.noRoot key source hb
    · -- no rule reads a root cell, and none is lifted
      rcases Task.cells_of_mem h.sound.keyed hall hf with ⟨-, hsources⟩ | ⟨hcell, g, -, htarget, he⟩
      · intro hr
        exact hroot _ hlegal.rule (hr ▸ hlegal.sources _ (hsources source hsource))
      · rw [he, List.mem_singleton] at hsource
        obtain ⟨-, hlifts, -⟩ := Task.eq_of_mem_lift? hcell
        rw [hsource, htarget]
        intro hr
        simp [Parser.lifts, hr] at hlifts
  · rw [hg.chart, Chart.mem_ingredientsOf_addAll] at hi
    rcases hi with hi | ⟨f, hf, rfl, rfl⟩
    · obtain ⟨s, hs, ha⟩ := h.accounts key hcategory i hi
      exact ⟨s, hg.sense?_of_sense? hs, ha.mono hg.senses⟩
    · exact ⟨_, hg.sense? f hf, ((hnew f hf).2.2 hcategory).mono hg.senses⟩

theorem settle (h : work.Accounted task) : (task.settle work).Accounted task := by
  have hs := task.settles_settle work
  refine ⟨h.sound.settle task, fun key hk => ?_, fun key i hi => ?_, fun key i hi => ?_,
    fun key source hb => ?_, fun key hcategory i hi => ?_⟩
  · rw [hs.chart.ingredientsOf]
    exact h.exists_ingredient key ((hs.chart.holds key).1 hk)
  · rw [hs.chart.ingredientsOf] at hi
    exact h.allowed key i hi
  · rw [hs.chart.ingredientsOf] at hi
    exact h.cell key i hi
  · rw [Chart.Back, hs.chart.backPointersOf] at hb
    exact h.noRoot key source hb
  · rw [hs.chart.ingredientsOf] at hi
    rw [hs.table]
    exact h.accounts key hcategory i hi

end Work.Accounted

/-! ## From one pass to the other -/

namespace Task

theorem exists_accounted (task : Task) (useful : CategoryId → Nat → Bool) {table : MeaningTable}
    (cancelAt : Option Nat) (h : task.parser.grammar.Accepted)
    (hroot : ∀ rule ∈ task.parser.grammar.rules, task.parser.grammar.root ∉ rule.childCategories)
    (ht : table.RefersBack) :
    ∃ work : Work, work.Accounted task ∧ table.senses <+: work.table.senses ∧
      (task.runWith useful table cancelAt).chart = work.chart ∧
      (task.runWith useful table cancelAt).table = work.table := by
  obtain ⟨n, hn⟩ := task.exists_endsAt_run useful table cancelAt
  have hlead : (task.workAfter useful table cancelAt 0).LeadsTo
      (task.workAfter useful table cancelAt n) := leadsTo_workAfter ht (Nat.zero_le n)
  refine ⟨_, ?_, hlead.senses, hn.chart, hn.table_eq⟩
  refine workAfter_induction (P := Work.Accounted task)
    (fun steps hsteps step hstep w hw => hw.runStep (legal_of_mem_plan h hsteps hstep) hroot)
    (fun _ hw => hw.settle) ?_ n
  exact ⟨Work.sound_start ht cancelAt,
    fun key hk => absurd hk (Work.not_holds_start table cancelAt key), nofun, nofun, nofun, nofun⟩

end Task

/-- Nothing but the roots themselves lies behind roots in root cells. -/
theorem Work.Accounted.mem_of_behind {task : Task} {work : Work} (h : work.Accounted task)
    {roots : List BackPointer} {key : BackPointer} (hb : work.chart.Behind roots key)
    (hcategory : key.cell.category = task.parser.grammar.root) : key ∈ roots := by
  obtain ⟨root, hr, hk⟩ := hb
  cases hk with
  | refl => exact hr
  | tail _ hback => exact absurd hcategory (h.noRoot _ _ hback)

/-- If a later pass is kept to what lies behind some roots, whatever it comes to in a root cell has
the sense of one of them. -/
theorem Work.Accounted.exists_root {a b : Task} {v w : Work} (hv : v.Accounted a)
    (hw : w.Accounted b) (hparser : b.parser = a.parser) (htokens : b.tokens = a.tokens)
    (hg : a.parser.grammar.Accepted)
    (hchoice : ∀ rule ∈ a.parser.grammar.rules, ∀ alternatives,
      rule.semantics ≠ .choice alternatives)
    (htable : v.table.senses <+: w.table.senses) {roots : List BackPointer}
    (hallowed : ∀ i, b.allows i = true →
      ∃ key, v.chart.Behind roots key ∧ i ∈ v.chart.ingredientsOf key)
    {key : BackPointer} (hkey : key.cell.category = a.parser.grammar.root) {d : Derivation}
    (hd : d ∈ w.chart.derivationsOf key) :
    ∃ root ∈ roots, v.table.sense? root.meaning = some d.sense := by
  obtain ⟨i, hi⟩ := hw.exists_ingredient key (Chart.holds_of_mem_derivationsOf hd)
  obtain ⟨root, hbehind, hi'⟩ := hallowed i (hw.allowed key i hi)
  have hcell : root.cell = key.cell := (hv.cell root i hi').symm.trans (hw.cell key i hi)
  have hroot : root.cell.category = a.parser.grammar.root := by rw [hcell, hkey]
  obtain ⟨s, hs, haccounts⟩ := hv.accounts root hroot i hi'
  obtain ⟨t, ht, haccounts'⟩ := hw.accounts key (hparser ▸ hkey) i hi
  rw [hparser, htokens] at haccounts'
  have hst : s = t := (haccounts.mono htable).unique hg hchoice haccounts'
  have hsense := hw.sound.sense? key d hd
  rw [ht, Option.some.injEq] at hsense
  exact ⟨root, hv.mem_of_behind hbehind hroot, by rw [hs, hst, hsense]⟩

/-- Whatever becomes of the passes, a guided request answers with correct parses only. -/
theorem Parser.answers_of_mem_candidates {grammar : Grammar} {config : Config} {scorer : Scorer}
    {parser : Parser} (hparser : Parser.ofConfig grammar config scorer = .ok parser)
    (hgrammar : grammar.Accepted)
    (hchoice : ∀ rule ∈ grammar.rules, ∀ alternatives, rule.semantics ≠ .choice alternatives)
    (hroot : ∀ rule ∈ grammar.rules, grammar.root ∉ rule.childCategories)
    (hbackoff : config.backoff = false) (fates : Fates) {ex : Example} {target : Value}
    (htarget : ex.target = some target) {expectedCounts : Bool}
    (hruns : parser.runsFirst ex expectedCounts = true) :
    ∃ result, parser.parseWith fates ex expectedCounts = .ok result ∧
      ∀ d ∈ result.candidates, ∃ v, d.outcome = some (.ok v) ∧ target.Answers v := by
  obtain ⟨rfl, rfl, -⟩ := Parser.eq_of_ofConfig hparser
  obtain ⟨guidance, hlook, hguides⟩ := Parser.exists_lookForTarget hgrammar ex target fates.first
  have hguidance : parser.guidance? ex expectedCounts fates.first = .ok (some guidance) := by
    rw [Parser.guidance?_of_runsFirst htarget hruns, hlook]
    rfl
  obtain ⟨result, hresult, hcandidates, -⟩ := Parser.exists_parseWith hbackoff hguidance
  refine ⟨result, hresult, fun d hd => ?_⟩
  rw [hcandidates] at hd
  -- the second pass was not lost, or there would be no candidate
  by_cases hsecond : fates.second = .lost
  · rw [hsecond] at hd
    cases hd
  obtain ⟨report, hrun⟩ := (parser.secondTask ex (some guidance.allowed)).runTo_of_ne_lost hsecond
    guidance.table
  change d ∈ parser.candidatesOf ((parser.secondTask ex (some guidance.allowed)).runTo
    fates.second guidance.table).1 ex at hd
  rw [hrun] at hd
  obtain ⟨cell, hcell, hd⟩ := List.mem_flatMap.1 hd
  obtain ⟨meaning, hd⟩ := Chart.exists_derivationsOf_of_mem_derivations hd
  have hcategory := Parser.category_of_mem_rootCells hcell
  have hrefers : guidance.table.RefersBack := by
    rcases hguides with ⟨-, hempty, -⟩ | ⟨-, hguides⟩
    · rw [hempty]
      exact MeaningTable.refersBack_empty
    · rw [hguides.table]
      exact Task.refersBack_build _ MeaningTable.refersBack_empty _
  obtain ⟨w, hw, hprefix, hchart, -⟩ :=
    (parser.secondTask ex (some guidance.allowed)).exists_accounted parser.depthBounds.admits
      fates.second.cancelAt? hgrammar hroot hrefers
  change d ∈ ((parser.secondTask ex (some guidance.allowed)).runWith parser.depthBounds.admits
    guidance.table fates.second.cancelAt?).chart.derivationsOf _ at hd
  rw [hchart] at hd
  rcases hguides with ⟨-, -, hnone⟩ | ⟨-, hguides⟩
  · -- a first pass that is lost leaves nothing to be used
    obtain ⟨i, hi⟩ := hw.exists_ingredient _ (Chart.holds_of_mem_derivationsOf hd)
    have hmem := Parser.allows_secondTask.1 (hw.allowed _ i hi)
    rw [hnone] at hmem
    cases hmem
  · obtain ⟨v, hv, -, hchart', htable'⟩ := (parser.firstTask ex).exists_accounted
      parser.depthBounds.admits fates.first.cancelAt? hgrammar hroot MeaningTable.refersBack_empty
    have htable : guidance.table = v.table := hguides.table.trans htable'
    have hallowed : ∀ i, (parser.secondTask ex (some guidance.allowed)).allows i = true →
        ∃ key, v.chart.Behind (parser.targetRoots ((parser.firstTask ex).build .empty
          fates.first.cancelAt?) ex.tokens.length target) key ∧ i ∈ v.chart.ingredientsOf key := by
      intro i hi
      rw [← hchart']
      exact (hguides.allowed i).1 (Parser.allows_secondTask.1 hi)
    obtain ⟨root, hmem, hsense⟩ := hv.exists_root hw rfl rfl hgrammar hchoice (htable ▸ hprefix)
      hallowed hcategory hd
    obtain ⟨answer, hanswer, hanswers⟩ := Parser.exists_answer_of_mem_targetRoots
      (Task.refersBack_build _ MeaningTable.refersBack_empty _) hmem
    rw [← hguides.table, htable, hsense] at hanswer
    exact ⟨answer, Derivation.outcome_of_value?_sense (hw.sound.executed _ d hd) hanswer, hanswers⟩

/-- Asked for a product, the parse has a candidate, and it is the product. -/
theorem Parser.answers_of_mem_candidates_arithmetic :
    ∃ result, Parser.arithmetic.parseWith {} ⟨["three"], some (.number 9)⟩ true = .ok result ∧
      result.candidates.length = 1 ∧
      ∀ d ∈ result.candidates, ∃ v, d.outcome = some (.ok v) ∧ (Value.number 9).Answers v := by
  let ex : Example := ⟨["three"], some (.number 9)⟩
  obtain ⟨result, hresult, hall⟩ := Parser.answers_of_mem_candidates Parser.ofConfig_arithmetic
    Grammar.accepted_arithmetic (by simp [Grammar.arithmetic]) (by decide) rfl {}
    (rfl : ex.target = some (.number 9)) (rfl : Parser.arithmetic.runsFirst ex true = true)
  have hone : (Parser.arithmetic.parseWith {} ex true).toOption.map (·.candidates.length) =
      some 1 := by decide +kernel
  rw [hresult] at hone
  exact ⟨result, hresult, Option.some.inj hone, hall⟩

end GuidedChart
