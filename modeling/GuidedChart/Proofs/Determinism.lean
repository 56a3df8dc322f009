import GuidedChart.Proofs.Construction.Sweeping
import GuidedChart.Proofs.Parsing
import GuidedChart.Proofs.Searching

/-!
# The order of hash tables does not show

The cells that a beam is applied to, and the ingredients and back-pointers of a record, are kept in
hash tables, which hand out what they hold in no particular order. Here a request is free to choose
an order every time that it goes through such a table, in each of its passes
(`Parser.MayParse`). Whatever it chooses, it comes to the same (`Parser.mayParse_agree`): the passes
leave the same charts, tables and counts behind, and the candidates are the same, each in its place.
Only the list of what the second pass may use can have another order, and a pass does not ask for
that order (`Task.build_congr`).
-/

namespace GuidedChart

open Relation (TransGen)

/-! ## Lists of the same ingredients -/

namespace Task

section Congr

variable (task : Task) {allowed : Option (Numbering Ingredient)}
  (h : ∀ i, ({ task with allowed } : Task).allows i = task.allows i)
include h

theorem file_congr : ({ task with allowed } : Task).file = task.file := by
  funext work f
  simp only [file, h]
  rfl

theorem consider_congr : ({ task with allowed } : Task).consider = task.consider := by
  funext ingredient sources single work candidate
  simp only [consider, task.file_congr h]
  rfl

theorem apply_congr : ({ task with allowed } : Task).apply = task.apply := by
  funext rule target children work
  have hverdict : ({ task with allowed } : Task).verdict rule target children work =
      task.verdict rule target children work := by
    simp only [verdict, h]
    rfl
  simp only [apply, carryOut, hverdict, task.consider_congr h]

theorem runBlock_congr : ({ task with allowed } : Task).runBlock = task.runBlock := by
  have hstep : ({ task with allowed } : Task).runStep = task.runStep := by
    funext work step
    simp only [runStep, task.apply_congr h]
  funext work steps
  simp only [runBlock, hstep]
  rfl

theorem runDepths_congr : ({ task with allowed } : Task).runDepths = task.runDepths := by
  funext useful count depth work
  induction count generalizing depth work with
  | zero => rfl
  | succ count ih =>
    simp only [runDepths, ih, task.runBlock_congr h]
    rfl

/-- A pass asks of its allow-list no more than what is on it. -/
theorem build_congr : ({ task with allowed } : Task).build = task.build := by
  funext table cancelAt
  simp only [build, run, runWith, task.runBlock_congr h, task.runDepths_congr h]
  rfl

end Congr

end Task

/-! ## Requests in any order -/

/-- What the passes of a request leave behind, and its answer. -/
structure Transcript where
  first : Option PassOutput
  second : PassOutput
  backoff : Option PassOutput
  result : ParseResult

/-- The same, but for the order of what the second pass may use. -/
structure Transcript.Agrees (t u : Transcript) : Prop where
  first : t.first = u.first
  second : t.second = u.second
  backoff : t.backoff = u.backoff
  candidates : t.result.candidates = u.result.candidates
  state : t.result.state = u.result.state
  report : t.result.report = u.result.report
  allowed : Option.Rel (fun a b : Numbering Ingredient => ∀ i, i ∈ a.toList ↔ i ∈ b.toList)
    t.result.allowed u.result.allowed

namespace Parser

/-- The same, but for the order of the ingredients. -/
structure Guidance.Agrees (g g' : Guidance) : Prop where
  table : g.table = g'.table
  roots : g.roots = g'.roots
  report : g.report = g'.report
  allowed : ∀ i, i ∈ g.allowed.toList ↔ i ∈ g'.allowed.toList

variable (parser : Parser) (ex : Example) (expectedCounts : Bool)

/-- The answer to a request whose passes end in time, from what they leave behind. -/
def answer (guidance? : Option Guidance) (second : PassOutput) (backoff : Option PassOutput) :
    ParseResult :=
  let found := parser.rootDerivations second ex.tokens.length
  let candidates := match backoff with
    | some output => shuffle parser.config.shuffleSeed
      (found ++ parser.rootDerivations output ex.tokens.length)
    | none => found
  { candidates
    state := .done
    report :=
      { first := guidance?.map (·.report)
        second := second.report
        backoff := backoff.map (·.report)
        targetRoots := (guidance?.map (·.roots)).getD 0
        allowedIngredients := (guidance?.map (·.allowed.size)).getD 0
        candidates := candidates.length }
    allowed := guidance?.map (·.allowed)
    second := some second }

/-- What the first pass may find out, if it runs. -/
inductive MayGuide : Except Error (Option (PassOutput × Guidance)) → Prop
  | unguided : parser.runsFirst ex expectedCounts = false → MayGuide (.ok none)
  | failed {target : Value} {output : PassOutput} {key : BackPointer} :
    ex.target = some target → parser.runsFirst ex expectedCounts = true →
    (parser.firstTask ex).MayBuild .empty none output →
    output.chart.MaySearch .empty .empty (parser.targetRoots output ex.tokens.length target)
      (.error key) →
    MayGuide (.error (.ofCycle key))
  | guided {target : Value} {output : PassOutput} {found : Provenance} :
    ex.target = some target → parser.runsFirst ex expectedCounts = true →
    (parser.firstTask ex).MayBuild .empty none output →
    output.chart.MaySearch .empty .empty (parser.targetRoots output ex.tokens.length target)
      (.ok found) →
    MayGuide (.ok (some (output, ⟨output.table, found.ingredients,
      (parser.targetRoots output ex.tokens.length target).length, output.report⟩)))

/-- What the backoff pass may leave behind, if it runs. -/
inductive MayBackOff : Option PassOutput → Prop
  | skipped : parser.config.backoff = false → MayBackOff none
  | taken {output : PassOutput} : parser.config.backoff = true →
    (parser.secondTask ex none).MayBuild .empty none output → MayBackOff (some output)

/-- What a request that is not cancelled may come to. -/
inductive MayParse : Except Error Transcript → Prop
  | failed {e : Error} : parser.MayGuide ex expectedCounts (.error e) → MayParse (.error e)
  | answered {guided? : Option (PassOutput × Guidance)} {second : PassOutput}
    {backoff : Option PassOutput} : parser.MayGuide ex expectedCounts (.ok guided?) →
    (parser.secondTask ex (guided?.map (·.2.allowed))).MayBuild
      ((guided?.map (·.2.table)).getD .empty) none second →
    parser.MayBackOff ex backoff →
    MayParse (.ok ⟨guided?.map (·.1), second, backoff,
      parser.answer ex (guided?.map (·.2)) second backoff⟩)

variable {parser ex expectedCounts}

/-- Of the first pass, only the order of what it allows is left open. -/
theorem MayGuide.spec (h : parser.grammar.Accepted)
    {r : Except Error (Option (PassOutput × Guidance))}
    (hr : parser.MayGuide ex expectedCounts r) :
    parser.runsFirst ex expectedCounts = false ∧ r = .ok none ∨
      ∃ target allowed, ex.target = some target ∧ parser.runsFirst ex expectedCounts = true ∧
        let first := (parser.firstTask ex).build .empty none
        let roots := parser.targetRoots first ex.tokens.length target
        r = .ok (some (first, ⟨first.table, allowed, roots.length, first.report⟩)) ∧
          ∀ i, i ∈ allowed.toList ↔
            ∃ key, first.chart.Behind roots key ∧ i ∈ first.chart.ingredientsOf key := by
  have hacyclic : ∀ key,
      ¬ TransGen ((parser.firstTask ex).build .empty none).chart.Back key key :=
    Task.not_transGen_back _ parser.depthBounds.admits .empty none h
  cases hr with
  | unguided hruns => exact Or.inl ⟨hruns, rfl⟩
  | failed ht hruns hbuild hsearch =>
    cases Task.mayBuild_iff.1 hbuild
    obtain ⟨found, hfound, -⟩ := hsearch.exists_eq_ok hacyclic
    cases hfound
  | guided ht hruns hbuild hsearch =>
    cases Task.mayBuild_iff.1 hbuild
    obtain ⟨found, hfound, hmem⟩ := hsearch.exists_eq_ok hacyclic
    cases hfound
    exact Or.inr ⟨_, _, ht, hruns, rfl, hmem⟩

theorem MayBackOff.eq {backoff other : Option PassOutput} (h : parser.MayBackOff ex backoff)
    (k : parser.MayBackOff ex other) : backoff = other := by
  cases h with
  | skipped hb =>
    cases k with
    | skipped => rfl
    | taken hb' => rw [hb] at hb'; cases hb'
  | taken hb hbuild =>
    cases k with
    | skipped hb' => rw [hb] at hb'; cases hb'
    | taken _ hbuild' => rw [Task.mayBuild_iff.1 hbuild, Task.mayBuild_iff.1 hbuild']

/-- Two requests find out the same in the first pass, if it runs. -/
theorem MayGuide.agree (h : parser.grammar.Accepted)
    {r s : Except Error (Option (PassOutput × Guidance))}
    (hr : parser.MayGuide ex expectedCounts r) (hs : parser.MayGuide ex expectedCounts s) :
    ∃ g g', r = .ok g ∧ s = .ok g' ∧
      Option.Rel (fun p q => p.1 = q.1 ∧ p.2.Agrees q.2) g g' := by
  rcases hr.spec h with ⟨hruns, rfl⟩ | ⟨target, allowed, ht, hruns, rfl, hmem⟩
  · rcases hs.spec h with ⟨-, rfl⟩ | ⟨-, -, -, hruns', -⟩
    · exact ⟨none, none, rfl, rfl, .none⟩
    · rw [hruns] at hruns'
      cases hruns'
  · rcases hs.spec h with ⟨hruns', -⟩ | ⟨target', allowed', ht', -, rfl, hmem'⟩
    · rw [hruns] at hruns'
      cases hruns'
    · rw [ht] at ht'
      cases ht'
      exact ⟨_, _, rfl, rfl, .some ⟨rfl, rfl, rfl, rfl, fun i => (hmem i).trans (hmem' i).symm⟩⟩

/-- After guidance that is the same, the passes that follow leave the same behind. -/
theorem build_secondTask_congr {a b : Numbering Ingredient}
    (hab : ∀ i, i ∈ a.toList ↔ i ∈ b.toList) (ex : Example) :
    (parser.secondTask ex (some a)).build = (parser.secondTask ex (some b)).build := by
  have hallows : ∀ i, (parser.secondTask ex (some a)).allows i =
      (parser.secondTask ex (some b)).allows i := fun i => by
    rw [Bool.eq_iff_iff, allows_secondTask, allows_secondTask]
    exact hab i
  exact (parser.secondTask ex (some b)).build_congr hallows

theorem answer_agrees {g g' : Guidance} (hg : g.Agrees g') (first second : PassOutput)
    (backoff : Option PassOutput) :
    Transcript.Agrees
      ⟨some first, second, backoff, parser.answer ex (some g) second backoff⟩
      ⟨some first, second, backoff, parser.answer ex (some g') second backoff⟩ := by
  have hsize : g.allowed.size = g'.allowed.size := by
    have hperm := (List.perm_ext_iff_of_nodup g.allowed.nodup_toList g'.allowed.nodup_toList).2
      hg.allowed
    rw [← Numbering.length_toList, ← Numbering.length_toList, hperm.length_eq]
  refine ⟨rfl, rfl, rfl, rfl, rfl, ?_, .some hg.allowed⟩
  simp only [answer, Option.map_some, hg.report, hg.roots, hsize]

/-- The first pass of the parser is one of those allowed for. -/
theorem exists_mayGuide (h : parser.grammar.Accepted) (ex : Example) (expectedCounts : Bool) :
    ∃ g, parser.MayGuide ex expectedCounts (.ok g) ∧
      parser.guidance? ex expectedCounts .inTime = .ok (g.map (·.2)) := by
  cases hruns : parser.runsFirst ex expectedCounts with
  | false => exact ⟨none, .unguided hruns, guidance?_of_not_runsFirst hruns .inTime⟩
  | true =>
    cases ht : ex.target with
    | none => simp [runsFirst, ht] at hruns
    | some target =>
      let first := (parser.firstTask ex).build .empty none
      obtain ⟨allowed, hallowed, -⟩ := (parser.firstTask ex).exists_provenance
        parser.depthBounds.admits none h MeaningTable.refersBack_empty
        (parser.targetRoots first ex.tokens.length target)
      obtain ⟨found, hsearch, rfl⟩ := Chart.exists_maySearch_provenance
        ((parser.firstTask ex).sized_run parser.depthBounds.admits .empty none) hallowed
      refine ⟨_, .guided ht hruns (Task.mayBuild_iff.2 rfl) hsearch, ?_⟩
      have hlook : parser.lookForTarget ex target .inTime = .ok ⟨first.table, found.ingredients,
          (parser.targetRoots first ex.tokens.length target).length, first.report⟩ := by
        have hok : first.chart.provenance (parser.targetRoots first ex.tokens.length target) =
            .ok found.ingredients := hallowed
        simp only [first, firstTask] at hok ⊢
        simp only [lookForTarget, Task.runTo, hok, Except.mapError]
        rfl
      rw [guidance?_of_runsFirst ht hruns, hlook]
      rfl

/-- So is the rest of a request. -/
theorem exists_mayBackOff_parseWith {g : Option (PassOutput × Guidance)}
    (hg : parser.guidance? ex expectedCounts .inTime = .ok (g.map (·.2))) :
    ∃ backoff, parser.MayBackOff ex backoff ∧ parser.parse ex expectedCounts =
      .ok (parser.answer ex (g.map (·.2)) ((parser.secondTask ex (g.map (·.2.allowed))).build
        ((g.map (·.2.table)).getD .empty) none) backoff) := by
  cases hb : parser.config.backoff with
  | false =>
    refine ⟨none, .skipped hb, ?_⟩
    simp only [parse, parseWith, hg, hb]
    cases g <;> rfl
  | true =>
    refine ⟨_, .taken hb (Task.mayBuild_iff.2 rfl), ?_⟩
    simp only [parse, parseWith, hg, hb]
    cases g <;> rfl

/-- A request comes to the same whatever orders it chooses, and what the parser answers is one of
the things it may come to. -/
theorem mayParse_agree (h : parser.grammar.Accepted) (ex : Example) (expectedCounts : Bool) :
    (∃ t, parser.MayParse ex expectedCounts (.ok t) ∧
      parser.parse ex expectedCounts = .ok t.result) ∧
    ∀ r s, parser.MayParse ex expectedCounts r → parser.MayParse ex expectedCounts s →
      ∃ t u, r = .ok t ∧ s = .ok u ∧ t.Agrees u := by
  refine ⟨?_, fun r s hr hs => ?_⟩
  · obtain ⟨g, hg, hguidance⟩ := exists_mayGuide h ex expectedCounts
    obtain ⟨backoff, hbackoff, hanswer⟩ := exists_mayBackOff_parseWith hguidance
    exact ⟨_, .answered hg (Task.mayBuild_iff.2 rfl) hbackoff, hanswer⟩
  · cases hr with
    | failed hg =>
      obtain ⟨g, g', he, -, -⟩ := hg.agree h hg
      cases he
    | answered hg hb hk =>
      cases hs with
      | failed hg' =>
        obtain ⟨g, g', he, -, -⟩ := hg'.agree h hg'
        cases he
      | answered hg' hb' hk' =>
        obtain ⟨g, g', he, he', hrel⟩ := hg.agree h hg'
        cases he
        cases he'
        rw [Task.mayBuild_iff] at hb hb'
        cases hk.eq hk'
        cases hrel with
        | none =>
          cases hb.trans hb'.symm
          exact ⟨_, _, rfl, rfl, rfl, rfl, rfl, rfl, rfl, rfl, .none⟩
        | some hpair =>
          rename_i p q
          obtain ⟨first, g⟩ := p
          obtain ⟨first', g'⟩ := q
          obtain ⟨rfl, hagree⟩ := hpair
          have htable : g.table = g'.table := hagree.table
          simp only [Option.map_some, Option.getD_some, htable,
            build_secondTask_congr hagree.allowed] at hb hb'
          cases hb.trans hb'.symm
          exact ⟨_, _, rfl, rfl, answer_agrees hagree _ _ _⟩

/-- Asked for six, the parser for arithmetic is kept to three ingredients, whatever their order. -/
theorem mayParse_agree_arithmetic :
    ∃ t, arithmetic.MayParse .six true (.ok t) ∧ t.result.report.allowedIngredients = 3 ∧
      ∀ s, arithmetic.MayParse .six true s → ∃ u, s = .ok u ∧ t.Agrees u := by
  have h : arithmetic.grammar.Accepted := Grammar.accepted_arithmetic
  obtain ⟨⟨t, ht, hparse⟩, hall⟩ := mayParse_agree h .six true
  refine ⟨t, ht, ?_, fun s hs => ?_⟩
  · have hcount : (arithmetic.parse .six true).toOption.map (·.report.allowedIngredients) =
        some 3 := by decide +kernel
    rw [hparse] at hcount
    exact Option.some.inj hcount
  · obtain ⟨t', u, he, hu, hagree⟩ := hall _ s ht hs
    cases he
    exact ⟨u, hu, hagree⟩

end Parser

end GuidedChart
