import GuidedChart.Proofs.Grammar.Atoms
import GuidedChart.Proofs.Grammar.Phases

/-!
# Printed grammars

A grammar is printed as it would be written: each rule as a statement with single spaces, behind
comments that name the root and the categories. The printed statements are read back
(`Rule.reads_printed`) and do to a builder what the statements did that the grammar was read from
(`GrammarBuilder.exists_rules_of_foldlM`). So the grammar is read back (`Grammar.ofText_text`),
unless a string in it is escaped or an entity in it begins with a quote.
-/

namespace GuidedChart

open Statement (Reads)

/-! ## Rules -/

namespace Rule

variable {rule : Rule}

/-- The statement that the rule is printed as. -/
def statement (rule : Rule) : Statement :=
  ⟨rule.floating, rule.lhs.name, rule.rhs.map Symbol.text, rule.semantics.function,
    rule.semantics.args⟩

theorem cons_toList_text (rule : Rule) :
    ' ' :: rule.text.toList = Statement.spacedOut rule.statement.words := by
  have hrhs : (String.join (rule.rhs.map fun symbol => " " ++ symbol.text)).toList =
      Statement.spacedOut (rule.rhs.map Symbol.text) := by
    simp [String.toList_join, Statement.spacedOut, List.flatMap_map]
  cases hfloating : rule.floating <;>
    simp [text, signature, Semantics.toList_text, hrhs, hfloating, statement, Statement.words,
      Statement.head, Statement.spacedOut]

/-- Is the rule printed in words that are read as what they are, on a line of its own? -/
structure Legible (rule : Rule) : Prop where
  head : rule.statement.HeadFormed
  args : Statement.ArgsEndLine rule.semantics.args

theorem readArgs_printed {lhs : String} {args : List String} {fuel : Nat}
    (hargs : Statement.ArgsEndLine args)
    (hf : args.length < fuel) (rest : List Char) :
    Statement.readArgs lhs fuel (Statement.spacedOut args ++ ';' :: '\n' :: rest) =
      .ok (args, '\n' :: rest) := by
  rcases hargs with hargs | ⟨arg, rfl, harg⟩
  · exact Statement.readArgs_spaced hargs (Or.inl rfl) (Statement.spaced_spacedOut args _) hf
  -- No quote is found behind the open one, since the semicolon is the last thing on the line.
  · obtain ⟨fuel, rfl⟩ := Nat.exists_eq_succ_of_ne_zero (Nat.ne_zero_of_lt hf)
    have hend := Statement.readArgs_semicolon lhs (Nat.lt_of_succ_lt_succ hf) (Or.inl rfl)
      ('\n' :: rest)
    have hread := Statement.readArg_unclosed harg rest
    have hsplit : Statement.spacedOut [arg] ++ ';' :: '\n' :: rest =
        [' '] ++ (arg.toList ++ ';' :: '\n' :: rest) := by
      simp [Statement.spacedOut]
    obtain ⟨cs, hcs, -⟩ := harg
    have hstarts : Statement.Starts (arg.toList ++ ';' :: '\n' :: rest) := by
      rw [hcs]
      exact Statement.starts_cons (by decide) (by decide) _
    rw [hsplit]
    exact Statement.readArgs_cons (Statement.space_singleton rfl) hstarts
      ⟨_, _, hcs, by decide⟩ hread hend

/-- A rule is read back from print, and the line feed behind it is left. -/
theorem Legible.read_text (h : rule.Legible) (rest : List Char) :
    Statement.Starts (rule.text.toList ++ ';' :: '\n' :: rest) ∧
      Statement.read (rule.text.toList ++ ';' :: '\n' :: rest) =
        .ok (rule.statement, '\n' :: rest) := by
  obtain ⟨first, others, hhead, hstarts⟩ := Statement.exists_head h.head
  have htext : rule.text.toList ++ ';' :: '\n' :: rest =
      first.toList ++ (Statement.spacedOut others ++
        (Statement.spacedOut rule.semantics.args ++ ';' :: '\n' :: rest)) := by
    have hwords := rule.cons_toList_text
    rw [Statement.words, hhead] at hwords
    simp only [Statement.spacedOut, List.cons_append, List.flatMap_cons, List.flatMap_append,
      List.cons.injEq, true_and] at hwords
    simp [hwords, Statement.spacedOut, statement]
  rw [htext]
  refine ⟨hstarts _, Statement.read_spaced h.head hhead
    (Statement.spaced_spacedOut others _) ?_ (readArgs_printed h.args ?_ rest)⟩
  · exact (Statement.spaced_spacedOut _ _).stops (Statement.stops_semicolon _)
  · have hlength := (Statement.spaced_spacedOut rule.semantics.args
      (';' :: '\n' :: rest)).length_le
    rw [List.length_cons] at hlength
    omega

/-- Rules as they are printed one after the other. -/
def printed (rules : List Rule) : List Char :=
  rules.flatMap fun rule => rule.text.toList ++ [';', '\n']

theorem reads_printed {rules : List Rule} (h : ∀ rule ∈ rules, rule.Legible) {gap : List Char}
    (hgap : Statement.Gap gap) : Reads (rules.map statement) (gap ++ printed rules) := by
  induction rules generalizing gap with
  | nil =>
    refine .nil ?_
    rw [Statement.skip_gap hgap]
    rfl
  | cons rule rules ih =>
    obtain ⟨hrule, h⟩ := List.forall_mem_cons.1 h
    have hsplit : printed (rule :: rules) =
        rule.text.toList ++ ';' :: '\n' :: printed rules := by
      simp [printed]
    obtain ⟨hstarts, hread⟩ := hrule.read_text (printed rules)
    rw [hsplit]
    -- The line feed behind a statement is the gap before the next one.
    have hline : Statement.Gap ['\n'] := .blank rfl .nil
    refine .cons ?_ ?_ (ih h hline)
    · rw [Statement.skip_gap hgap, Statement.skip_of_starts hstarts]
      exact hread
    · simp only [List.length_append, List.length_cons, List.length_nil]
      omega

end Rule

/-! ## Statements on a builder -/

namespace GrammarBuilder

variable {registry : Registry} {builder next : GrammarBuilder} {statement : Statement}
  {statements : List Statement}

theorem mem_categories_intern {name other : String}
    (h : name ∈ (builder.intern other).1.categories) :
      name ∈ builder.categories ∨ name = other := by
  unfold intern at h
  split at h
  · exact Or.inl h
  · simpa using h

theorem mem_categories_symbol {name other : String}
    (h : name ∈ (builder.symbol other).1.categories) :
      name ∈ builder.categories ∨ name = other := by
  unfold symbol at h
  split at h
  · exact mem_categories_intern h
  · exact Or.inl h

theorem mem_categories_symbols {name : String} {names : List String}
    (h : name ∈ (builder.symbols names).1.categories) :
    name ∈ builder.categories ∨ name ∈ names := by
  induction names generalizing builder with
  | nil => exact Or.inl h
  | cons first names ih =>
    rcases ih h with h | h
    · refine (mem_categories_symbol h).imp_right ?_
      rintro rfl
      exact List.mem_cons_self
    · exact Or.inr (List.mem_cons_of_mem _ h)

theorem addStatement_eq_ok_iff :
    addStatement registry builder statement = .ok next ↔
      ∃ semantics id, registry.resolve statement.function statement.args = .ok semantics ∧
        builder.addRule statement.lhs statement.rhs statement.floating semantics =
          .ok (next, id) := by
  unfold addStatement
  cases registry.resolve statement.function statement.args with
  | error => simp [Except.mapError, bind, Except.bind]
  | ok semantics =>
    cases hadd : builder.addRule statement.lhs statement.rhs statement.floating semantics with
    | error => simp [hadd, Except.mapError, bind, Except.bind]
    | ok added =>
      obtain ⟨after, id⟩ := added
      simp [hadd, Except.mapError, bind, Except.bind, pure, Except.pure]

/-- Is the rule what the statement says? -/
structure Says (registry : Registry) (statement : Statement) (rule : Rule) : Prop where
  lhs : rule.lhs.name = statement.lhs
  rhs : rule.rhs.map Symbol.text = statement.rhs
  floating : rule.floating = statement.floating
  resolve : registry.resolve statement.function statement.args = .ok rule.semantics

theorem exists_says_of_addStatement (h : addStatement registry builder statement = .ok next) :
    ∃ rule : Rule, next.rules = builder.rules ++ [rule] ∧ Says registry statement rule := by
  obtain ⟨semantics, id, hresolve, hadd⟩ := addStatement_eq_ok_iff.1 h
  obtain ⟨-, rule, hrules, -, hspelled⟩ := exists_entered_of_addRule hadd
  simp only [Addition.spelled?, Rule.spelled, Option.some.injEq, Prod.mk.injEq] at hspelled
  obtain ⟨hlhs, hrhs, hfloating, rfl⟩ := hspelled
  refine ⟨rule, hrules, hlhs.symm, ?_, hfloating.symm, hresolve⟩
  simpa [Symbol.spelled, Function.comp_def] using (congrArg (List.map Prod.snd) hrhs).symm

/-- The statement that the rule is printed as has the same effect, if the function is resolved to
the same. -/
theorem Says.addStatement_eq {rule : Rule} (h : Says registry statement rule)
    (hr : registry.resolve rule.semantics.function rule.semantics.args = .ok rule.semantics)
    (builder : GrammarBuilder) :
    addStatement registry builder rule.statement = addStatement registry builder statement := by
  simp only [addStatement, Rule.statement, h.lhs, h.rhs, h.floating, hr, h.resolve]

theorem exists_rules_of_foldlM
    (h : statements.foldlM (addStatement registry) builder = .ok next) :
    ∃ rules : List Rule, next.rules = builder.rules ++ rules ∧
      (∀ rule ∈ rules, ∃ statement ∈ statements, Says registry statement rule) ∧
      ((∀ rule ∈ rules,
        registry.resolve rule.semantics.function rule.semantics.args = .ok rule.semantics) →
        (rules.map Rule.statement).foldlM (addStatement registry) builder = .ok next) := by
  induction statements generalizing builder with
  | nil =>
    cases h
    exact ⟨[], by simp, nofun, fun _ => rfl⟩
  | cons statement statements ih =>
    rw [List.foldlM_cons] at h
    obtain ⟨after, hfirst, h⟩ := Statement.exists_of_bind_eq_ok h
    obtain ⟨rule, hrule, hsays⟩ := exists_says_of_addStatement hfirst
    obtain ⟨rules, hrules, hall, hsame⟩ := ih h
    refine ⟨rule :: rules, by rw [hrules, hrule, List.append_assoc]; rfl, ?_, fun hr => ?_⟩
    · refine List.forall_mem_cons.2 ⟨⟨statement, List.mem_cons_self, hsays⟩, fun other hmem => ?_⟩
      obtain ⟨said, hsaid, hother⟩ := hall other hmem
      exact ⟨said, List.mem_cons_of_mem _ hsaid, hother⟩
    · obtain ⟨hrule, hr⟩ := List.forall_mem_cons.1 hr
      rw [List.map_cons, List.foldlM_cons, hsays.addStatement_eq hrule, hfirst]
      exact hsame hr

theorem mem_categories_of_foldlM
    (h : statements.foldlM (addStatement registry) builder = .ok next) {name : String}
    (hn : name ∈ next.categories) :
    name ∈ builder.categories ∨
      ∃ statement ∈ statements, name = statement.lhs ∨ name ∈ statement.rhs := by
  induction statements generalizing builder with
  | nil =>
    cases h
    exact Or.inl hn
  | cons statement statements ih =>
    rw [List.foldlM_cons] at h
    obtain ⟨after, hfirst, h⟩ := Statement.exists_of_bind_eq_ok h
    rcases ih h with hafter | ⟨said, hsaid, hname⟩
    · obtain ⟨semantics, id, -, hadd⟩ := addStatement_eq_ok_iff.1 hfirst
      unfold addRule at hadd
      split at hadd
      · cases hadd
      · cases hadd
        rcases mem_categories_symbols hafter with hafter | hrhs
        · exact (mem_categories_intern hafter).imp_right fun hlhs =>
            ⟨statement, List.mem_cons_self, Or.inl hlhs⟩
        · exact Or.inr ⟨statement, List.mem_cons_self, Or.inr hrhs⟩
    · exact Or.inr ⟨said, List.mem_cons_of_mem _ hsaid, hname⟩

theorem not_mem_newline_of_foldlM (hs : ∀ statement ∈ statements, statement.Scanned)
    (h : statements.foldlM (addStatement registry) .empty = .ok next) :
    ∀ name ∈ next.categories, '\n' ∉ name.toList := by
  intro name hname
  obtain hempty | ⟨statement, hmem, rfl | hrhs⟩ := mem_categories_of_foldlM h hname
  · cases hempty
  · exact (hs statement hmem).lhs.not_mem_newline
  · exact ((hs statement hmem).rhs name hrhs).not_mem_newline

end GrammarBuilder

/-! ## Grammars -/

namespace Grammar

variable {registry : Registry} {grammar : Grammar} {text : String}

theorem read_eq_ok_iff :
    Grammar.read registry text = .ok grammar ↔
      ∃ statements builder, Statement.readAll text = (statements, none) ∧
        statements.foldlM (GrammarBuilder.addStatement registry) .empty = .ok builder ∧
        builder.build = .ok grammar := by
  constructor
  · intro h
    unfold Grammar.read at h
    split at h
    rename_i statements broken? hread
    obtain ⟨builder, hfold, h⟩ := Statement.exists_of_bind_eq_ok h
    split at h
    · cases h
    · refine ⟨statements, builder, hread, hfold, ?_⟩
      cases hbuild : builder.build with
      | error => rw [hbuild] at h; cases h
      | ok built => rw [hbuild] at h; cases h; rfl
  · rintro ⟨statements, builder, hread, hfold, hbuild⟩
    rw [Grammar.read, hread]
    simp only [hfold, hbuild, Except.mapError, bind, Except.bind]

/-- The comments at the head of a printed grammar are comments as long as no category has a line
feed in its name. -/
theorem exists_gap_text (h : ∀ name ∈ grammar.categories, '\n' ∉ name.toList) :
    ∃ gap, Statement.Gap gap ∧ grammar.text.toList = gap ++ Rule.printed grammar.rules := by
  have hroot : '\n' ∉ "** root: $ROOT".toList := by decide
  have hnames : '\n' ∉ "** categories:".toList ++ Statement.spacedOut grammar.categories := by
    rw [List.mem_append, not_or]
    exact ⟨by decide, Statement.not_mem_newline_spacedOut h⟩
  refine ⟨_, .comment hroot (.comment hnames .nil), ?_⟩
  have hcategories : (String.join (grammar.categories.map (" " ++ ·))).toList =
      Statement.spacedOut grammar.categories := by
    simp [String.toList_join, Statement.spacedOut, List.flatMap_map]
  have hrules : (String.join (grammar.rules.map fun rule => rule.text ++ ";\n")).toList =
      Rule.printed grammar.rules := by
    simp [String.toList_join, Rule.printed, List.flatMap_map]
  unfold Grammar.text
  simp [hcategories, hrules, rootName]

/-- A rule that was read is printed legibly, and its function in words that are resolved to it. -/
theorem legible_of_says {statement : Statement} {rule : Rule}
    (hs : GrammarBuilder.Says .standard statement rule) (hscanned : statement.Scanned)
    (hraw : rule.semantics.PrintsRaw) :
    rule.Legible ∧ Registry.standard.resolve rule.semantics.function rule.semantics.args =
      .ok rule.semantics := by
  obtain ⟨hresolve, hprinted⟩ := Semantics.resolve_printed hs.resolve hscanned.args hraw
  refine ⟨⟨⟨?_, ?_, rule.semantics.isFunction_function⟩, hprinted⟩, hresolve⟩
  · rw [Rule.statement, hs.lhs]
    exact hscanned.lhs
  · rw [Rule.statement, hs.rhs]
    exact hscanned.rhs

/-- A grammar that was read from a text is the grammar of the text it is printed as, unless
printing escapes a string in it or an entity in it begins with a quote. -/
theorem ofText_text (h : Grammar.ofText text = .ok grammar)
    (hraw : ∀ rule ∈ grammar.rules, rule.semantics.PrintsRaw) :
    Grammar.ofText grammar.text = .ok grammar := by
  obtain ⟨statements, builder, hread, hfold, hbuild⟩ := read_eq_ok_iff.1 h
  obtain ⟨hcategories, hrules⟩ : grammar.categories = builder.categories ∧
      grammar.rules = builder.rules := by
    obtain ⟨-, -, promotions, -, rfl⟩ := GrammarBuilder.cases_of_build hbuild
    exact ⟨rfl, rfl⟩
  have hscanned : ∀ statement ∈ statements, statement.Scanned := fun statement hmem =>
    Statement.scanned_of_mem_readAll (by rw [hread]; exact hmem)
  obtain ⟨rules, hsame, hsays, hagain⟩ := GrammarBuilder.exists_rules_of_foldlM hfold
  rw [← hrules, GrammarBuilder.empty, List.nil_append] at hsame
  subst hsame
  have hlegible : ∀ rule ∈ grammar.rules, rule.Legible ∧
      Registry.standard.resolve rule.semantics.function rule.semantics.args =
        .ok rule.semantics := fun rule hr => by
    obtain ⟨statement, hmem, hstatement⟩ := hsays rule hr
    exact legible_of_says hstatement (hscanned statement hmem) (hraw rule hr)
  have hnames := GrammarBuilder.not_mem_newline_of_foldlM hscanned hfold
  rw [← hcategories] at hnames
  obtain ⟨gap, hgap, htext⟩ := exists_gap_text hnames
  have hreads : Reads (grammar.rules.map Rule.statement) grammar.text.toList :=
    htext ▸ Rule.reads_printed (fun rule hr => (hlegible rule hr).1) hgap
  exact read_eq_ok_iff.2 ⟨_, builder, Statement.readAll_of_reads hreads,
    hagain fun rule hr => (hlegible rule hr).2, hbuild⟩

/-- A token with slashes, a number with a sign and a zero, a string with a semicolon, and a
function that is called `"`. -/
def quotedText : String :=
  "$ROOT -> a//b => choice +05 \"; \";\nfloating $ROOT -> => call \";"

def quoted : Grammar where
  categories := ["$ROOT"]
  rules :=
    [⟨0, ⟨"$ROOT", 0⟩, [.terminal "a//b"], false,
        .choice [.value (.number 5), .value (.str "; ")]⟩,
      ⟨1, ⟨"$ROOT", 0⟩, [], true, .call "\""⟩]
  promotions := []

theorem ofText_quotedText : Grammar.ofText quotedText = .ok quoted := rfl

theorem ofText_text_quoted :
    Grammar.ofText quotedText = .ok quoted ∧ Grammar.ofText quoted.text = .ok quoted := by
  refine ⟨ofText_quotedText, ofText_text ofText_quotedText ?_⟩
  simp only [quoted, List.forall_mem_cons]
  refine ⟨?_, ?_, nofun⟩
  · intro v hv
    simp only [Semantics.constants, List.mem_cons, Formula.value.injEq, List.not_mem_nil,
      or_false] at hv
    rcases hv with rfl | rfl
    · trivial
    · exact List.all_iff_forall_prop.1 (rfl : ("; ".toList.all fun c => Text.escape c = [c]) = true)
  · exact nofun

end Grammar

end GuidedChart
