import GuidedChart.Grammar.Reader
import GuidedChart.Proofs.Grammar.Wording
import Mathlib.Data.Bool.AllAny

/-!
# The layout of a grammar

The words of a statement stand apart by blanks, with comments wherever a blank came first, and
statements end with semicolons (`Statement.Writes`). However a list of statements is laid out, it is
read back, so that reading the text is as good as carrying out the statements on a builder
(`Grammar.read_of_writes`).
-/

namespace GuidedChart

namespace Statement

/-! ## Layouts -/

/-- Blanks and comments in any order, each comment with the line feed that ends it. -/
inductive Gap : List Char → Prop
  | nil : Gap []
  | blank {c : Char} {gap : List Char} : Text.isBlank c = true → Gap gap → Gap (c :: gap)
  | comment {line gap : List Char} : '\n' ∉ line → Gap gap →
    Gap ('/' :: '/' :: line ++ '\n' :: gap)

/-- A gap that begins with a blank. -/
def Space (cs : List Char) : Prop :=
  ∃ c gap, cs = c :: gap ∧ Text.isBlank c = true ∧ Gap gap

/-- A gap, and behind it perhaps a comment that ends with the text. -/
def Ending (cs : List Char) : Prop :=
  ∃ gap last, cs = gap ++ last ∧ Gap gap ∧
    (last = [] ∨ ∃ line, last = '/' :: '/' :: line ∧ '\n' ∉ line)

/-- A text of words, each behind a space of its own, that goes on with the rest. -/
inductive Spaced (rest : List Char) : List String → List Char → Prop
  | nil : Spaced rest [] rest
  | cons {word : String} {words : List String} {space text : List Char} :
    Space space → Spaced rest words text →
    Spaced rest (word :: words) (space ++ (word.toList ++ text))

/-- The words of a statement up to its arguments. -/
def head (statement : Statement) : List String :=
  (if statement.floating then ["floating", statement.lhs] else [statement.lhs]) ++
    "->" :: (statement.rhs ++ ["=>", statement.function])

def words (statement : Statement) : List String :=
  statement.head ++ statement.args

/-- The plainest layout: a single space before each word. -/
def spacedOut (words : List String) : List Char :=
  words.flatMap fun word => ' ' :: word.toList

/-- A text of statements. Between the words of a statement there is a space, before a semicolon
there may be one, and before and behind a statement there may be a gap. -/
inductive Writes : List Statement → List Char → Prop
  | nil {text : List Char} : Ending text → Writes [] text
  | cons {statement : Statement} {statements : List Statement} {first : String}
    {others : List String} {gap body pause text : List Char} :
    Gap gap → statement.words = first :: others → Spaced (pause ++ ';' :: text) others body →
    (pause = [] ∨ Space pause) → Writes statements text →
    Writes (statement :: statements) (gap ++ (first.toList ++ body))

/-! ## Gaps -/

section Gaps

variable {space rest text pause : List Char} {word : String} {words : List String}

theorem skipComment_append {line : List Char} (h : '\n' ∉ line) (rest : List Char) :
    skipComment (line ++ '\n' :: rest) = skip rest := by
  induction line with
  | nil => simp [skipComment]
  | cons c line ih =>
    rw [List.mem_cons, not_or] at h
    rw [List.cons_append, skipComment, if_neg (Ne.symm h.1), ih h.2]

theorem skipComment_of_not_mem {line : List Char} (h : '\n' ∉ line) : skipComment line = [] := by
  induction line with
  | nil => rw [skipComment]
  | cons c line ih =>
    rw [List.mem_cons, not_or] at h
    rw [skipComment, if_neg (Ne.symm h.1), ih h.2]

theorem skip_gap {gap : List Char} (h : Gap gap) (rest : List Char) :
    skip (gap ++ rest) = skip rest := by
  induction h with
  | nil => rfl
  | @blank c gap hc _ ih =>
    have hcomment : ¬ ['/', '/'] <+: c :: (gap ++ rest) := by
      refine not_comment_start ?_
      rintro tail rfl -
      exact absurd hc (by decide)
    rw [List.cons_append, skip_cons hcomment, if_pos hc, ih]
  | comment hline _ ih =>
    rw [List.cons_append, List.cons_append, List.append_assoc, List.cons_append,
      List.cons_append, skip_comment, skipComment_append hline, ih]

theorem Space.gap (h : Space space) : Gap space := by
  obtain ⟨c, gap, rfl, hc, hgap⟩ := h
  exact .blank hc hgap

theorem skip_ending (h : Ending text) : skip text = [] := by
  obtain ⟨gap, last, rfl, hgap, rfl | ⟨line, rfl, hline⟩⟩ := h
  · rw [skip_gap hgap, skip_nil]
  · rw [skip_gap hgap, skip_comment, skipComment_of_not_mem hline]

theorem skip_space_append (h : Space space) (hs : Starts text) : skip (space ++ text) = text := by
  rw [skip_gap h.gap, skip_of_starts hs]

theorem space_singleton {c : Char} (h : Text.isBlank c = true) : Space [c] :=
  ⟨c, [], rfl, h, .nil⟩

theorem Space.stops (h : Space space) (rest : List Char) : Stops (space ++ rest) := by
  obtain ⟨c, gap, rfl, hc, -⟩ := h
  exact stops_of_isBlank hc _

theorem stops_pause (h : pause = [] ∨ Space pause) (rest : List Char) :
    Stops (pause ++ ';' :: rest) := by
  rcases h with rfl | h
  · exact stops_semicolon rest
  · exact h.stops _

theorem Spaced.stops (h : Spaced rest words text) (hr : Stops rest) : Stops text := by
  cases h with
  | nil => exact hr
  | cons hspace _ => exact hspace.stops _

theorem Spaced.of_append {before after : List String} (h : Spaced rest (before ++ after) text) :
    ∃ mid, Spaced mid before text ∧ Spaced rest after mid := by
  induction before generalizing text with
  | nil => exact ⟨text, .nil, h⟩
  | cons word before ih =>
    cases h with
    | cons hspace h =>
      obtain ⟨mid, hbefore, hafter⟩ := ih h
      exact ⟨mid, .cons hspace hbefore, hafter⟩

theorem Spaced.length_le (h : Spaced rest words text) :
    words.length + rest.length ≤ text.length := by
  induction h with
  | nil => simp
  | cons hspace _ ih =>
    obtain ⟨c, gap, rfl, -, -⟩ := hspace
    simp only [List.length_cons, List.length_append]
    omega

theorem spaced_spacedOut (words : List String) (rest : List Char) :
    Spaced rest words (spacedOut words ++ rest) := by
  induction words with
  | nil => exact .nil
  | cons word words ih =>
    have hsplit : spacedOut (word :: words) ++ rest =
        [' '] ++ (word.toList ++ (spacedOut words ++ rest)) := by
      simp [spacedOut]
    rw [hsplit]
    exact .cons (space_singleton rfl) ih

theorem not_mem_newline_spacedOut {words : List String}
    (h : ∀ word ∈ words, '\n' ∉ word.toList) : '\n' ∉ spacedOut words := fun hmem => by
  obtain ⟨word, hword, hmem⟩ := List.mem_flatMap.1 hmem
  rcases List.mem_cons.1 hmem with he | hmem
  · exact absurd he (by decide)
  · exact h word hword hmem

/-! ## Where a word begins -/

theorem starts_cons {c : Char} (hblank : Text.isBlank c = false) (hslash : c ≠ '/')
    (rest : List Char) : Starts (c :: rest) := by
  refine ⟨by simpa using hblank, ?_⟩
  rintro ⟨tail, he⟩
  exact hslash (List.cons.inj he).1.symm

/-- What no word begins with does not come about where the word ends either. -/
theorem not_prefix_append {cs : List Char} {a b : Char} (hne : cs ≠ []) (hcs : ¬ [a, b] <+: cs)
    (hb : Text.isBlank b = false ∧ b ≠ ';') (hr : Stops rest) : ¬ [a, b] <+: cs ++ rest := by
  rintro ⟨tail, he⟩
  match cs with
  | [] => exact hne rfl
  | [c] =>
    obtain ⟨-, he⟩ := List.cons.inj he
    have hhead := hr b (by rw [← show b :: tail = rest from he]; rfl)
    rw [hb.1] at hhead
    exact hhead.elim nofun hb.2
  | c :: d :: cs =>
    obtain ⟨hc, he⟩ := List.cons.inj he
    obtain ⟨hd, -⟩ := List.cons.inj he
    exact hcs ⟨cs, by rw [hc, hd]; rfl⟩

theorem starts_append {cs : List Char} (hne : cs ≠ [])
    (hblank : ∀ c ∈ cs.head?, Text.isBlank c = false) (hcomment : ¬ ['/', '/'] <+: cs)
    (hr : Stops rest) : Starts (cs ++ rest) := by
  refine ⟨?_, not_prefix_append hne hcomment (by decide) hr⟩
  obtain ⟨c, cs, rfl⟩ := List.exists_cons_of_ne_nil hne
  exact hblank

theorem IsCategory.starts (h : IsCategory word) (rest : List Char) :
    Starts (word.toList ++ rest) := by
  obtain ⟨cs, hcs, -⟩ := h
  rw [hcs]
  exact starts_cons (by decide) (by decide) _

theorem IsSymbol.starts (h : IsSymbol word) (hr : Stops rest) : Starts (word.toList ++ rest) := by
  rcases h with ⟨cs, hcs, -⟩ | ⟨hrun, -, hcomment⟩
  · rw [hcs]
    exact starts_cons (by decide) (by decide) _
  · exact starts_append hrun.1 (fun c hc => (hrun.2 c (List.mem_of_mem_head? hc)).1) hcomment hr

theorem IsFunction.starts (h : IsFunction word) (rest : List Char) :
    Starts (word.toList ++ rest) := by
  obtain ⟨c, cs, hcs, hc, -⟩ := h
  rw [hcs]
  rcases hc with hc | rfl
  · refine starts_cons (isBlank_eq_false_of_isAlphanum (by simp [Char.isAlphanum, hc])) ?_ _
    rintro rfl
    cases hc
  · exact starts_cons (by decide) (by decide) _

/-- An argument begins with something else than a blank, a comment or a semicolon. -/
theorem IsArg.starts (h : IsArg word) (hr : Stops rest) :
    Starts (word.toList ++ rest) ∧ ∃ c cs, word.toList = c :: cs ∧ c ≠ ';' := by
  rcases h with ⟨cs, hcs, -⟩ | ⟨hne, hall, -, hcomment⟩
  · rw [hcs]
    exact ⟨starts_cons (by decide) (by decide) _, _, _, rfl, by decide⟩
  · refine ⟨starts_append hne (fun c hc => (hall c (List.mem_of_mem_head? hc)).1) hcomment hr, ?_⟩
    obtain ⟨c, cs, hw⟩ := List.exists_cons_of_ne_nil hne
    exact ⟨c, cs, hw, (hall c (hw ▸ List.mem_cons_self)).2⟩

/-! ## Reading what is laid out -/

theorem after?_eq_none_of_not_prefix {start cs : List Char} (h : ¬ start <+: cs) :
    after? start cs = none := by
  rw [Option.eq_none_iff_forall_ne_some]
  exact fun rest he => h ⟨rest, (after?_eq_some_iff.1 he).symm⟩

/-- No symbol looks like the double arrow behind the symbols. -/
theorem IsSymbol.after?_arrow (h : IsSymbol word) (hr : Stops rest) :
    after? ['=', '>'] (word.toList ++ rest) = none := by
  refine after?_eq_none_of_not_prefix ?_
  rcases h with ⟨cs, hcs, -⟩ | ⟨hrun, harrow, -⟩
  · rw [hcs]
    rintro ⟨tail, he⟩
    exact absurd (List.cons.inj he).1 (by decide)
  · exact not_prefix_append hrun.1 harrow (by decide) hr

theorem readSymbols_spaced {symbols : List String} (hsym : ∀ symbol ∈ symbols, IsSymbol symbol)
    (h : Spaced rest (symbols ++ ["=>"]) text) (hr : Stops rest) {fuel : Nat}
    (hf : symbols.length < fuel) : readSymbols fuel text = .ok (symbols, rest) := by
  induction symbols generalizing text fuel with
  | nil =>
    obtain ⟨fuel, rfl⟩ := Nat.exists_eq_succ_of_ne_zero (Nat.ne_zero_of_lt hf)
    obtain - | ⟨hspace, hdone⟩ := h
    cases hdone
    have harrow : Starts ("=>".toList ++ rest) :=
      starts_cons (c := '=') (by decide) (by decide) ('>' :: rest)
    simp only [readSymbols]
    rw [skip_space_append hspace harrow]
    rfl
  | cons symbol symbols ih =>
    obtain ⟨fuel, rfl⟩ := Nat.exists_eq_succ_of_ne_zero (Nat.ne_zero_of_lt hf)
    obtain - | ⟨hspace, hothers⟩ := h
    obtain ⟨hfirst, hsym⟩ := List.forall_mem_cons.1 hsym
    have hstops := hothers.stops hr
    have hskip := skip_space_append hspace (hfirst.starts hstops)
    simp only [readSymbols]
    rw [hskip, hfirst.after?_arrow hstops]
    simp only [readSymbol_append hfirst hstops, ih hsym hothers (Nat.lt_of_succ_lt_succ hf), bind,
      Except.bind, pure, Except.pure]

theorem readArgs_semicolon (lhs : String) {fuel : Nat} (hf : 0 < fuel)
    (hp : pause = [] ∨ Space pause) (rest : List Char) :
    readArgs lhs fuel (pause ++ ';' :: rest) = .ok ([], rest) := by
  obtain ⟨fuel, rfl⟩ := Nat.exists_eq_succ_of_ne_zero (Nat.ne_zero_of_lt hf)
  have hstarts : Starts (';' :: rest) := starts_cons (by decide) (by decide) rest
  have hskip : skip (pause ++ ';' :: rest) = ';' :: rest := by
    rcases hp with rfl | hp
    · exact skip_of_starts hstarts
    · exact skip_space_append hp hstarts
  rw [readArgs, hskip]
  rfl

theorem readArgs_cons {lhs : String} {fuel : Nat} {args : List String} (hspace : Space space)
    (hs : Starts (word.toList ++ text)) (hne : ∃ c cs, word.toList = c :: cs ∧ c ≠ ';')
    (hword : readArg (word.toList ++ text) = .ok (word, text))
    (hothers : readArgs lhs fuel text = .ok (args, rest)) :
    readArgs lhs (fuel + 1) (space ++ (word.toList ++ text)) = .ok (word :: args, rest) := by
  obtain ⟨c, cs, hw, hc⟩ := hne
  rw [readArgs, skip_space_append hspace hs]
  split
  · rename_i he
    rw [hw] at he
    cases he
  · rename_i he
    rw [hw] at he
    exact absurd (List.cons.inj he).1 hc
  · simp only [hword, hothers, bind, Except.bind, pure, Except.pure]

theorem readArgs_spaced {lhs : String} {args : List String}
    (hargs : ∀ arg ∈ args, IsArg arg) (hp : pause = [] ∨ Space pause)
    (h : Spaced (pause ++ ';' :: rest) args text) {fuel : Nat} (hf : args.length < fuel) :
    readArgs lhs fuel text = .ok (args, rest) := by
  induction args generalizing text fuel with
  | nil =>
    cases h
    exact readArgs_semicolon lhs hf hp rest
  | cons arg args ih =>
    obtain ⟨fuel, rfl⟩ := Nat.exists_eq_succ_of_ne_zero (Nat.ne_zero_of_lt hf)
    obtain - | ⟨hspace, hothers⟩ := h
    obtain ⟨harg, hargs⟩ := List.forall_mem_cons.1 hargs
    have hstops := hothers.stops (stops_pause hp rest)
    obtain ⟨hstarts, hne⟩ := harg.starts hstops
    exact readArgs_cons hspace hstarts hne (readArg_append harg hstops)
      (ih hargs hothers (Nat.lt_of_succ_lt_succ hf))

theorem afterFloating?_of_category (h : IsCategory word) (rest : List Char) :
    afterFloating? (word.toList ++ rest) = none := by
  obtain ⟨cs, hcs, -⟩ := h
  rw [hcs]
  rfl

theorem afterFloating?_space {c : Char} (hc : Text.isBlank c = true) (rest : List Char) :
    afterFloating? ("floating".toList ++ c :: rest) = some rest := by
  rw [afterFloating?, after?_eq_some_iff.2 rfl]
  simp [hc]

/-- Behind the left-hand side come the arrow, the symbols, the double arrow and the function. -/
theorem readHead_spaced {statement : Statement} (hs : statement.HeadFormed) {start : List Char}
    (hstart : skip start = statement.lhs.toList ++ text)
    (h : Spaced rest ("->" :: (statement.rhs ++ ["=>", statement.function])) text)
    (hr : Stops rest) :
    ∃ afterLhs afterArrow afterRhs,
      readCategory (skip start) = .ok (statement.lhs, afterLhs) ∧
      after? ['-', '>'] (skip afterLhs) = some afterArrow ∧
      readSymbols (afterArrow.length + 1) afterArrow = .ok (statement.rhs, afterRhs) ∧
      readFunction (skip afterRhs) = .ok (statement.function, rest) := by
  have hstops := h.stops hr
  obtain - | ⟨hspace, hrhs⟩ := h
  rename_i space afterArrow
  rw [show statement.rhs ++ ["=>", statement.function] =
    (statement.rhs ++ ["=>"]) ++ [statement.function] by simp] at hrhs
  have hlength := hrhs.length_le
  obtain ⟨mid, hrhs, hfunction⟩ := hrhs.of_append
  have hmid := hfunction.stops hr
  obtain - | ⟨hbefore, hdone⟩ := hfunction
  cases hdone
  refine ⟨space ++ ("->".toList ++ afterArrow), afterArrow, _, ?_, ?_,
    readSymbols_spaced hs.rhs hrhs hmid ?_, ?_⟩
  · rw [hstart]
    exact readCategory_append hs.lhs hstops
  · have harrow : Starts ("->".toList ++ afterArrow) :=
      starts_cons (c := '-') (by decide) (by decide) ('>' :: afterArrow)
    rw [skip_space_append hspace harrow]
    rfl
  · simp only [List.length_append] at hlength
    omega
  · rw [skip_space_append hbefore (hs.function.starts rest)]
    exact readFunction_append hs.function hr

/-- Whatever follows, a statement begins with its first word. -/
theorem exists_head {statement : Statement} (hs : statement.HeadFormed) :
    ∃ first others, statement.head = first :: others ∧
      ∀ rest, Starts (first.toList ++ rest) := by
  unfold head
  split
  · exact ⟨"floating", _, rfl, fun rest =>
      starts_cons (c := 'f') (by decide) (by decide) ("loating".toList ++ rest)⟩
  · exact ⟨statement.lhs, _, rfl, hs.lhs.starts⟩

theorem read_spaced {statement : Statement} (hs : statement.HeadFormed) {first : String}
    {others : List String} (hhead : statement.head = first :: others) {tail : List Char}
    (h : Spaced tail others text) (ht : Stops tail)
    (hargs : readArgs statement.lhs (tail.length + 1) tail = .ok (statement.args, rest)) :
    read (first.toList ++ text) = .ok (statement, rest) := by
  rw [read_eq_ok_iff]
  unfold head at hhead
  -- One blank is read along with the word that marks a floating rule, the rest of the space is not.
  cases hfloating : statement.floating with
  | true =>
    simp only [hfloating, if_true, List.cons_append, List.nil_append, List.cons.injEq] at hhead
    obtain ⟨rfl, rfl⟩ := hhead
    obtain - | ⟨hspace, h⟩ := h
    obtain ⟨c, gap, rfl, hc, hgap⟩ := hspace
    obtain ⟨afterLhs, afterArrow, afterRhs, hlhs, harrow, hrhs, hfunction⟩ :=
      readHead_spaced hs (by rw [skip_gap hgap, skip_of_starts (hs.lhs.starts _)]) h ht
    exact ⟨_, afterLhs, afterArrow, afterRhs, tail, Or.inl ⟨afterFloating?_space hc _, rfl⟩, hlhs,
      harrow, hrhs, hfunction, hargs⟩
  | false =>
    simp only [hfloating, Bool.false_eq_true, if_false, List.singleton_append,
      List.cons.injEq] at hhead
    obtain ⟨rfl, rfl⟩ := hhead
    obtain ⟨afterLhs, afterArrow, afterRhs, hlhs, harrow, hrhs, hfunction⟩ :=
      readHead_spaced hs (skip_of_starts (hs.lhs.starts _)) h ht
    exact ⟨_, afterLhs, afterArrow, afterRhs, tail,
      Or.inr ⟨afterFloating?_of_category hs.lhs _, rfl, rfl⟩, hlhs, harrow, hrhs, hfunction, hargs⟩

/-! ## Statement after statement -/

/-- The text is read statement by statement, and nothing but a gap is left at its end. -/
inductive Reads : List Statement → List Char → Prop
  | nil {text : List Char} : skip text = [] → Reads [] text
  | cons {statement : Statement} {statements : List Statement} {text rest : List Char} :
    read (skip text) = .ok (statement, rest) → rest.length < text.length →
    Reads statements rest → Reads (statement :: statements) text

theorem readUpTo_of_reads {statements : List Statement} (h : Reads statements text) {fuel : Nat}
    (hf : text.length < fuel) : readUpTo fuel text = (statements, none) := by
  induction h generalizing fuel with
  | nil hskip =>
    obtain ⟨fuel, rfl⟩ := Nat.exists_eq_succ_of_ne_zero (Nat.ne_zero_of_lt hf)
    rw [readUpTo, hskip]
  | cons hread hlt _ ih =>
    obtain ⟨fuel, rfl⟩ := Nat.exists_eq_succ_of_ne_zero (Nat.ne_zero_of_lt hf)
    rw [readUpTo]
    split
    · rename_i hskip
      rw [hskip] at hread
      cases hread
    · rw [hread]
      simp only [ih (Nat.lt_of_lt_of_le hlt (Nat.le_of_lt_succ hf))]

theorem reads_of_writes {statements : List Statement}
    (hs : ∀ statement ∈ statements, statement.WellFormed) (h : Writes statements text) :
    Reads statements text := by
  induction h with
  | nil h => exact .nil (skip_ending h)
  | @cons statement statements first others gap body pause text hgap hwords hbody hpause _ ih =>
    obtain ⟨hfirst, hs⟩ := List.forall_mem_cons.1 hs
    obtain ⟨word, firsts, hhead, hstarts⟩ := exists_head hfirst.toHeadFormed
    rw [words, hhead, List.cons_append, List.cons.injEq] at hwords
    obtain ⟨rfl, rfl⟩ := hwords
    have hlength := hbody.length_le
    -- The arguments are read up to the semicolon, all before them whatever goes on behind it.
    obtain ⟨tail, hbody, hargs⟩ := hbody.of_append
    have hfuel := hargs.length_le
    refine .cons ?_ ?_ (ih hs)
    · rw [skip_gap hgap, skip_of_starts (hstarts _)]
      refine read_spaced hfirst.toHeadFormed hhead hbody (hargs.stops (stops_pause hpause text))
        (readArgs_spaced hfirst.args hpause hargs ?_)
      omega
    · simp only [List.length_append, List.length_cons] at hlength ⊢
      omega

theorem readAll_of_reads {statements : List Statement} {text : String}
    (h : Reads statements text.toList) : readAll text = (statements, none) :=
  readUpTo_of_reads h (Nat.lt_succ_self _)

end Gaps

end Statement

/-! ## Carrying the statements out -/

/-- What comes of statements that nobody has to read: for one after the other the function is
resolved and the rule is added, up to the first error, and at the end the grammar is built. -/
def GrammarBuilder.carryOut (registry : Registry) (builder : GrammarBuilder) :
    List Statement → Except Error Grammar
  | [] => builder.build.mapError Error.grammar
  | statement :: statements =>
    match registry.resolve statement.function statement.args with
    | .error cause => .error (.config cause)
    | .ok semantics =>
      match builder.addRule statement.lhs statement.rhs statement.floating semantics with
      | .error cause => .error (.grammar cause)
      | .ok (builder, _) => builder.carryOut registry statements

theorem GrammarBuilder.carryOut_eq_foldlM (registry : Registry) (builder : GrammarBuilder)
    (statements : List Statement) :
    builder.carryOut registry statements =
      (statements.foldlM (GrammarBuilder.addStatement registry) builder >>= fun builder =>
        builder.build.mapError Error.grammar) := by
  induction statements generalizing builder with
  | nil => rfl
  | cons statement statements ih =>
    rw [carryOut, List.foldlM_cons, addStatement]
    cases registry.resolve statement.function statement.args with
    | error => rfl
    | ok semantics =>
      cases hadd : builder.addRule statement.lhs statement.rhs statement.floating semantics with
      | error => simp [hadd, Except.mapError, bind, Except.bind]
      | ok => simp [hadd, Except.mapError, bind, Except.bind, ih, pure, Except.pure]

theorem Grammar.read_of_reads (registry : Registry) {statements : List Statement} {text : String}
    (h : Statement.Reads statements text.toList) :
    Grammar.read registry text = GrammarBuilder.empty.carryOut registry statements := by
  rw [GrammarBuilder.carryOut_eq_foldlM, Grammar.read, Statement.readAll_of_reads h]

/-- However statements are laid out, the grammar of the text, or the error, is what comes of
carrying them out. -/
theorem Grammar.read_of_writes (registry : Registry) {statements : List Statement} {text : String}
    (hs : ∀ statement ∈ statements, statement.WellFormed)
    (h : Statement.Writes statements text.toList) :
    Grammar.read registry text = GrammarBuilder.empty.carryOut registry statements :=
  Grammar.read_of_reads registry (Statement.reads_of_writes hs h)

/-- Two statements, with no blank between them and a comment that nothing ends. -/
def crowdedText : String :=
  "// 1\n$One -> i //=>\n => const \";\";floating\t$ROOT -> $One => call + ;//"

def crowdedStatements : List Statement :=
  [⟨false, "$One", ["i"], "const", ["\";\""]⟩, ⟨true, "$ROOT", ["$One"], "call", ["+"]⟩]

namespace Statement

theorem wellFormed_of_mem_crowdedStatements :
    ∀ statement ∈ crowdedStatements, statement.WellFormed := by
  have hone : IsCategory "$One" := ⟨"One".toList, rfl, by decide, List.all_iff_forall_prop.1 rfl⟩
  have hroot : IsCategory "$ROOT" := ⟨"ROOT".toList, rfl, by decide, List.all_iff_forall_prop.1 rfl⟩
  have htoken : IsSymbol "i" :=
    Or.inr ⟨⟨by decide, List.all_iff_forall_prop.1 rfl⟩, by decide, by decide⟩
  have hchild : IsSymbol "$One" :=
    Or.inl ⟨"One".toList, rfl, by decide, List.all_iff_forall_prop.1 rfl⟩
  have hconst : IsFunction "const" :=
    ⟨'c', "onst".toList, rfl, Or.inl rfl, List.all_iff_forall_prop.1 rfl⟩
  have hcall : IsFunction "call" :=
    ⟨'c', "all".toList, rfl, Or.inl rfl, List.all_iff_forall_prop.1 rfl⟩
  have hquoted : IsArg "\";\"" := Or.inl ⟨";".toList, rfl, List.all_iff_forall_prop.1 rfl⟩
  have hplus : IsArg "+" :=
    Or.inr ⟨by decide, List.all_iff_forall_prop.1 rfl, by decide, by decide⟩
  simp only [crowdedStatements, List.forall_mem_cons]
  refine ⟨⟨⟨hone, ?_, hconst⟩, ?_⟩, ⟨⟨hroot, ?_, hcall⟩, ?_⟩, nofun⟩ <;>
    simp [htoken, hchild, hquoted, hplus]

theorem writes_crowdedStatements : Writes crowdedStatements crowdedText.toList := by
  have hstart : Gap "// 1\n".toList := @Gap.comment " 1".toList _ (by decide) .nil
  have hblank : Space [' '] := space_singleton rfl
  have htab : Space ['\t'] := space_singleton rfl
  have hcomment : Space " //=>\n ".toList :=
    ⟨' ', _, rfl, rfl, @Gap.comment "=>".toList _ (by decide) (.blank rfl .nil)⟩
  have hend : Writes [] "//".toList := .nil ⟨[], _, rfl, .nil, Or.inr ⟨[], rfl, by decide⟩⟩
  have hsecond := Writes.cons .nil
    (show words ⟨true, "$ROOT", ["$One"], "call", ["+"]⟩ = _ from rfl)
    (.cons htab <| .cons hblank <| .cons hblank <| .cons hblank <| .cons hblank <|
      .cons hblank .nil) (Or.inr hblank) hend
  have hfirst := Writes.cons hstart
    (show words ⟨false, "$One", ["i"], "const", ["\";\""]⟩ = _ from rfl)
    (.cons hblank <| .cons hblank <| .cons hcomment <| .cons hblank <| .cons hblank .nil)
    (Or.inl rfl) hsecond
  exact hfirst

end Statement

theorem Grammar.read_of_writes_crowded :
    Grammar.read Registry.standard crowdedText =
      GrammarBuilder.empty.carryOut Registry.standard crowdedStatements :=
  read_of_writes Registry.standard Statement.wellFormed_of_mem_crowdedStatements
    Statement.writes_crowdedStatements

end GuidedChart
