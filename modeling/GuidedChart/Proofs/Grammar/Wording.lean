import GuidedChart.Grammar.Statement
import Mathlib.Data.List.TakeWhile

/-!
# The words of a statement

What may stand for a category, a symbol, a semantic function and an argument, told by the
characters alone. Each reader takes such a word off a text that goes on with a blank or a semicolon
(`readCategory_append` and its like), and whatever a statement was read from, its parts are such
words (`scanned_of_mem_readAll`). The one thing more that is read as an argument is a run of
characters behind a quote that is not closed on its line.
-/

namespace GuidedChart

namespace Statement

/-! ## Words -/

/-- A dollar sign and letters, digits, underscores, hyphens and points. -/
def IsCategory (word : String) : Prop :=
  ∃ cs, word.toList = '$' :: cs ∧ cs ≠ [] ∧
    ∀ c ∈ cs, c.isAlphanum = true ∨ c = '_' ∨ c = '-' ∨ c = '.'

/-- Characters in a row, none of them a blank, a semicolon or a dollar sign. -/
def IsRun (cs : List Char) : Prop :=
  cs ≠ [] ∧ ∀ c ∈ cs, Text.isBlank c = false ∧ c ≠ ';' ∧ c ≠ '$'

/-- A run behind a dollar sign, or a run that begins neither like a double arrow nor like a
comment. -/
def IsSymbol (word : String) : Prop :=
  (∃ cs, word.toList = '$' :: cs ∧ IsRun cs) ∨
    IsRun word.toList ∧ ¬ ['=', '>'] <+: word.toList ∧ ¬ ['/', '/'] <+: word.toList

/-- A letter or an underscore, then letters, digits, underscores and hyphens. -/
def IsFunction (word : String) : Prop :=
  ∃ c cs, word.toList = c :: cs ∧ (c.isAlpha = true ∨ c = '_') ∧
    ∀ c ∈ cs, c.isAlphanum = true ∨ c = '_' ∨ c = '-'

/-- Characters between quotes, none of them a quote or a line feed. -/
def IsQuoted (word : String) : Prop :=
  ∃ cs, word.toList = '"' :: cs ++ ['"'] ∧ ∀ c ∈ cs, c ≠ '"' ∧ c ≠ '\n'

/-- Characters in a row, none of them a blank or a semicolon, that begin neither with a quote nor
like a comment. -/
def IsBare (word : String) : Prop :=
  word.toList ≠ [] ∧ (∀ c ∈ word.toList, Text.isBlank c = false ∧ c ≠ ';') ∧
    word.toList.head? ≠ some '"' ∧ ¬ ['/', '/'] <+: word.toList

/-- An argument as it may be written wherever the text goes on behind it. -/
def IsArg (word : String) : Prop :=
  IsQuoted word ∨ IsBare word

/-- Characters in a row behind a quote, none of them a blank, a semicolon or another quote. -/
def IsUnclosed (word : String) : Prop :=
  ∃ cs, word.toList = '"' :: cs ∧ ∀ c ∈ cs, Text.isBlank c = false ∧ c ≠ ';' ∧ c ≠ '"'

/-! ## Where a word ends -/

/-- Does the text go on with a blank or a semicolon, if it goes on? -/
def Stops (text : List Char) : Prop :=
  ∀ c ∈ text.head?, Text.isBlank c = true ∨ c = ';'

/-- Does the text begin with something else than a blank or a comment? -/
def Starts (text : List Char) : Prop :=
  (∀ c ∈ text.head?, Text.isBlank c = false) ∧ ¬ ['/', '/'] <+: text

section Words

variable {cs rest : List Char} {word : String}

theorem stops_of_isBlank {c : Char} (h : Text.isBlank c = true) (text : List Char) :
    Stops (c :: text) := by
  simp [Stops, h]

theorem stops_semicolon (text : List Char) : Stops (';' :: text) := by
  simp [Stops]

theorem isBlank_eq_false_of_isAlphanum {c : Char} (h : c.isAlphanum = true) :
    Text.isBlank c = false := by
  have hval : c.val.toNat = c.toNat := rfl
  unfold Char.isAlphanum Char.isAlpha Char.isUpper Char.isLower Char.isDigit at h
  simp only [Bool.or_eq_true, Bool.and_eq_true, decide_eq_true_eq, ge_iff_le,
    UInt32.le_iff_toNat_le, UInt32.reduceToNat, Char.reduceVal, hval] at h
  simp only [Text.isBlank, Bool.or_eq_false_iff, Bool.and_eq_false_iff, decide_eq_false_iff_not,
    beq_eq_false_iff_ne]
  omega

/-- A class of characters that holds neither blanks nor semicolons ends where the text stops. -/
theorem split_of_stops {p : Char → Bool} (hp : ∀ c ∈ cs, p c = true)
    (hblank : ∀ c, p c = true → Text.isBlank c = false ∧ c ≠ ';') (hr : Stops rest) :
    (cs ++ rest).takeWhile p = cs ∧ (cs ++ rest).dropWhile p = rest := by
  rw [List.takeWhile_append_of_pos hp, List.dropWhile_append_of_pos hp]
  cases rest with
  | nil => simp
  | cons c rest =>
    have hc : p c = false := by
      rw [← Bool.not_eq_true]
      intro hpc
      obtain ⟨hnot, hne⟩ := hblank c hpc
      rcases hr c rfl with h | h
      · rw [h] at hnot
        cases hnot
      · exact hne h
    simp [hc]

theorem isCategoryChar_iff {c : Char} :
    isCategoryChar c = true ↔ c.isAlphanum = true ∨ c = '_' ∨ c = '-' ∨ c = '.' := by
  simp [isCategoryChar, or_assoc]

theorem isSymbolChar_iff {c : Char} :
    isSymbolChar c = true ↔ Text.isBlank c = false ∧ c ≠ ';' ∧ c ≠ '$' := by
  simp [isSymbolChar, and_assoc]

theorem isNameChar_iff {c : Char} :
    isNameChar c = true ↔ c.isAlphanum = true ∨ c = '_' ∨ c = '-' := by
  simp [isNameChar, or_assoc]

theorem isArgChar_iff {c : Char} : isArgChar c = true ↔ Text.isBlank c = false ∧ c ≠ ';' := by
  simp [isArgChar]

theorem solid_of_isCategoryChar {c : Char} (h : isCategoryChar c = true) :
    Text.isBlank c = false ∧ c ≠ ';' := by
  rcases isCategoryChar_iff.1 h with h | rfl | rfl | rfl
  · exact ⟨isBlank_eq_false_of_isAlphanum h, by rintro rfl; cases h⟩
  all_goals decide

theorem solid_of_isNameChar {c : Char} (h : isNameChar c = true) :
    Text.isBlank c = false ∧ c ≠ ';' := by
  refine solid_of_isCategoryChar (isCategoryChar_iff.2 ?_)
  rcases isNameChar_iff.1 h with h | h | h
  · exact Or.inl h
  · exact Or.inr (Or.inl h)
  · exact Or.inr (Or.inr (Or.inl h))

/-! ## Reading a word -/

theorem readCategory_append (h : IsCategory word) (hr : Stops rest) :
    readCategory (word.toList ++ rest) = .ok (word, rest) := by
  obtain ⟨cs, hcs, hne, hall⟩ := h
  obtain ⟨htake, hdrop⟩ := split_of_stops (fun c hc => isCategoryChar_iff.2 (hall c hc))
    (fun c => solid_of_isCategoryChar) hr
  rw [hcs, List.cons_append, readCategory, htake, hdrop]
  simp [hne, ← hcs]

theorem readSymbol_append (h : IsSymbol word) (hr : Stops rest) :
    readSymbol (word.toList ++ rest) = .ok (word, rest) := by
  have hsplit : ∀ {cs}, IsRun cs → (cs ++ rest).takeWhile isSymbolChar = cs ∧
      (cs ++ rest).dropWhile isSymbolChar = rest := fun hrun =>
    split_of_stops (fun c hc => isSymbolChar_iff.2 (hrun.2 c hc))
      (fun c hc => ⟨(isSymbolChar_iff.1 hc).1, (isSymbolChar_iff.1 hc).2.1⟩) hr
  rcases h with ⟨cs, hcs, hrun⟩ | ⟨hrun, -⟩
  · obtain ⟨htake, hdrop⟩ := hsplit hrun
    rw [hcs, List.cons_append, readSymbol]
    simp [htake, hdrop, hrun.1, ← hcs]
  · obtain ⟨htake, hdrop⟩ := hsplit hrun
    have hdollar : ∀ tail, word.toList ++ rest ≠ '$' :: tail := by
      intro tail he
      cases hw : word.toList with
      | nil => exact hrun.1 hw
      | cons c cs =>
        rw [hw, List.cons_append] at he
        exact (hrun.2 c (hw ▸ List.mem_cons_self)).2.2 (List.cons.inj he).1
    unfold readSymbol
    split
    rename_i hmatch
    split at hmatch
    · rename_i he
      exact absurd he (hdollar _)
    · obtain ⟨rfl, rfl⟩ := Prod.mk.inj hmatch
      simp [htake, hdrop, hrun.1]

theorem readFunction_append (h : IsFunction word) (hr : Stops rest) :
    readFunction (word.toList ++ rest) = .ok (word, rest) := by
  obtain ⟨c, cs, hcs, hc, hall⟩ := h
  obtain ⟨htake, hdrop⟩ := split_of_stops (fun c hc => isNameChar_iff.2 (hall c hc))
    (fun c => solid_of_isNameChar) hr
  have hstart : isNameStart c = true := by simpa [isNameStart] using hc
  rw [hcs, List.cons_append, readFunction, if_pos hstart, htake, hdrop, ← hcs, String.ofList_toList]

/-- Characters that may stand between quotes. -/
def isInsideChar (c : Char) : Bool :=
  c ≠ '"' && c ≠ '\n'

theorem isInsideChar_iff {c : Char} : isInsideChar c = true ↔ c ≠ '"' ∧ c ≠ '\n' := by
  simp [isInsideChar]

theorem splitArg_quote (rest : List Char) :
    splitArg ('"' :: rest) =
      match rest.dropWhile isInsideChar with
      | '"' :: tail => ('"' :: rest.takeWhile isInsideChar ++ ['"'], tail)
      | _ => (('"' :: rest).takeWhile isArgChar, ('"' :: rest).dropWhile isArgChar) := rfl

theorem splitArg_of_head? (h : cs.head? ≠ some '"') :
    splitArg cs = (cs.takeWhile isArgChar, cs.dropWhile isArgChar) := by
  unfold splitArg
  split
  · exact absurd rfl h
  · rfl

theorem readArg_quoted (h : IsQuoted word) (rest : List Char) :
    readArg (word.toList ++ rest) = .ok (word, rest) := by
  obtain ⟨cs, hcs, hall⟩ := h
  have hinside : ∀ c ∈ cs, isInsideChar c = true := fun c hc => isInsideChar_iff.2 (hall c hc)
  have hsplit : splitArg (word.toList ++ rest) = (word.toList, rest) := by
    rw [hcs, List.append_assoc, List.cons_append, List.singleton_append, splitArg_quote,
      List.takeWhile_append_of_pos hinside, List.dropWhile_append_of_pos hinside]
    simp [isInsideChar]
  have hne : word.toList ≠ [] := by simp [hcs]
  simp [readArg, hsplit, hne]

theorem readArg_of_splitArg (hne : word.toList ≠ [])
    (hall : ∀ c ∈ word.toList, Text.isBlank c = false ∧ c ≠ ';') (hr : Stops rest)
    (hsplit : splitArg (word.toList ++ rest) =
      ((word.toList ++ rest).takeWhile isArgChar, (word.toList ++ rest).dropWhile isArgChar)) :
    readArg (word.toList ++ rest) = .ok (word, rest) := by
  obtain ⟨htake, hdrop⟩ := split_of_stops (fun c hc => isArgChar_iff.2 (hall c hc))
    (fun c => isArgChar_iff.1) hr
  simp [readArg, hsplit, htake, hdrop, hne]

theorem readArg_bare (h : IsBare word) (hr : Stops rest) :
    readArg (word.toList ++ rest) = .ok (word, rest) := by
  obtain ⟨hne, hall, hquote, -⟩ := h
  refine readArg_of_splitArg hne hall hr (splitArg_of_head? ?_)
  obtain ⟨c, cs, hw⟩ := List.exists_cons_of_ne_nil hne
  rwa [hw] at hquote ⊢

theorem readArg_append (h : IsArg word) (hr : Stops rest) :
    readArg (word.toList ++ rest) = .ok (word, rest) := by
  rcases h with h | h
  · exact readArg_quoted h rest
  · exact readArg_bare h hr

/-- The line ends before the quote is closed. -/
theorem readArg_unclosed (h : IsUnclosed word) (rest : List Char) :
    readArg (word.toList ++ ';' :: '\n' :: rest) = .ok (word, ';' :: '\n' :: rest) := by
  obtain ⟨cs, hcs, hall⟩ := h
  refine readArg_of_splitArg (by simp [hcs]) ?_ (stops_semicolon _) ?_
  · rw [hcs]
    rintro c (_ | ⟨_, hc⟩)
    · decide
    · exact ⟨(hall c hc).1, (hall c hc).2.1⟩
  · have hinside : ∀ c ∈ cs, isInsideChar c = true := by
      refine fun c hc => isInsideChar_iff.2 ⟨(hall c hc).2.2, ?_⟩
      rintro rfl
      exact absurd (hall '\n' hc).1 (by decide)
    rw [hcs, List.cons_append, splitArg_quote, List.dropWhile_append_of_pos hinside]
    rfl

/-! ## What is read -/

theorem after?_eq_some_iff {start : List Char} :
    after? start cs = some rest ↔ cs = start ++ rest := by
  induction start generalizing cs with
  | nil => simp [after?]
  | cons p ps ih =>
    cases cs with
    | nil => simp [after?]
    | cons c cs =>
      simp only [after?, List.cons_append, List.cons.injEq]
      split
      · rename_i he
        simp [ih, he]
      · rename_i hne
        exact iff_of_false nofun fun he => hne he.1.symm

theorem skip_nil : skip [] = [] := rfl

theorem skip_comment (rest : List Char) : skip ('/' :: '/' :: rest) = skipComment rest := rfl

theorem skip_cons {c : Char} (h : ¬ ['/', '/'] <+: c :: rest) :
    skip (c :: rest) = if Text.isBlank c then skip rest else c :: rest := by
  rw [skip.eq_def]
  split
  · rename_i he
    cases he
  · rename_i tail he
    rw [he] at h
    exact absurd ⟨tail, rfl⟩ h
  · rename_i he
    cases he
    rfl

theorem not_comment_start {c : Char} (h : ∀ tail, c = '/' → rest = '/' :: tail → False) :
    ¬ ['/', '/'] <+: c :: rest := by
  rintro ⟨tail, he⟩
  rw [List.cons_append, List.singleton_append, List.cons.injEq] at he
  exact h tail he.1.symm he.2.symm

theorem starts_skip (cs : List Char) : Starts (skip cs) := by
  refine skip.induct (fun cs => Starts (skip cs)) (fun cs => Starts (skipComment cs))
    ?_ ?_ ?_ ?_ ?_ ?_ ?_ cs
  · simp [skip_nil, Starts]
  · intro rest ih
    rwa [skip_comment]
  · intro c rest hc hblank ih
    rwa [skip_cons (not_comment_start hc), if_pos hblank]
  · intro c rest hc hblank
    rw [skip_cons (not_comment_start hc), if_neg hblank]
    exact ⟨by simpa using hblank, not_comment_start hc⟩
  · simp [skipComment, Starts]
  · intro rest ih
    rwa [skipComment, if_pos rfl]
  · intro c rest hc ih
    rwa [skipComment, if_neg hc]

theorem skip_of_starts (h : Starts cs) : skip cs = cs := by
  cases cs with
  | nil => exact skip_nil
  | cons c rest => rw [skip_cons h.2, if_neg (by simpa using h.1 c rfl)]

theorem isCategory_of_readCategory (h : readCategory cs = .ok (word, rest)) :
    IsCategory word := by
  unfold readCategory at h
  split at h
  · rename_i tail
    simp only at h
    split at h
    · cases h
    · rename_i hne
      obtain ⟨rfl, -⟩ := Prod.mk.inj (Except.ok.inj h)
      refine ⟨tail.takeWhile isCategoryChar, String.toList_ofList, by simpa using hne, ?_⟩
      exact fun c hc => isCategoryChar_iff.1 (List.mem_takeWhile_imp hc)
  · cases h

theorem isFunction_of_readFunction (h : readFunction cs = .ok (word, rest)) :
    IsFunction word := by
  unfold readFunction at h
  split at h
  · rename_i c tail
    split at h
    · rename_i hstart
      obtain ⟨rfl, -⟩ := Prod.mk.inj (Except.ok.inj h)
      refine ⟨c, tail.takeWhile isNameChar, String.toList_ofList,
        by simpa [isNameStart] using hstart, ?_⟩
      exact fun c hc => isNameChar_iff.1 (List.mem_takeWhile_imp hc)
    · cases h
  · cases h

theorem isRun_takeWhile (hne : cs.takeWhile isSymbolChar ≠ []) :
    IsRun (cs.takeWhile isSymbolChar) :=
  ⟨hne, fun _ hc => isSymbolChar_iff.1 (List.mem_takeWhile_imp hc)⟩

theorem isSymbol_of_readSymbol (hs : Starts cs) (harrow : after? ['=', '>'] cs = none)
    (h : readSymbol cs = .ok (word, rest)) : IsSymbol word := by
  unfold readSymbol at h
  split at h
  rename_i dollar body hmatch
  simp only at h
  split at h
  · cases h
  · rename_i hne
    rw [List.isEmpty_iff] at hne
    obtain ⟨rfl, -⟩ := Prod.mk.inj (Except.ok.inj h)
    split at hmatch
    · obtain ⟨rfl, rfl⟩ := Prod.mk.inj hmatch
      exact Or.inl ⟨_, String.toList_ofList, isRun_takeWhile hne⟩
    · obtain ⟨rfl, rfl⟩ := Prod.mk.inj hmatch
      rw [List.nil_append]
      refine Or.inr ?_
      rw [String.toList_ofList]
      have hprefix : cs.takeWhile isSymbolChar <+: cs := List.takeWhile_prefix _
      refine ⟨isRun_takeWhile hne, fun hp => ?_, fun hp => hs.2 (hp.trans hprefix)⟩
      obtain ⟨tail, he⟩ := hp.trans hprefix
      rw [after?_eq_some_iff.2 he.symm] at harrow
      cases harrow

/-- Where a quote is not closed on its line, the run behind it has no second quote. -/
theorem not_mem_takeWhile_of_unclosed (h : ∀ tail, cs.dropWhile isInsideChar ≠ '"' :: tail) :
    '"' ∉ cs.takeWhile isArgChar := by
  induction cs with
  | nil => simp
  | cons c cs ih =>
    intro hmem
    rw [List.takeWhile_cons] at hmem
    split at hmem
    · rename_i hc
      have hquote : c ≠ '"' := by
        rintro rfl
        exact h cs rfl
      have hline : c ≠ '\n' := by
        rintro rfl
        exact absurd hc (by decide)
      rw [List.dropWhile_cons_of_pos (isInsideChar_iff.2 ⟨hquote, hline⟩)] at h
      exact ih h ((List.mem_cons.1 hmem).resolve_left hquote.symm)
    · cases hmem

/-- What stands between quotes on one line is split off with the quotes. Otherwise a run of
characters is, and the quote at its beginning, if there is one, is not closed. -/
theorem splitArg_cases (cs : List Char) :
    (∃ rest tail : List Char, splitArg cs = ('"' :: rest.takeWhile isInsideChar ++ ['"'], tail)) ∨
    splitArg cs = (cs.takeWhile isArgChar, cs.dropWhile isArgChar) ∧
      ∀ rest tail, cs = '"' :: rest → rest.dropWhile isInsideChar ≠ '"' :: tail := by
  by_cases hquote : cs.head? = some '"'
  · obtain ⟨rest, rfl⟩ := List.head?_eq_some_iff.1 hquote
    rw [splitArg_quote]
    split
    · exact Or.inl ⟨rest, _, rfl⟩
    · rename_i hopen
      refine Or.inr ⟨rfl, fun other tail he => ?_⟩
      rw [← (List.cons.inj he).2]
      exact hopen tail
  · refine Or.inr ⟨splitArg_of_head? hquote, fun rest tail he => ?_⟩
    rw [he] at hquote
    exact absurd rfl hquote

theorem isArg_of_readArg (hs : Starts cs) (h : readArg cs = .ok (word, rest)) :
    IsArg word ∨ IsUnclosed word := by
  unfold readArg at h
  rcases splitArg_cases cs with ⟨inner, tail, hsplit⟩ | ⟨hsplit, hopen⟩
  · rw [hsplit] at h
    obtain ⟨rfl, -⟩ := Prod.mk.inj (Except.ok.inj h)
    refine Or.inl (Or.inl ⟨_, String.toList_ofList, fun c hc => ?_⟩)
    exact isInsideChar_iff.1 (List.mem_takeWhile_imp hc)
  · rw [hsplit] at h
    simp only [List.isEmpty_iff] at h
    split at h
    · cases h
    rename_i hne
    obtain ⟨rfl, -⟩ := Prod.mk.inj (Except.ok.inj h)
    have hall : ∀ c ∈ cs.takeWhile isArgChar, Text.isBlank c = false ∧ c ≠ ';' :=
      fun c hc => isArgChar_iff.1 (List.mem_takeWhile_imp hc)
    by_cases hquote : cs.head? = some '"'
    -- A quote that is not closed on its line: the run goes on from it like any other.
    · obtain ⟨rest, rfl⟩ := List.head?_eq_some_iff.1 hquote
      have hrun : ('"' :: rest).takeWhile isArgChar = '"' :: rest.takeWhile isArgChar := rfl
      have hnot := not_mem_takeWhile_of_unclosed fun tail => hopen rest tail rfl
      rw [hrun] at hall ⊢
      refine Or.inr ⟨_, String.toList_ofList, fun c hc => ?_⟩
      obtain ⟨hblank, hsemi⟩ := hall c (List.mem_cons_of_mem _ hc)
      exact ⟨hblank, hsemi, fun he => hnot (he ▸ hc)⟩
    · refine Or.inl (Or.inr ?_)
      rw [IsBare, String.toList_ofList, List.head?_takeWhile]
      refine ⟨hne, hall, fun he => ?_, fun hp => hs.2 (hp.trans (List.takeWhile_prefix _))⟩
      exact hquote (Option.filter_eq_some_iff.1 he).1

/-! ## Words stand on one line -/

theorem IsRun.not_mem_newline (h : IsRun cs) : '\n' ∉ cs := fun hmem =>
  absurd (h.2 '\n' hmem).1 (by decide)

theorem IsSymbol.not_mem_newline (h : IsSymbol word) : '\n' ∉ word.toList := by
  rcases h with ⟨cs, hcs, hrun⟩ | ⟨hrun, -⟩
  · rw [hcs, List.mem_cons, not_or]
    exact ⟨by decide, hrun.not_mem_newline⟩
  · exact hrun.not_mem_newline

theorem IsCategory.not_mem_newline (h : IsCategory word) : '\n' ∉ word.toList := by
  obtain ⟨cs, hcs, -, hall⟩ := h
  rw [hcs, List.mem_cons, not_or]
  exact ⟨by decide, fun hmem => absurd (hall '\n' hmem) (by decide)⟩

theorem IsFunction.not_mem_newline (h : IsFunction word) : '\n' ∉ word.toList := by
  obtain ⟨c, cs, hcs, hc, hall⟩ := h
  rw [hcs, List.mem_cons, not_or]
  refine ⟨?_, fun hmem => absurd (hall '\n' hmem) (by decide)⟩
  rintro rfl
  exact absurd hc (by decide)

theorem IsArg.not_mem_newline (h : IsArg word) : '\n' ∉ word.toList := by
  rcases h with ⟨cs, hcs, hall⟩ | ⟨-, hall, -⟩
  · rw [hcs]
    simpa using fun hmem => (hall '\n' hmem).2 rfl
  · exact fun hmem => absurd (hall '\n' hmem).1 (by decide)

theorem IsUnclosed.not_mem_newline (h : IsUnclosed word) : '\n' ∉ word.toList := by
  obtain ⟨cs, hcs, hall⟩ := h
  rw [hcs, List.mem_cons, not_or]
  exact ⟨by decide, fun hmem => absurd (hall '\n' hmem).1 (by decide)⟩

end Words

/-! ## Statements -/

section Statements

variable {cs rest : List Char} {statement : Statement}

theorem exists_of_bind_eq_ok {ε α β : Type} {x : Except ε α} {f : α → Except ε β} {b : β}
    (h : x >>= f = .ok b) : ∃ a, x = .ok a ∧ f a = .ok b := by
  cases x with
  | error => cases h
  | ok a => exact ⟨a, rfl, h⟩

/-- Is each part of the statement, up to the arguments, a word of its kind? -/
structure HeadFormed (statement : Statement) : Prop where
  lhs : IsCategory statement.lhs
  rhs : ∀ symbol ∈ statement.rhs, IsSymbol symbol
  function : IsFunction statement.function

/-- Is each part of the statement a word of its kind? -/
structure WellFormed (statement : Statement) : Prop extends HeadFormed statement where
  args : ∀ arg ∈ statement.args, IsArg arg

/-- Is each part of the statement what may have been read? -/
structure Scanned (statement : Statement) : Prop extends HeadFormed statement where
  args : ∀ arg ∈ statement.args, IsArg arg ∨ IsUnclosed arg

/-- The parts of a statement are read one after the other. -/
theorem read_eq_ok_iff :
    read cs = .ok (statement, rest) ↔ ∃ start afterLhs afterArrow afterRhs afterFunction,
      (afterFloating? cs = some start ∧ statement.floating = true ∨
        afterFloating? cs = none ∧ start = cs ∧ statement.floating = false) ∧
      readCategory (skip start) = .ok (statement.lhs, afterLhs) ∧
      after? ['-', '>'] (skip afterLhs) = some afterArrow ∧
      readSymbols (afterArrow.length + 1) afterArrow = .ok (statement.rhs, afterRhs) ∧
      readFunction (skip afterRhs) = .ok (statement.function, afterFunction) ∧
      readArgs statement.lhs (afterFunction.length + 1) afterFunction =
        .ok (statement.args, rest) := by
  constructor
  · intro h
    unfold read at h
    split at h
    rename_i floating start hfloating
    obtain ⟨⟨lhs, afterLhs⟩, hlhs, h⟩ := exists_of_bind_eq_ok h
    simp only at h
    split at h
    · rename_i afterArrow harrow
      obtain ⟨_, hsame, h⟩ := exists_of_bind_eq_ok h
      cases hsame
      obtain ⟨⟨rhs, afterRhs⟩, hrhs, h⟩ := exists_of_bind_eq_ok h
      obtain ⟨⟨function, afterFunction⟩, hfunction, h⟩ := exists_of_bind_eq_ok h
      obtain ⟨⟨args, afterArgs⟩, hargs, h⟩ := exists_of_bind_eq_ok h
      cases h
      refine ⟨start, afterLhs, afterArrow, afterRhs, afterFunction, ?_, hlhs, harrow, hrhs,
        hfunction, hargs⟩
      split at hfloating
      · rename_i hafter
        cases hfloating
        exact Or.inl ⟨hafter, rfl⟩
      · rename_i hafter
        cases hfloating
        exact Or.inr ⟨hafter, rfl, rfl⟩
    · obtain ⟨_, herror, -⟩ := exists_of_bind_eq_ok h
      cases herror
  · rintro ⟨start, afterLhs, afterArrow, afterRhs, afterFunction, hfloating, hlhs, harrow, hrhs,
      hfunction, hargs⟩
    obtain ⟨floating, lhs, rhs, function, args⟩ := statement
    rcases hfloating with ⟨hafter, rfl⟩ | ⟨hafter, rfl, rfl⟩ <;>
      simp only [read, hafter, hlhs, harrow, hrhs, hfunction, hargs, bind, Except.bind, pure,
        Except.pure]

theorem isSymbol_of_mem_readSymbols {fuel : Nat} {symbols : List String}
    (h : readSymbols fuel cs = .ok (symbols, rest)) : ∀ symbol ∈ symbols, IsSymbol symbol := by
  induction fuel generalizing cs symbols with
  | zero => cases h
  | succ fuel ih =>
    simp only [readSymbols] at h
    split at h
    · cases h
      exact nofun
    · rename_i harrow
      obtain ⟨⟨first, afterFirst⟩, hfirst, h⟩ := exists_of_bind_eq_ok h
      obtain ⟨⟨others, afterOthers⟩, hothers, h⟩ := exists_of_bind_eq_ok h
      cases h
      exact List.forall_mem_cons.2
        ⟨isSymbol_of_readSymbol (starts_skip cs) harrow hfirst, ih hothers⟩

theorem isArg_of_mem_readArgs {lhs : String} {fuel : Nat} {args : List String}
    (h : readArgs lhs fuel cs = .ok (args, rest)) :
    ∀ arg ∈ args, IsArg arg ∨ IsUnclosed arg := by
  induction fuel generalizing cs args with
  | zero => cases h
  | succ fuel ih =>
    rw [readArgs] at h
    split at h
    · cases h
    · cases h
      exact nofun
    · obtain ⟨⟨first, afterFirst⟩, hfirst, h⟩ := exists_of_bind_eq_ok h
      obtain ⟨⟨others, afterOthers⟩, hothers, h⟩ := exists_of_bind_eq_ok h
      cases h
      exact List.forall_mem_cons.2 ⟨isArg_of_readArg (starts_skip cs) hfirst, ih hothers⟩

theorem scanned_of_mem_readUpTo {fuel : Nat} {cs : List Char} {statement : Statement}
    (h : statement ∈ (readUpTo fuel cs).1) : statement.Scanned := by
  induction fuel generalizing cs with
  | zero => cases h
  | succ fuel ih =>
    rw [readUpTo] at h
    split at h
    · cases h
    · split at h
      · cases h
      · rename_i first rest hread
        rcases List.mem_cons.1 h with rfl | h
        · obtain ⟨_, _, _, _, _, -, hlhs, -, hrhs, hfunction, hargs⟩ := read_eq_ok_iff.1 hread
          exact ⟨⟨isCategory_of_readCategory hlhs, isSymbol_of_mem_readSymbols hrhs,
            isFunction_of_readFunction hfunction⟩, isArg_of_mem_readArgs hargs⟩
        · exact ih h

/-- Whatever text a statement was read from, its parts are words. -/
theorem scanned_of_mem_readAll {text : String} (h : statement ∈ (readAll text).1) :
    statement.Scanned :=
  scanned_of_mem_readUpTo h

end Statements

end Statement

end GuidedChart
