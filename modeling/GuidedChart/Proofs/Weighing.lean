import GuidedChart.Proofs.Grammar.Lines
import GuidedChart.Scoring

/-!
# Weights for the rules of a grammar

A file of weights has a line for each weight: the feature of a rule, a tab, and the weight. The
feature ends at the last tab, and a weight has no blank in it (`Decimal.solid_of_readDouble?`), so a
line says what it was written for (`readLine_line`), even if there are tabs in the rule. A rule that
was read takes one line, so a file of such lines, with idle lines anywhere between them, is read
line by line (`ofText_intercalate`). What each line changes adds up to the weights that the last
lines say (`Amends.cons`, `exists_readLines_of_lists`), and the weights that were there before are
none (`weights_of_rules`).
-/

namespace GuidedChart

/-! ## Solid texts -/

namespace Text

/-- Is there no blank in the text? -/
def Solid (cs : List Char) : Prop :=
  ∀ c ∈ cs, isBlank c = false

variable {cs xs ys : List Char}

theorem Solid.not_mem (h : Solid cs) {c : Char} (hc : isBlank c = true) : c ∉ cs := fun hmem => by
  rw [h c hmem] at hc
  cases hc

theorem solid_of_isDigit (h : ∀ c ∈ cs, c.isDigit = true) : Solid cs := fun c hc =>
  Statement.isBlank_eq_false_of_isAlphanum (by simp [Char.isAlphanum, h c hc])

theorem solid_append : Solid (xs ++ ys) ↔ Solid xs ∧ Solid ys :=
  List.forall_mem_append

theorem solid_cons {c : Char} : Solid (c :: cs) ↔ isBlank c = false ∧ Solid cs :=
  List.forall_mem_cons

/-- What ends with a solid text is not trimmed. -/
theorem trimRight_append_of_solid (xs : List Char) (hne : ys ≠ []) (h : Solid ys) :
    trimRight (xs ++ ys) = xs ++ ys := by
  obtain ⟨zs, c, rfl⟩ : ∃ zs c, ys = zs ++ [c] := ⟨_, _, (List.dropLast_concat_getLast hne).symm⟩
  have hc : isBlank c = false := h c (by simp)
  rw [← List.append_assoc, trimRight, List.reverse_append, List.reverse_singleton,
    List.singleton_append, List.dropWhile_cons_of_neg (by simp [hc])]
  simp

theorem trim_of_solid (h : Solid cs) : trim cs = cs := by
  cases cs with
  | nil => rfl
  | cons c cs =>
    rw [trim, List.dropWhile_cons_of_neg (by simp [(solid_cons.1 h).1])]
    exact trimRight_append_of_solid [] (List.cons_ne_nil c cs) h

theorem trimRight_append_of_blank (xs : List Char) (h : ∀ c ∈ ys, isBlank c = true) :
    trimRight (xs ++ ys) = trimRight xs := by
  have hreverse : ∀ c ∈ ys.reverse, isBlank c = true := fun c hc => h c (List.mem_reverse.1 hc)
  rw [trimRight, trimRight, List.reverse_append, List.dropWhile_append_of_pos hreverse]

theorem head?_trimRight {c : Char} (hc : isBlank c = false) (cs : List Char) :
    (trimRight (c :: cs)).head? = some c := by
  rw [trimRight, List.reverse_cons, List.dropWhile_append]
  split <;> simp [hc]

/-- A carriage return at the end is trimmed anyway. -/
theorem trimRight_dropReturn (cs : List Char) : trimRight (dropReturn cs) = trimRight cs := by
  unfold dropReturn
  split
  · rename_i hlast
    obtain ⟨xs, rfl⟩ := List.getLast?_eq_some_iff.1 hlast
    have hreturn : ∀ c ∈ ['\r'], isBlank c = true := List.forall_mem_singleton.2 rfl
    rw [List.dropLast_concat, trimRight_append_of_blank _ hreturn]
  · rfl

end Text

/-! ## Numbers -/

namespace Decimal

open Text (Solid solid_of_isDigit solid_append solid_cons)

variable {cs : List Char} {x : Float}

theorem solid_of_readNat? {n : Nat} (h : readNat? cs = some n) : Solid cs := by
  simp only [readNat?, Option.ite_none_right_eq_some, Bool.and_eq_true, List.all_eq_true] at h
  exact solid_of_isDigit h.1.2

theorem solid_of_readInt? {n : Int} (h : readInt? cs = some n) : Solid cs := by
  unfold readInt? at h
  split at h
  all_goals obtain ⟨m, hm, -⟩ := Option.map_eq_some_iff.1 h
  · exact solid_cons.2 ⟨rfl, solid_of_readNat? hm⟩
  · exact solid_cons.2 ⟨rfl, solid_of_readNat? hm⟩
  · exact solid_of_readNat? hm

theorem solid_takeWhile_isDigit (cs : List Char) : Solid (cs.takeWhile Char.isDigit) :=
  solid_of_isDigit fun _ hc => List.mem_takeWhile_imp hc

/-- Behind the digits there is nothing, or an exponent. -/
theorem solid_of_exponent {y : Float} {f : Int → Float}
    (h : (match cs with
      | [] => some y
      | e :: rest => if e = 'e' || e = 'E' then (readInt? rest).map f else none) = some x) :
    Solid cs := by
  split at h
  · exact List.forall_mem_nil _
  · split at h
    · rename_i hexp
      obtain ⟨n, hn, -⟩ := Option.map_eq_some_iff.1 h
      refine solid_cons.2 ⟨?_, solid_of_readInt? hn⟩
      simp only [Bool.or_eq_true, decide_eq_true_eq] at hexp
      rcases hexp with rfl | rfl <;> rfl
    · cases h

theorem solid_of_readMagnitude? (h : readMagnitude? cs = some x) : Solid cs := by
  rw [← List.takeWhile_append_dropWhile (p := Char.isDigit) (l := cs), solid_append]
  refine ⟨solid_takeWhile_isDigit cs, ?_⟩
  unfold readMagnitude? at h
  dsimp only at h
  split at h
  · rename_i rest hrest
    simp only [Option.ite_none_left_eq_some] at h
    rw [hrest, ← List.takeWhile_append_dropWhile (p := Char.isDigit) (l := rest), solid_cons,
      solid_append]
    exact ⟨rfl, solid_takeWhile_isDigit rest, solid_of_exponent h.2⟩
  · simp only [Option.ite_none_left_eq_some] at h
    exact solid_of_exponent h.2

/-- A blank is no capital letter. -/
theorem toLower_of_isBlank {c : Char} (h : Text.isBlank c = true) : c.toLower = c := by
  unfold Char.toLower
  refine dif_neg fun hcapital => ?_
  have hupper : c.isUpper = true := decide_eq_true hcapital
  have halphanum : c.isAlphanum = true := by
    unfold Char.isAlphanum Char.isAlpha
    rw [hupper]
    rfl
  rw [Statement.isBlank_eq_false_of_isAlphanum halphanum] at h
  cases h

theorem solid_of_readSpecial? (h : readSpecial? cs = some x) : Solid cs := by
  have hword : ∀ word : String, String.ofList (cs.map Char.toLower) = word →
      word.toList.any Text.isBlank = false → Solid cs := by
    rintro _ rfl hany c hc
    rw [← Bool.not_eq_true]
    intro hblank
    rw [List.any_eq_false, String.toList_ofList] at hany
    exact hany c (List.mem_map.2 ⟨c, hc, toLower_of_isBlank hblank⟩) hblank
  unfold readSpecial? at h
  dsimp only at h
  split at h
  · rename_i hinf
    simp only [Bool.or_eq_true, decide_eq_true_eq] at hinf
    rcases hinf with hinf | hinf
    · exact hword _ hinf rfl
    · exact hword _ hinf rfl
  · split at h
    · rename_i hnan
      exact hword _ hnan rfl
    · cases h

theorem solid_of_unsigned (h : (readMagnitude? cs).or (readSpecial? cs) = some x) : Solid cs := by
  rcases Option.or_eq_some_iff.1 h with h | ⟨-, h⟩
  · exact solid_of_readMagnitude? h
  · exact solid_of_readSpecial? h

/-- A text that is read as a double has no blank in it, and it is not empty. -/
theorem solid_of_readDouble? (h : readDouble? cs = some x) : cs ≠ [] ∧ Solid cs := by
  unfold readDouble? at h
  dsimp only at h
  split at h
  · obtain ⟨y, hy, -⟩ := Option.map_eq_some_iff.1 h
    exact ⟨List.cons_ne_nil _ _, solid_cons.2 ⟨rfl, solid_of_unsigned hy⟩⟩
  · exact ⟨List.cons_ne_nil _ _, solid_cons.2 ⟨rfl, solid_of_unsigned h⟩⟩
  · refine ⟨?_, solid_of_unsigned h⟩
    rintro rfl
    cases h

end Decimal

/-! ## Lines -/

namespace Weights

section Lines

variable {weights : Weights} {number : Nat} {line other feature weight : List Char}

/-- What a line says does not depend on blanks at its end. -/
theorem readLine_congr (h : Text.trimRight line = Text.trimRight other) :
    weights.readLine number line = weights.readLine number other := by
  simp only [readLine, h]

theorem readLine_of_blank (h : ∀ c ∈ line, Text.isBlank c = true) :
    weights.readLine number line = .ok weights := by
  have htrim : Text.trimRight line = [] := Text.trimRight_append_of_blank [] h
  rw [readLine, htrim]
  rfl

theorem readLine_comment (cs : List Char) :
    weights.readLine number ('#' :: cs) = .ok weights := by
  have hhead : (Text.trimRight ('#' :: cs)).head? = some '#' := Text.head?_trimRight rfl cs
  simp [readLine, hhead]

theorem splitLastTab?_append (h : '\t' ∉ weight) :
    splitLastTab? (feature ++ '\t' :: weight) = some (feature, weight) := by
  have hall : ∀ c ∈ weight.reverse, decide (c ≠ '\t') = true := fun c hc => by
    rw [decide_eq_true_eq]
    rintro rfl
    exact h (List.mem_reverse.1 hc)
  simp only [splitLastTab?, List.reverse_append, List.reverse_cons, List.append_assoc,
    List.singleton_append, List.takeWhile_append_of_pos hall, List.dropWhile_append_of_pos hall]
  simp

/-- A line is cut at the last tab, whatever tabs there are in the feature. -/
theorem readLine_line {value : Float} (hfeature : feature.head? ≠ some '#')
    (h : Decimal.readDouble? weight = some value) :
    weights.readLine number (feature ++ '\t' :: weight) =
      .ok (weights.set (String.ofList feature) value) := by
  obtain ⟨hweight, hsolid⟩ := Decimal.solid_of_readDouble? h
  have htrim : Text.trimRight (feature ++ '\t' :: weight) = feature ++ '\t' :: weight := by
    have happend := Text.trimRight_append_of_solid (feature ++ ['\t']) hweight hsolid
    rwa [List.append_assoc, List.singleton_append] at happend
  have hsplit : splitLastTab? (feature ++ '\t' :: weight) = some (feature, weight) :=
    splitLastTab?_append (hsolid.not_mem rfl)
  have hhead : (feature ++ '\t' :: weight).head? ≠ some '#' := by
    cases feature with
    | nil => simp
    | cons => exact hfeature
  have hempty : (feature ++ '\t' :: weight).isEmpty = false := by simp
  simp only [readLine, htrim, hempty, hhead, decide_false, Bool.or_false, Bool.false_eq_true,
    if_false, hsplit, Text.trim_of_solid hsolid, h]

/-- The lines of a text may be told apart by the line feeds alone. The carriage return before a
line feed is trimmed, and an empty text behind the last line feed says nothing. -/
theorem readLines_split (lines : List (List Char)) (last : List Char) :
    weights.readLines number
        (lines.map Text.dropReturn ++ [last].filter (!·.isEmpty)) =
      weights.readLines number (lines ++ [last]) := by
  induction lines generalizing weights number with
  | nil =>
    cases last with
    | nil => rfl
    | cons => rfl
  | cons line lines ih =>
    have hline : weights.readLine number (Text.dropReturn line) = weights.readLine number line :=
      readLine_congr (Text.trimRight_dropReturn line)
    simp only [List.map_cons, List.cons_append, readLines, hline, ih]

theorem ofText_eq_readLines_splitOn (text : String) :
    ofText text = readLines [] 1 (text.toList.splitOn '\n') := by
  have hne : text.toList.splitOn '\n' ≠ [] := List.splitOn_ne_nil _ _
  have hlast : (text.toList.splitOn '\n').getLast? =
      some ((text.toList.splitOn '\n').getLast hne) := List.getLast?_eq_some_getLast hne
  rw [ofText, Text.lines, ← List.splitOn_eq_splitOnP, hlast, Option.toList_some, readLines_split,
    List.dropLast_concat_getLast]

/-- A text of lines that are put together with line feeds is read line by line. -/
theorem ofText_intercalate {lines : List String} (h : ∀ line ∈ lines, '\n' ∉ line.toList) :
    ofText (String.intercalate "\n" lines) = readLines [] 1 (lines.map String.toList) := by
  rw [ofText_eq_readLines_splitOn, String.toList_intercalate]
  cases lines with
  | nil => rfl
  | cons line lines =>
    have hfeed : "\n".toList = ['\n'] := rfl
    rw [hfeed, List.splitOn_intercalate]
    · simpa using h
    · simp

end Lines

/-! ## Entries -/

/-- A weight for a rule, as it is written. -/
structure Entry where
  rule : Rule
  weight : String

namespace Entry

def line (entry : Entry) : String :=
  "rule=" ++ entry.rule.text ++ "\t" ++ entry.weight

def value? (entry : Entry) : Option Float :=
  Decimal.readDouble? entry.weight.toList

end Entry

/-- Is nothing there but blanks on one line? -/
def IsPadding (text : String) : Prop :=
  ∀ c ∈ text.toList, Text.isBlank c = true ∧ c ≠ '\n'

/-- Is it a line that is passed over, a blank one or a comment? -/
def IsIdle (line : String) : Prop :=
  IsPadding line ∨ line.toList.head? = some '#' ∧ '\n' ∉ line.toList

/-- Lines with one entry each, in their order, perhaps with blanks behind it, and idle lines
anywhere between them. -/
inductive Lists : List Entry → List String → Prop
  | nil : Lists [] []
  | idle {entries : List Entry} {line : String} {lines : List String} :
    IsIdle line → Lists entries lines → Lists entries (line :: lines)
  | entry {entry : Entry} {entries : List Entry} {padding : String} {lines : List String} :
    IsPadding padding → Lists entries lines →
    Lists (entry :: entries) ((entry.line ++ padding) :: lines)

/-- Is it the last one of the entries for rules of one text? -/
def IsLast (entries : List Entry) (entry : Entry) : Prop :=
  ∃ before after, entries = before ++ entry :: after ∧
    ∀ later ∈ after, later.rule.text ≠ entry.rule.text

/-- After some entries a rule weighs what the last entry for its text says. Without an entry it
weighs what it weighed before. -/
def Amends (before : Weights) (entries : List Entry) (after : Weights) : Prop :=
  ∀ text : String,
    (∃ entry, IsLast entries entry ∧ entry.rule.text = text ∧
      entry.value? = some (after.weight ("rule=" ++ text))) ∨
    (∀ entry ∈ entries, entry.rule.text ≠ text) ∧
      after.weight ("rule=" ++ text) = before.weight ("rule=" ++ text)

/-! ## Entry after entry -/

section Entries

variable {before after : Weights} {entry : Entry} {entries : List Entry} {lines : List String}
  {number : Nat} {value : Float}

theorem weight_cons (known : String) (value : Float) (weights : Weights) (feature : String) :
    weight ((known, value) :: weights) feature =
      if known = feature then value else weights.weight feature := by
  rw [weight, List.lookup_cons]
  by_cases h : known = feature
  · simp [h]
  · have hne : (feature == known) = false := beq_eq_false_iff_ne.2 (Ne.symm h)
    simp [h, hne, weight]

theorem weight_set (weights : Weights) (feature : String) (value : Float) (other : String) :
    (weights.set feature value).weight other =
      if feature = other then value else weights.weight other := by
  induction weights with
  | nil => exact weight_cons feature value [] other
  | cons first weights ih =>
    obtain ⟨known, old⟩ := first
    rw [set]
    split
    · rename_i hknown
      rw [weight_cons, weight_cons, hknown]
      split <;> rfl
    · rename_i hknown
      rw [weight_cons, weight_cons, ih]
      split
      · rename_i hother
        rw [if_neg fun h => hknown (hother.trans h.symm)]
      · rfl

theorem IsLast.cons (h : IsLast entries entry) (first : Entry) :
    IsLast (first :: entries) entry := by
  obtain ⟨before, after, rfl, hafter⟩ := h
  exact ⟨first :: before, after, rfl, hafter⟩

theorem Amends.nil (weights : Weights) : weights.Amends [] weights := fun _ =>
  Or.inr ⟨nofun, rfl⟩

/-- One entry is written, and the others after it. -/
theorem Amends.cons (hvalue : entry.value? = some value)
    (h : (before.set ("rule=" ++ entry.rule.text) value).Amends entries after) :
    before.Amends (entry :: entries) after := by
  intro text
  rcases h text with ⟨last, hlast, htext⟩ | ⟨hnone, hafter⟩
  · exact Or.inl ⟨last, hlast.cons entry, htext⟩
  · rw [weight_set] at hafter
    by_cases hsame : entry.rule.text = text
    -- No entry for this text comes later, so this one is the last.
    · refine Or.inl ⟨entry, ⟨[], entries, rfl, ?_⟩, hsame, ?_⟩
      · rwa [hsame]
      · rw [hafter, if_pos (by rw [hsame]), hvalue]
    · refine Or.inr ⟨List.forall_mem_cons.2 ⟨hsame, hnone⟩, ?_⟩
      rwa [if_neg (by simpa using hsame)] at hafter

theorem readLine_idle {line : String} (h : IsIdle line) :
    before.readLine number line.toList = .ok before := by
  rcases h with h | ⟨hhead, -⟩
  · exact readLine_of_blank fun c hc => (h c hc).1
  · obtain ⟨cs, hcs⟩ := List.head?_eq_some_iff.1 hhead
    rw [hcs]
    exact readLine_comment cs

theorem readLine_entry {padding : String} (hvalue : entry.value? = some value)
    (h : IsPadding padding) :
    before.readLine number (entry.line ++ padding).toList =
      .ok (before.set ("rule=" ++ entry.rule.text) value) := by
  have hline : entry.line.toList =
      ("rule=" ++ entry.rule.text).toList ++ '\t' :: entry.weight.toList := by
    simp [Entry.line]
  have hpadding := Text.trimRight_append_of_blank entry.line.toList fun c hc => (h c hc).1
  rw [String.toList_append, readLine_congr hpadding, hline, readLine_line (by simp) hvalue,
    String.ofList_toList]

/-- The lines of entries are read, whatever weights there are before. -/
theorem exists_readLines_of_lists (before : Weights) (number : Nat) (h : Lists entries lines)
    (hvalues : ∀ entry ∈ entries, entry.value?.isSome) :
    ∃ after, before.readLines number (lines.map String.toList) = .ok after ∧
      before.Amends entries after := by
  induction h generalizing before number with
  | nil => exact ⟨before, rfl, .nil before⟩
  | idle hidle _ ih =>
    obtain ⟨after, hread, hafter⟩ := ih before (number + 1) hvalues
    refine ⟨after, ?_, hafter⟩
    rw [List.map_cons, readLines, readLine_idle hidle]
    exact hread
  | entry hpadding _ ih =>
    obtain ⟨hfirst, hvalues⟩ := List.forall_mem_cons.1 hvalues
    obtain ⟨value, hvalue⟩ := Option.isSome_iff_exists.1 hfirst
    obtain ⟨after, hread, hafter⟩ := ih _ (number + 1) hvalues
    refine ⟨after, ?_, hafter.cons hvalue⟩
    rw [List.map_cons, readLines, readLine_entry hvalue hpadding]
    exact hread

/-- Each line is a line, as long as no rule has a line feed. -/
theorem Lists.not_mem_newline (h : Lists entries lines)
    (hrules : ∀ entry ∈ entries, '\n' ∉ entry.rule.text.toList)
    (hvalues : ∀ entry ∈ entries, entry.value?.isSome) :
    ∀ line ∈ lines, '\n' ∉ line.toList := by
  have hpad : ∀ {padding : String}, IsPadding padding → '\n' ∉ padding.toList :=
    fun hpadding hmem => (hpadding _ hmem).2 rfl
  induction h with
  | nil => exact nofun
  | idle hidle _ ih =>
    refine List.forall_mem_cons.2 ⟨?_, ih hrules hvalues⟩
    exact hidle.elim hpad fun hcomment => hcomment.2
  | entry hpadding _ ih =>
    obtain ⟨hrule, hrules⟩ := List.forall_mem_cons.1 hrules
    obtain ⟨hfirst, hvalues⟩ := List.forall_mem_cons.1 hvalues
    obtain ⟨value, hvalue⟩ := Option.isSome_iff_exists.1 hfirst
    have hweight := (Decimal.solid_of_readDouble? hvalue).2.not_mem (c := '\n') rfl
    refine List.forall_mem_cons.2 ⟨?_, ih hrules hvalues⟩
    simp [Entry.line, hrule, hweight, hpad hpadding]

end Entries

/-- The weights of the rules of a grammar that was read can be written to a file, each on a line of
its own with idle lines anywhere, and they are read back: a derivation has the weight that the last
line for its rule says, and none if there is no line for its rule. This holds of grammars over the
standard functions, and over any others that are printed on one line. -/
theorem weights_of_rules :
    Registry.standard.KeepsLines ∧
    ∀ registry : Registry, registry.KeepsLines →
      ∀ source grammar, Grammar.read registry source = .ok grammar →
      ∀ (entries : List Entry) (lines : List String),
        (∀ entry ∈ entries, entry.rule ∈ grammar.rules) →
        (∀ entry ∈ entries, entry.value?.isSome) → Lists entries lines →
        ∃ weights, ofText (String.intercalate "\n" lines) = .ok weights ∧
          (∀ d : Derivation, d.rule ∈ entries.map Entry.rule →
            ∃ entry, IsLast entries entry ∧ entry.rule.text = d.rule.text ∧
              entry.value? = some (weights.weight d.feature)) ∧
          ∀ d : Derivation, (∀ entry ∈ entries, entry.rule.text ≠ d.rule.text) →
            weights.weight d.feature = 0.0 := by
  refine ⟨Registry.keepsLines_standard, ?_⟩
  intro registry hregistry source grammar hread entries lines hrules hvalues hlists
  have hlines : ∀ line ∈ lines, '\n' ∉ line.toList :=
    hlists.not_mem_newline
      (fun entry hentry => Grammar.not_mem_newline_text hregistry hread (hrules entry hentry))
      hvalues
  obtain ⟨weights, hweights, hamends⟩ :=
    exists_readLines_of_lists [] 1 hlists hvalues
  refine ⟨weights, (ofText_intercalate hlines).trans hweights, fun d hd => ?_, fun d hd => ?_⟩
  · rcases hamends d.rule.text with hlast | ⟨hnone, -⟩
    · exact hlast
    · obtain ⟨entry, hentry, hrule⟩ := List.mem_map.1 hd
      exact absurd (congrArg Rule.text hrule) (hnone entry hentry)
  · rcases hamends d.rule.text with ⟨entry, ⟨before, after, rfl, -⟩, htext, -⟩ | ⟨-, hzero⟩
    · exact absurd htext (hd entry (by simp))
    · exact hzero

/-- A function whose name is quoted and holds a number sign, a tab and a carriage return, and a
string with a tab. -/
def tabbedText : String :=
  "$ROOT -> x => call \"#\t\r\";\nfloating $N -> => choice +1 \"a\t\";"

def calling : Rule :=
  ⟨0, ⟨"$ROOT", 0⟩, [.terminal "x"], false, .call "\"#\t\r\""⟩

def choosing : Rule :=
  ⟨1, ⟨"$N", 1⟩, [], true, .choice [.value (.number 1), .value (.str "a\t")]⟩

def tabbed : Grammar where
  categories := ["$ROOT", "$N"]
  rules := [calling, choosing]
  promotions := []

/-- The first entry is followed by another one for the same rule. -/
def tabbedEntries : List Entry :=
  [⟨calling, ".5"⟩, ⟨choosing, "-2"⟩, ⟨calling, "+1e1"⟩]

def tabbedLines : List String :=
  ["# weights", Entry.line ⟨calling, ".5"⟩ ++ "\r", "\t", Entry.line ⟨choosing, "-2"⟩ ++ "",
    Entry.line ⟨calling, "+1e1"⟩ ++ " \t", ""]

theorem weights_of_rules_tabbed :
    Grammar.ofText tabbedText = .ok tabbed ∧ Lists tabbedEntries tabbedLines ∧
    ∃ weights, ofText (String.intercalate "\n" tabbedLines) = .ok weights ∧
      (∀ d : Derivation, d.rule ∈ tabbedEntries.map Entry.rule →
        ∃ entry, IsLast tabbedEntries entry ∧ entry.rule.text = d.rule.text ∧
          entry.value? = some (weights.weight d.feature)) ∧
      ∀ d : Derivation, (∀ entry ∈ tabbedEntries, entry.rule.text ≠ d.rule.text) →
        weights.weight d.feature = 0.0 := by
  have hread : Grammar.ofText tabbedText = .ok tabbed := rfl
  have hrules : ∀ entry ∈ tabbedEntries, entry.rule ∈ tabbed.rules := by
    simp [tabbedEntries, tabbed]
  have hvalues : ∀ entry ∈ tabbedEntries, entry.value?.isSome := by
    simp only [tabbedEntries, List.forall_mem_cons]
    exact ⟨rfl, rfl, rfl, nofun⟩
  have hlists : Lists tabbedEntries tabbedLines := by
    refine .idle (Or.inr ⟨rfl, by decide⟩) <| .entry ?_ <| .idle (Or.inl ?_) <| .entry ?_ <|
      .entry ?_ <| .idle (Or.inl ?_) .nil
    all_goals simp [IsPadding, Text.isBlank]
  exact ⟨hread, hlists, weights_of_rules.2 Registry.standard weights_of_rules.1 tabbedText tabbed
    hread tabbedEntries tabbedLines hrules hvalues hlists⟩

end Weights

end GuidedChart
