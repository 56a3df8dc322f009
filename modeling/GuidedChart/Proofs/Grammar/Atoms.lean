import GuidedChart.Proofs.Grammar.Layout
import Mathlib.Data.List.Basic

/-!
# Atoms in print

What an atom was read as may be printed in other words, `+05` as `5`, but it is read as the same
value again (`Value.ofAtom_text_ofAtom`), unless a string is escaped or an entity begins with a
quote. So a semantic function with the arguments it is printed with is resolved to itself
(`Semantics.resolve_printed`).
-/

namespace GuidedChart

open Statement (IsArg IsUnclosed)

/-! ## Atoms -/

namespace Value

/-- Does the value stand for itself in print? No character of a string is escaped, and an entity
does not begin like a string. -/
def PrintsRaw : Value → Prop
  | .str s => ∀ c ∈ s.toList, Text.escape c = [c]
  | .entity name => name.toList.head? ≠ some '"'
  | _ => True

theorem toList_quote_of_raw {s : String} (h : ∀ c ∈ s.toList, Text.escape c = [c]) :
    (Text.quote s).toList = '"' :: s.toList ++ ['"'] := by
  have hsame : s.toList.flatMap Text.escape = s.toList := by
    rw [List.flatMap_congr h, List.flatMap_singleton']
  rw [Text.quote, String.toList_ofList, hsame]

/-- What an atom is read as: a number or a truth value, and otherwise a string or an entity with
the characters of the atom. -/
theorem ofAtom_cases (atom : String) :
    (∃ n, Decimal.readWord? atom.toList = some n ∧ ofAtom atom = .number n) ∨
    (∃ b, ofAtom atom = .bool b) ∨
    (∃ s, atom.toList = '"' :: s.toList ++ ['"'] ∧ ofAtom atom = .str s) ∨
    ofAtom atom = .entity atom := by
  unfold ofAtom
  split
  · rename_i n hn
    exact Or.inl ⟨n, hn, rfl⟩
  · refine Or.inr ?_
    split
    · exact Or.inl ⟨true, rfl⟩
    split
    · exact Or.inl ⟨false, rfl⟩
    refine Or.inr ?_
    split
    · rename_i rest hatom
      split
      · rename_i hlast
        obtain ⟨inner, rfl⟩ := List.getLast?_eq_some_iff.1 hlast
        rw [List.dropLast_concat]
        exact Or.inl ⟨String.ofList inner, by rw [hatom, String.toList_ofList]; rfl, rfl⟩
      · exact Or.inr rfl
    · exact Or.inr rfl

theorem isArg_of_isNameChar {word : String} (hne : word.toList ≠ [])
    (h : ∀ c ∈ word.toList, Statement.isNameChar c = true) : IsArg word := by
  obtain ⟨c, cs, hw⟩ := List.exists_cons_of_ne_nil hne
  have hc : Statement.isNameChar c = true := h c (hw ▸ List.mem_cons_self)
  refine Or.inr ⟨hne, fun c hc => Statement.solid_of_isNameChar (h c hc), ?_, ?_⟩
  · rw [hw]
    rintro ⟨rfl⟩
    cases hc
  · rw [hw]
    rintro ⟨tail, he⟩
    rw [← (List.cons.inj he).1] at hc
    cases hc

theorem isNameChar_of_mem_natText {n : Nat} {c : Char} (hc : c ∈ (Decimal.natText n).toList) :
    Statement.isNameChar c = true := by
  rw [Decimal.natText, String.toList_ofList] at hc
  have hdigit := Nat.isDigit_of_mem_toDigits (by decide) (by decide) hc
  simp [Statement.isNameChar, Char.isAlphanum, hdigit]

theorem isArg_intText (n : Int) : IsArg (Decimal.intText n) := by
  have hne : (Decimal.natText n.natAbs).toList ≠ [] := by
    simp [Decimal.natText, Nat.toDigits_ne_nil]
  unfold Decimal.intText
  split
  · refine isArg_of_isNameChar (by simp) fun c hc => ?_
    rw [String.toList_append] at hc
    rcases List.mem_append.1 hc with hc | hc
    · rw [List.mem_singleton.1 hc]
      rfl
    · exact isNameChar_of_mem_natText hc
  · exact isArg_of_isNameChar hne fun c hc => isNameChar_of_mem_natText hc

theorem ofAtom_intText {n : Int} {atom : String} (h : Decimal.readWord? atom.toList = some n) :
    ofAtom (Decimal.intText n) = .number n := by
  obtain ⟨m, -, hword⟩ := Option.bind_eq_some_iff.1 h
  have hn : Decimal.word? n = some n :=
    Decimal.word?_eq_some_iff.2 ⟨rfl, (Decimal.word?_eq_some_iff.1 hword).2⟩
  rw [ofAtom, Decimal.readWord?, Decimal.readInt?_intText, Option.bind_some, hn]

/-- The value of an atom is printed as an atom of the same value. -/
theorem ofAtom_text_ofAtom {atom : String} (ha : IsArg atom ∨ IsUnclosed atom)
    (hraw : (ofAtom atom).PrintsRaw) :
    IsArg (ofAtom atom).text ∧ ofAtom (ofAtom atom).text = ofAtom atom := by
  rcases ofAtom_cases atom with ⟨n, hn, hatom⟩ | ⟨b, hatom⟩ | ⟨s, hs, hatom⟩ | hatom
  · rw [hatom, text]
    exact ⟨isArg_intText n, ofAtom_intText hn⟩
  · rw [hatom]
    cases b
    · exact ⟨isArg_of_isNameChar (by decide) (List.all_eq_true.1 rfl), by decide⟩
    · exact ⟨isArg_of_isNameChar (by decide) (List.all_eq_true.1 rfl), by decide⟩
  -- Strings and entities are printed as the atom itself. A string was closed when it was read, and
  -- an entity with a quote in front is ruled out.
  · rw [hatom] at hraw
    have htext : (ofAtom atom).text = atom := by
      rw [hatom, text, ← String.toList_inj, toList_quote_of_raw hraw, hs]
    rw [htext]
    refine ⟨Or.inl ?_, rfl⟩
    rcases ha with (ha | ⟨-, -, hquote, -⟩) | ⟨cs, hcs, hall⟩
    · exact ha
    · rw [hs] at hquote
      exact absurd rfl hquote
    · have hmem : '"' ∈ cs := by
        rw [hs] at hcs
        rw [← (List.cons.inj hcs).2]
        simp
      exact absurd rfl (hall '"' hmem).2.2
  · have htext : (ofAtom atom).text = atom := by rw [hatom, text]
    rw [htext]
    rw [hatom] at hraw
    refine ⟨Or.inr ?_, rfl⟩
    rcases ha with (⟨cs, hcs, -⟩ | ha) | ⟨cs, hcs, -⟩
    · exact absurd (by rw [hcs]; rfl) hraw
    · exact ha
    · exact absurd (by rw [hcs]; rfl) hraw

end Value

/-- Are these arguments read back when the line ends behind the semicolon? The only argument there
is may then be a quote that is not closed. -/
def Statement.ArgsEndLine (args : List String) : Prop :=
  (∀ arg ∈ args, IsArg arg) ∨ ∃ arg, args = [arg] ∧ IsUnclosed arg

theorem Formula.toList_textAll (formulas : List Formula) :
    (Formula.textAll formulas).toList = Statement.spacedOut (formulas.map Formula.text) := by
  induction formulas with
  | nil => rfl
  | cons formula formulas ih => simp [Formula.textAll, ih, Statement.spacedOut]

/-! ## Semantic functions -/

namespace Semantics

variable {sem : Semantics} {name : String} {words : List String}

/-- The name of the function in a grammar. -/
def function : Semantics → String
  | .constant _ => "const"
  | .choice _ => "choice"
  | .identity => "identity"
  | .call _ => "call"
  | .number => "number"

/-- What is printed behind the name. -/
def args : Semantics → List String
  | .constant formula => [formula.text]
  | .choice alternatives => alternatives.map Formula.text
  | .call name => [name]
  | .identity | .number => []

/-- The formulas that the function was given. -/
def constants : Semantics → List Formula
  | .constant formula => [formula]
  | .choice alternatives => alternatives
  | .identity | .call _ | .number => []

/-- Does every value that the function was given stand for itself in print? -/
def PrintsRaw (sem : Semantics) : Prop :=
  ∀ v, Formula.value v ∈ sem.constants → v.PrintsRaw

/-- What the standard functions make of their arguments. -/
theorem cases_of_resolve (h : Registry.standard.resolve name words = .ok sem) :
    (∃ arg, words = [arg] ∧ sem = .constant (Registry.atom arg)) ∨
    (words ≠ [] ∧ sem = .choice (words.map Registry.atom)) ∨
    (∃ arg, words = [arg] ∧ sem = .call arg) ∨ sem = .identity ∨ sem = .number := by
  unfold Registry.resolve at h
  split at h
  · rename_i build hbuild
    obtain ⟨before, after, hstandard, -⟩ := List.lookup_eq_some_iff.1 hbuild
    have hmem : (name, build) ∈ Registry.standard := by simp [hstandard]
    simp only [Registry.standard, List.mem_cons, Prod.mk.injEq, List.not_mem_nil, or_false] at hmem
    rcases hmem with ⟨-, rfl⟩ | ⟨-, rfl⟩ | ⟨-, rfl⟩ | ⟨-, rfl⟩ | ⟨-, rfl⟩
    · dsimp only at h
      split at h <;> cases h
      exact Or.inl ⟨_, rfl, rfl⟩
    · dsimp only at h
      split at h <;> cases h
      rename_i hne
      exact Or.inr (Or.inl ⟨hne, rfl⟩)
    · unfold Registry.plain at h
      split at h <;> cases h
      exact Or.inr (Or.inr (Or.inr (Or.inl rfl)))
    · dsimp only at h
      split at h <;> cases h
      exact Or.inr (Or.inr (Or.inl ⟨_, rfl, rfl⟩))
    · unfold Registry.plain at h
      split at h <;> cases h
      exact Or.inr (Or.inr (Or.inr (Or.inr rfl)))
  · cases h

theorem resolve_choice {words : List String} (hne : words ≠ []) :
    Registry.standard.resolve "choice" words = .ok (.choice (words.map Registry.atom)) := by
  cases words with
  | nil => exact absurd rfl hne
  | cons => rfl

/-- A function that was read is printed in words that are read as arguments and that it makes the
same of. -/
theorem resolve_printed (h : Registry.standard.resolve name words = .ok sem)
    (hw : ∀ word ∈ words, IsArg word ∨ IsUnclosed word) (hraw : sem.PrintsRaw) :
    Registry.standard.resolve sem.function sem.args = .ok sem ∧ Statement.ArgsEndLine sem.args := by
  rcases cases_of_resolve h with ⟨arg, rfl, rfl⟩ | ⟨hne, rfl⟩ | ⟨arg, rfl, rfl⟩ | rfl | rfl
  · obtain ⟨hword, hsame⟩ := Value.ofAtom_text_ofAtom (hw arg List.mem_cons_self)
      (hraw _ List.mem_cons_self)
    refine ⟨?_, Or.inl fun word hmem => ?_⟩
    · change Except.ok (Semantics.constant (Registry.atom (Value.ofAtom arg).text)) = _
      rw [Registry.atom, hsame, Registry.atom]
    · rw [List.mem_singleton.1 hmem]
      exact hword
  · have hback : ∀ word ∈ words, IsArg (Value.ofAtom word).text ∧
        Value.ofAtom (Value.ofAtom word).text = Value.ofAtom word := fun word hmem =>
      Value.ofAtom_text_ofAtom (hw word hmem) (hraw _ (List.mem_map_of_mem hmem))
    have hargs : (Semantics.choice (words.map Registry.atom)).args =
        words.map fun word => (Value.ofAtom word).text := by
      rw [args, List.map_map]
      rfl
    rw [hargs]
    refine ⟨?_, Or.inl fun arg hmem => ?_⟩
    · rw [function, resolve_choice (by simpa using hne), List.map_map]
      refine congrArg (Except.ok ∘ Semantics.choice) (List.map_congr_left fun word hmem => ?_)
      rw [Function.comp_apply, Registry.atom, (hback word hmem).2, Registry.atom]
    · obtain ⟨word, hword, rfl⟩ := List.mem_map.1 hmem
      exact (hback word hword).1
  · refine ⟨rfl, ?_⟩
    rcases hw arg List.mem_cons_self with hword | hword
    · exact Or.inl (by simp [args, hword])
    · exact Or.inr ⟨arg, rfl, hword⟩
  · exact ⟨rfl, Or.inl nofun⟩
  · exact ⟨rfl, Or.inl nofun⟩

theorem isFunction_function (sem : Semantics) : Statement.IsFunction sem.function := by
  have hletters : ∀ {c : Char} {cs : List Char}, (∀ letter ∈ c :: cs, letter.isAlpha = true) →
      Statement.IsFunction (String.ofList (c :: cs)) := fun hall => by
    refine ⟨_, _, String.toList_ofList, Or.inl (hall _ List.mem_cons_self), fun letter hmem => ?_⟩
    simp [Char.isAlphanum, hall letter (List.mem_cons_of_mem _ hmem)]
  cases sem with
  | constant => exact @hletters 'c' "onst".toList (List.all_eq_true.1 rfl)
  | choice => exact @hletters 'c' "hoice".toList (List.all_eq_true.1 rfl)
  | identity => exact @hletters 'i' "dentity".toList (List.all_eq_true.1 rfl)
  | call => exact @hletters 'c' "all".toList (List.all_eq_true.1 rfl)
  | number => exact @hletters 'n' "umber".toList (List.all_eq_true.1 rfl)

theorem toList_text (sem : Semantics) :
    sem.text.toList = sem.function.toList ++ Statement.spacedOut sem.args := by
  cases sem with
  | choice alternatives => simp [text, function, args, Formula.toList_textAll]
  | _ => simp [text, function, args, Statement.spacedOut]

end Semantics

end GuidedChart
