import GuidedChart.Error
import GuidedChart.Text.Blank

/-!
# The text of a grammar

A grammar text is a sequence of statements, one for each rule:

    // comments run to the end of the line
    $Num -> five => const 5;
    floating $ROOT -> $Num $Num => call +;

Between any two parts of a statement there may be blanks and comments. The readers here take a
list of characters and return what they read together with the rest; they know nothing of what the
statements mean. The loops count down the length of the text they start from, since every part
read is at least one character long.
-/

namespace GuidedChart

/-- One rule as it is written. -/
structure Statement where
  floating : Bool
  lhs : String
  rhs : List String
  function : String
  args : List String
deriving DecidableEq

namespace Statement

mutual

/-- The text after the blanks and comments at its start. -/
def skip : List Char → List Char
  | [] => []
  | '/' :: '/' :: rest => skipComment rest
  | c :: rest => if Text.isBlank c then skip rest else c :: rest

/-- The text after the rest of a comment, and after the blanks and comments behind it. -/
def skipComment : List Char → List Char
  | [] => []
  | c :: rest => if c = '\n' then skip rest else skipComment rest

end

/-- The text at hand as an error shows it: up to forty characters of one line. -/
def context (cs : List Char) : String :=
  String.ofList ((cs.take 40).takeWhile (· ≠ '\n'))

def expected (what : String) (cs : List Char) : GrammarError :=
  .expected what (context cs)

/-- The rest of the text after a given start. -/
def after? : List Char → List Char → Option (List Char)
  | [], cs => some cs
  | p :: ps, c :: cs => if p = c then after? ps cs else none
  | _ :: _, [] => none

/-- Characters of the name of a category behind the dollar sign. -/
def isCategoryChar (c : Char) : Bool :=
  c.isAlphanum || c = '_' || c = '-' || c = '.'

def isSymbolChar (c : Char) : Bool :=
  !Text.isBlank c && c ≠ ';' && c ≠ '$'

def isNameStart (c : Char) : Bool :=
  c.isAlpha || c = '_'

def isNameChar (c : Char) : Bool :=
  c.isAlphanum || c = '_' || c = '-'

def isArgChar (c : Char) : Bool :=
  !Text.isBlank c && c ≠ ';'

/-- A category: a dollar sign and a name of one character or more. -/
def readCategory (cs : List Char) : Except GrammarError (String × List Char) :=
  match cs with
  | '$' :: rest =>
    let name := rest.takeWhile isCategoryChar
    if name.isEmpty then .error (expected "category" cs)
    else .ok (String.ofList ('$' :: name), rest.dropWhile isCategoryChar)
  | _ => .error (expected "category" cs)

/-- A symbol of a right-hand side: a run of symbol characters, or one behind a dollar sign. -/
def readSymbol (cs : List Char) : Except GrammarError (String × List Char) :=
  let (dollar, body) := match cs with
    | '$' :: rest => (['$'], rest)
    | _ => ([], cs)
  let run := body.takeWhile isSymbolChar
  if run.isEmpty then .error (expected "right-hand side symbol" cs)
  else .ok (String.ofList (dollar ++ run), body.dropWhile isSymbolChar)

/-- The symbols of a right-hand side up to the double arrow, which is read too. -/
def readSymbols : Nat → List Char → Except GrammarError (List String × List Char)
  | 0, cs => .error (expected "right-hand side symbol" cs)
  | fuel + 1, cs =>
    let cs := skip cs
    match after? ['=', '>'] cs with
    | some rest => .ok ([], rest)
    | none => do
      let (symbol, rest) ← readSymbol cs
      let (symbols, rest) ← readSymbols fuel rest
      return (symbol :: symbols, rest)

def readFunction (cs : List Char) : Except GrammarError (String × List Char) :=
  match cs with
  | c :: rest =>
    if isNameStart c then
      .ok (String.ofList (c :: rest.takeWhile isNameChar), rest.dropWhile isNameChar)
    else .error (expected "semantic function name" cs)
  | [] => .error (expected "semantic function name" cs)

/-- The characters of an argument at the head of the text and the rest: a quoted text if the
closing quote stands on the same line, and otherwise a run of argument characters. -/
def splitArg (cs : List Char) : List Char × List Char :=
  let bare := (cs.takeWhile isArgChar, cs.dropWhile isArgChar)
  match cs with
  | '"' :: rest =>
    let inside := fun c : Char => c ≠ '"' && c ≠ '\n'
    match rest.dropWhile inside with
    | '"' :: tail => ('"' :: rest.takeWhile inside ++ ['"'], tail)
    | _ => bare
  | _ => bare

def readArg (cs : List Char) : Except GrammarError (String × List Char) :=
  let (arg, rest) := splitArg cs
  if arg.isEmpty then .error (expected "semantic function argument" cs)
  else .ok (String.ofList arg, rest)

/-- The arguments up to the semicolon, which is read too. -/
def readArgs (lhs : String) : Nat → List Char → Except GrammarError (List String × List Char)
  | 0, _ => .error (.unterminated lhs)
  | fuel + 1, cs =>
    match skip cs with
    | [] => .error (.unterminated lhs)
    | ';' :: rest => .ok ([], rest)
    | cs => do
      let (arg, rest) ← readArg cs
      let (args, rest) ← readArgs lhs fuel rest
      return (arg :: args, rest)

/-- The rest of the text after the word that marks a floating rule and one blank behind it. -/
def afterFloating? (cs : List Char) : Option (List Char) :=
  match after? "floating".toList cs with
  | some (c :: rest) => if Text.isBlank c then some rest else none
  | _ => none

/-- The statement at the head of the text. -/
def read (cs : List Char) : Except GrammarError (Statement × List Char) := do
  let (floating, cs) := match afterFloating? cs with
    | some rest => (true, rest)
    | none => (false, cs)
  let (lhs, cs) ← readCategory (skip cs)
  let cs := skip cs
  let cs ← match after? ['-', '>'] cs with
    | some rest => .ok rest
    | none => .error (expected "'->'" cs)
  let (rhs, cs) ← readSymbols (cs.length + 1) cs
  let (function, cs) ← readFunction (skip cs)
  let (args, cs) ← readArgs lhs (cs.length + 1) cs
  return (⟨floating, lhs, rhs, function, args⟩, cs)

/-- The statements of a text, up to the first one that is broken, if there is one. -/
def readUpTo : Nat → List Char → List Statement × Option GrammarError
  | 0, _ => ([], none)
  | fuel + 1, cs =>
    match skip cs with
    | [] => ([], none)
    | cs =>
      match read cs with
      | .error error => ([], some error)
      | .ok (statement, rest) =>
        let (statements, error?) := readUpTo fuel rest
        (statement :: statements, error?)

/-- The statements of a text before the first broken one, and the error on that one. -/
def readAll (text : String) : List Statement × Option GrammarError :=
  readUpTo (text.toList.length + 1) text.toList

end Statement

end GuidedChart
