import GuidedChart.Decimal.Integer

/-!
# Flat documents in JSON

A flat document is an object or an array whose members are atoms or lists of texts. It is read in
two steps: the text is cut into lexemes, and the lexemes are put together. Numbers are told apart
only into natural numbers and others.
-/

namespace GuidedChart.Json

inductive Lexeme where
  /-- One of the six marks that hold a document together. -/
  | mark (c : Char)
  | text (s : String)
  | natural (n : Nat)
  /-- A number with a sign, a fraction or an exponent. -/
  | otherNumber
  | bool (b : Bool)
  | null
deriving DecidableEq

def hexValue? (c : Char) : Option Nat :=
  if '0' ≤ c ∧ c ≤ '9' then some (c.toNat - '0'.toNat)
  else if 'a' ≤ c ∧ c ≤ 'f' then some (c.toNat - 'a'.toNat + 10)
  else if 'A' ≤ c ∧ c ≤ 'F' then some (c.toNat - 'A'.toNat + 10)
  else none

/-- A unit of sixteen bits in four hexadecimal digits. -/
def hexUnit? (a b c d : Char) : Option Nat := do
  return 4096 * (← hexValue? a) + 256 * (← hexValue? b) + 16 * (← hexValue? c) + (← hexValue? d)

def escaped? : Char → Option Char
  | '"' => some '"'
  | '\\' => some '\\'
  | '/' => some '/'
  | 'b' => some '\x08'
  | 'f' => some '\x0c'
  | 'n' => some '\n'
  | 'r' => some '\r'
  | 't' => some '\t'
  | _ => none

/-- The first character of a text, as it is meant, and the rest. A character beyond the sixteen
bits of one unit is written as a pair of surrogates; a surrogate by itself is refused. -/
def readChar? : List Char → Option (Char × List Char)
  | '\\' :: 'u' :: a :: b :: c :: d :: rest => do
    let unit ← hexUnit? a b c d
    if 0xD800 ≤ unit ∧ unit < 0xDC00 then
      match rest with
      | '\\' :: 'u' :: a :: b :: c :: d :: rest =>
        let low ← hexUnit? a b c d
        if 0xDC00 ≤ low ∧ low < 0xE000 then
          return (Char.ofNat (0x10000 + 0x400 * (unit - 0xD800) + (low - 0xDC00)), rest)
        else none
      | _ => none
    else if 0xDC00 ≤ unit ∧ unit < 0xE000 then none
    else return (Char.ofNat unit, rest)
  | '\\' :: c :: rest => (escaped? c).map (·, rest)
  | c :: rest => if c.toNat < 0x20 ∨ c = '\\' then none else some (c, rest)
  | [] => none

/-- A text up to its closing quote, and what comes behind. -/
def readText? : Nat → List Char → Option (List Char × List Char)
  | 0, _ => none
  | fuel + 1, cs =>
    match cs with
    | '"' :: rest => some ([], rest)
    | cs => do
      let (c, rest) ← readChar? cs
      let (text, rest) ← readText? fuel rest
      return (c :: text, rest)

def afterDigits? (cs : List Char) : Option (List Char) :=
  if (cs.takeWhile Char.isDigit).isEmpty then none else some (cs.dropWhile Char.isDigit)

/-- The rest behind a fraction, if there is one. -/
def afterFraction? : List Char → Option (List Char)
  | '.' :: rest => afterDigits? rest
  | cs => some cs

/-- The rest behind an exponent, if there is one. -/
def afterExponent? : List Char → Option (List Char)
  | c :: rest =>
    if c = 'e' ∨ c = 'E' then
      match rest with
      | '+' :: rest | '-' :: rest => afterDigits? rest
      | rest => afterDigits? rest
    else some (c :: rest)
  | [] => some []

/-- The digits before a fraction: a zero by itself, or digits that do not start with a zero. -/
def readWhole? : List Char → Option (List Char × List Char)
  | '0' :: rest => some (['0'], rest)
  | cs =>
    let digits := cs.takeWhile Char.isDigit
    if digits.isEmpty then none else some (digits, cs.dropWhile Char.isDigit)

/-- A number, and what comes behind. -/
def readNumber? (cs : List Char) : Option (Lexeme × List Char) :=
  match cs with
  | '-' :: cs => do
    let (_, rest) ← readWhole? cs
    return (.otherNumber, ← afterExponent? (← afterFraction? rest))
  | cs => do
    let (digits, afterWhole) ← readWhole? cs
    let rest ← afterExponent? (← afterFraction? afterWhole)
    if rest.length = afterWhole.length then
      return (.natural (Nat.ofDigitChars 10 digits 0), rest)
    else return (.otherNumber, rest)

def isSpace (c : Char) : Bool :=
  c = ' ' || c = '\t' || c = '\n' || c = '\r'

def isMark (c : Char) : Bool :=
  c = '\x7b' || c = '\x7d' || c = '[' || c = ']' || c = ':' || c = ','

/-- The lexeme at the head of the characters, and what comes behind. The fuel is no less than the
number of characters. -/
def readLexeme? (fuel : Nat) : List Char → Option (Lexeme × List Char)
  | '"' :: rest => do
    let (text, rest) ← readText? fuel rest
    return (.text (String.ofList text), rest)
  | 't' :: 'r' :: 'u' :: 'e' :: rest => some (.bool true, rest)
  | 'f' :: 'a' :: 'l' :: 's' :: 'e' :: rest => some (.bool false, rest)
  | 'n' :: 'u' :: 'l' :: 'l' :: rest => some (.null, rest)
  | c :: rest => if isMark c then some (.mark c, rest) else readNumber? (c :: rest)
  | [] => none

def lexemes? : Nat → List Char → Option (List Lexeme)
  | 0, _ => none
  | fuel + 1, cs =>
    match cs.dropWhile isSpace with
    | [] => some []
    | cs => do
      let (lexeme, rest) ← readLexeme? fuel cs
      return lexeme :: (← lexemes? fuel rest)

/-- A member of a flat document. -/
inductive Datum where
  | null
  | bool (b : Bool)
  | natural (n : Nat)
  | texts (items : List String)
deriving DecidableEq

/-- The texts of a list behind its first one, and what comes behind the list. -/
def moreTexts? : List Lexeme → Option (List String × List Lexeme)
  | .mark ']' :: rest => some ([], rest)
  | .mark ',' :: .text s :: rest => do
    let (items, rest) ← moreTexts? rest
    return (s :: items, rest)
  | _ => none

def readDatum? : List Lexeme → Option (Datum × List Lexeme)
  | .null :: rest => some (.null, rest)
  | .bool b :: rest => some (.bool b, rest)
  | .natural n :: rest => some (.natural n, rest)
  | .mark '[' :: .mark ']' :: rest => some (.texts [], rest)
  | .mark '[' :: .text s :: rest => do
    let (items, rest) ← moreTexts? rest
    return (.texts (s :: items), rest)
  | _ => none

/-- A flat document. -/
inductive Document where
  | object (members : List (String × Datum))
  | array (members : List Datum)

/-- The members of an object, up to the end of the document. -/
def members? : Nat → List Lexeme → Option (List (String × Datum))
  | fuel + 1, .text name :: .mark ':' :: rest => do
    let (datum, rest) ← readDatum? rest
    match rest with
    | [.mark '\x7d'] => return [(name, datum)]
    | .mark ',' :: rest => return (name, datum) :: (← members? fuel rest)
    | _ => none
  | _, _ => none

/-- The members of an array, up to the end of the document. -/
def elements? : Nat → List Lexeme → Option (List Datum)
  | 0, _ => none
  | fuel + 1, lexemes => do
    let (datum, rest) ← readDatum? lexemes
    match rest with
    | [.mark ']'] => return [datum]
    | .mark ',' :: rest => return datum :: (← elements? fuel rest)
    | _ => none

def document? (text : String) : Option Document := do
  let cs := text.toList
  match ← lexemes? (cs.length + 1) cs with
  | [.mark '\x7b', .mark '\x7d'] => return .object []
  | .mark '\x7b' :: rest => return .object (← members? rest.length rest)
  | [.mark '[', .mark ']'] => return .array []
  | .mark '[' :: rest => return .array (← elements? rest.length rest)
  | _ => none

end GuidedChart.Json
