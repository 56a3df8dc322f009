import GuidedChart.Text.Graphic

/-!
# Quoted texts

A text between double quotes. Quotes, backslashes and the four control characters with a letter of
their own are written with a backslash; any other character without a glyph of its own is written
as its code point in braces; everything else stands for itself.
-/

namespace GuidedChart.Text

/-- One character as it stands between the quotes. -/
def escape (c : Char) : List Char :=
  match c with
  | '"' => ['\\', '"']
  | '\\' => ['\\', '\\']
  | '\t' => ['\\', 't']
  | '\n' => ['\\', 'n']
  | '\r' => ['\\', 'r']
  | '\x00' => ['\\', '0']
  | c =>
    if isGraphic c then [c]
    else ['\\', 'u', '\x7b'] ++ Nat.toDigits 16 c.toNat ++ ['\x7d']

def quote (s : String) : String :=
  String.ofList ('"' :: s.toList.flatMap escape ++ ['"'])

/-- A list of texts, each quoted, between square brackets. -/
def quoteAll (texts : List String) : String :=
  "[" ++ String.intercalate ", " (texts.map quote) ++ "]"

end GuidedChart.Text
