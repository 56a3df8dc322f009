import GuidedChart.Text.Case

/-!
# Lower case of a text

Every character has a lower case of its own but for the capital sigma, which becomes a final sigma
at the end of a word: after a letter with case and not before one, where characters that case
ignores are looked through on both sides.
-/

namespace GuidedChart.Text

def meetsCased (cs : List Char) : Bool :=
  match cs.dropWhile isCaseIgnorable with
  | [] => false
  | c :: _ => isCased c

/-- The lower case of a text, given the characters before it with the nearest one first. -/
def lowerAfter (before : List Char) : List Char → List Char
  | [] => []
  | c :: rest =>
    (if c = 'Σ' then
      [if meetsCased before && !meetsCased rest then 'ς' else 'σ']
    else lowerChar c) ++ lowerAfter (c :: before) rest

def lower (cs : List Char) : List Char :=
  lowerAfter [] cs

end GuidedChart.Text
