/-!
# Blank characters, words and lines

A text is cut into words at blanks and into lines at line feeds. The texts are lists of
characters here; `String` appears only at the edges.
-/

namespace GuidedChart.Text

/-- A blank is a character with the Unicode property White_Space. -/
def isBlank (c : Char) : Bool :=
  let n := c.toNat
  (0x9 ≤ n && n ≤ 0xD) || n == 0x20 || n == 0x85 || n == 0xA0 || n == 0x1680 ||
    (0x2000 ≤ n && n ≤ 0x200A) || n == 0x2028 || n == 0x2029 || n == 0x202F || n == 0x205F ||
    n == 0x3000

def trimRight (cs : List Char) : List Char :=
  (cs.reverse.dropWhile isBlank).reverse

def trim (cs : List Char) : List Char :=
  trimRight (cs.dropWhile isBlank)

/-- The longest runs of characters that are not blank, from left to right. -/
def words (cs : List Char) : List (List Char) :=
  (cs.splitOnP isBlank).filter (!·.isEmpty)

/-- The text without a carriage return at its end. -/
def dropReturn (cs : List Char) : List Char :=
  if cs.getLast? = some '\r' then cs.dropLast else cs

/-- The lines of a text. Each line feed ends a line, and takes one carriage return before it
along; what stands after the last line feed is a line if it is not empty. -/
def lines (cs : List Char) : List (List Char) :=
  let pieces := cs.splitOnP (· == '\n')
  pieces.dropLast.map dropReturn ++ (pieces.getLast?.toList.filter (!·.isEmpty))

end GuidedChart.Text
