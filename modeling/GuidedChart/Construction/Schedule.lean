import GuidedChart.Grammar.Basic

/-!
# The schedule of a construction

Which rules are applied to which cells, in which order, follows from the grammar, the tokens and
the depth alone. Spans are worked on by increasing length, floating cells by increasing depth; a
block of steps belongs to one length or one depth, and the beam is applied after each block. Every
step reads its source cells once and combines each of their derivations with each.
-/

namespace GuidedChart

/-- A rule to be applied to all derivations of its source cells. -/
structure Step where
  rule : Rule
  target : Cell
  sources : List Cell

namespace Symbol

/-- The cells to be read for a symbol that stands on a span: none for a token that is there, the
cell of a category; a token that is not there cannot be had. -/
def sources? (tokens : List String) (start stop : Nat) : Symbol → Option (List Cell)
  | .terminal token => if stop = start + 1 ∧ tokens[start]? = some token then some [] else none
  | .nonterminal category => some [.anchored category.id start stop]

end Symbol

namespace Grammar

/-- The step of an anchored rule over two symbols, split between them. -/
def splitStep? (tokens : List String) (start mid stop : Nat) (rule : Rule) : Option Step :=
  match rule.rhs with
  | [left, right] => do
    let leftSources ← left.sources? tokens start mid
    let rightSources ← right.sources? tokens mid stop
    return ⟨rule, .anchored rule.lhs.id start stop, leftSources ++ rightSources⟩
  | _ => none

/-- The steps that fill the cells of one span: the rules for a single token, the rules over two
symbols at every split, and the promotions within the span. -/
def spanSteps (grammar : Grammar) (tokens : List String) (start length : Nat) : List Step :=
  let stop := start + length
  let lexical :=
    if length = 1 then
      match tokens[start]? with
      | some token => (grammar.rulesOf (.lexical token)).map fun rule =>
        ⟨rule, .anchored rule.lhs.id start stop, []⟩
      | none => []
    else []
  let binary := grammar.rulesOf .binary
  let splits := (List.range' (start + 1) (length - 1)).flatMap fun mid =>
    binary.filterMap (splitStep? tokens start mid stop)
  let promotions := grammar.promotions.filterMap fun rule =>
    rule.childCategories.head?.map fun child =>
      ⟨rule, .anchored rule.lhs.id start stop, [.anchored child start stop]⟩
  lexical ++ splits ++ promotions

/-- The steps that fill the anchored cells, a block for each length of span. -/
def anchoredSchedule (grammar : Grammar) (tokens : List String) : List (List Step) :=
  (List.range' 1 tokens.length).map fun length =>
    (List.range (tokens.length - length + 1)).flatMap fun start =>
      grammar.spanSteps tokens start length

end Grammar

/-- The pairs of depths from which the children of a binary floating rule are taken. Either the
depths add up to the level below the rule, or the deeper child lies on that level. -/
def childDepths (depth : Nat) (bySize : Bool) : List (Nat × Nat) :=
  match depth with
  | 0 => []
  | below + 1 =>
    if bySize then (List.range (below + 1)).map fun left => (left, below - left)
    else
      (List.range (below + 1)).map (fun right => (below, right)) ++
        (List.range below).map fun left => (left, below)

namespace Grammar

/-- The steps that fill the floating cells of one depth, for the rules that are useful there. -/
def depthSteps (grammar : Grammar) (bySize : Bool) (useful : CategoryId → Nat → Bool)
    (depth : Nat) : List Step :=
  let rulesOf (phase : Phase) := (grammar.rulesOf phase).filter (useful ·.lhs.id depth)
  match depth with
  | 0 => (rulesOf .floatingNullary).map fun rule => ⟨rule, .floating rule.lhs.id 0, []⟩
  | below + 1 =>
    let unary := (rulesOf .floatingUnary).filterMap fun rule =>
      rule.childCategories.head?.map fun child =>
        ⟨rule, .floating rule.lhs.id depth, [.floating child below]⟩
    let binary := (rulesOf .floatingBinary).flatMap fun rule =>
      match rule.childCategories with
      | left :: right :: _ => (childDepths depth bySize).map fun (leftDepth, rightDepth) =>
        ⟨rule, .floating rule.lhs.id depth,
          [.floating left leftDepth, .floating right rightDepth]⟩
      | _ => []
    unary ++ binary

end Grammar

end GuidedChart
