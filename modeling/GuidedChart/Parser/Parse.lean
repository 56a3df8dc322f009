import GuidedChart.Construction.Build
import GuidedChart.Provenance
import GuidedChart.Shuffle.Basic

/-!
# Parsing an example

A request runs through up to three passes. If the target is known and wanted, the first pass looks
for the root entries that answer it, and the second pass is kept to what they came about by.
Without a target the second pass is free. A backoff pass, if the options ask for one, parses freely
from nothing, and its candidates are mixed in.

Each pass runs under a deadline. What becomes of it there is not computed but given: it ends in
time, or it is cancelled at some time of its clock, or it is lost.
-/

namespace GuidedChart

/-- What becomes of a pass under its deadline. -/
inductive Fate where
  | inTime
  /-- Cancelled at this time of its clock, it hands back what it has. -/
  | cutShort (time : Nat)
  /-- It never answers. -/
  | lost
deriving DecidableEq, Repr

/-- The fates of the passes of a request. -/
structure Fates where
  first : Fate := .inTime
  second : Fate := .inTime
  backoff : Fate := .inTime

structure ParseResult where
  /-- The root derivations of the second pass and of the backoff pass. -/
  candidates : List Derivation
  /-- The pass the request has come to. -/
  state : Pass
  report : ParseReport
  /-- What the second pass was kept to; nothing kept it if the first pass did not run. -/
  allowed : Option (Numbering Ingredient)
  second : Option PassOutput

/-- The candidate with the greatest score, the earliest one of equals. -/
def ParseResult.best? (result : ParseResult) : Option Derivation :=
  Derivation.best? result.candidates

/-- Runs a pass to what becomes of it. -/
def Task.runTo (task : Task) (fate : Fate) (table : MeaningTable) :
    Option PassOutput × PassReport :=
  match fate with
  | .inTime =>
    let output := task.build table none
    (some output, output.report)
  | .cutShort time =>
    let output := task.build table (some time)
    let report := { output.report with timedOut := true }
    (some { output with report }, report)
  | .lost => (none, { timedOut := true, abandoned := true })

namespace Parser

/-- The cells of complete parses: the anchored root cell over all tokens, if there are any, and the
floating root cells of every depth. -/
def rootCells (parser : Parser) (numTokens : Nat) : List Cell :=
  let root := parser.grammar.root
  (if 0 < numTokens then [.anchored root 0 numTokens] else []) ++
    (List.range (parser.config.maxDepth + 1)).map (.floating root)

/-- The derivations of complete parses. -/
def rootDerivations (parser : Parser) (output : PassOutput) (numTokens : Nat) :
    List Derivation :=
  (parser.rootCells numTokens).flatMap output.chart.derivations

def answers (table : MeaningTable) (target : Value) (meaning : MeaningId) : Bool :=
  match (table.key? meaning).bind Meaning.value? with
  | some v => target.Answers v
  | none => false

def targetRoots (parser : Parser) (output : PassOutput) (numTokens : Nat) (target : Value) :
    List BackPointer :=
  (parser.rootCells numTokens).flatMap fun cell =>
    ((output.chart.entries cell).map (·.key)).filter fun key =>
      answers output.table target key.meaning

/-- Does the first pass run for an example? It needs a target, and a reason: expected counts that
are wanted, or an option that asks for it. -/
def runsFirst (parser : Parser) (ex : Example) (expectedCounts : Bool) : Bool :=
  !parser.config.ignoreFirstPass && ex.target.isSome && (expectedCounts || parser.config.cheat)

structure Guidance where
  /-- The numbered meanings, which the second pass takes over. -/
  table : MeaningTable
  allowed : Numbering Ingredient
  roots : Nat
  report : PassReport

/-- Runs the first pass and looks up how the root entries that answer the target came about. -/
def lookForTarget (parser : Parser) (ex : Example) (target : Value) (fate : Fate) :
    Except Error Guidance := do
  let task : Task := ⟨parser, ex.tokens, .first, none⟩
  match task.runTo fate .empty with
  | (none, report) => return ⟨.empty, .empty, 0, report⟩
  | (some output, report) =>
    let roots := parser.targetRoots output ex.tokens.length target
    let allowed ← (output.chart.provenance roots).mapError Error.ofCycle
    return ⟨output.table, allowed, roots.length, report⟩

/-- The derivations of complete parses that a pass left behind, if it was not lost. -/
def candidatesOf (parser : Parser) (output : Option PassOutput) (ex : Example) :
    List Derivation :=
  match output with
  | some output => parser.rootDerivations output ex.tokens.length
  | none => []

/-- The guidance for an example, if the first pass runs for it. -/
def guidance? (parser : Parser) (ex : Example) (expectedCounts : Bool) (fate : Fate) :
    Except Error (Option Guidance) :=
  match ex.target with
  | some target =>
    if parser.runsFirst ex expectedCounts then (parser.lookForTarget ex target fate).map some
    else .ok none
  | none => .ok none

/-- Parses an example, with a fate for each pass. -/
def parseWith (parser : Parser) (fates : Fates) (ex : Example) (expectedCounts : Bool) :
    Except Error ParseResult := do
  let guidance? ← parser.guidance? ex expectedCounts fates.first
  let allowed := guidance?.map (·.allowed)
  let table := (guidance?.map (·.table)).getD .empty
  let (second, secondReport) :=
    (⟨parser, ex.tokens, .second, allowed⟩ : Task).runTo fates.second table
  let found := parser.candidatesOf second ex
  let (candidates, backoffReport) :=
    if parser.config.backoff then
      let (backoff, report) :=
        (⟨parser, ex.tokens, .second, none⟩ : Task).runTo fates.backoff .empty
      (shuffle parser.config.shuffleSeed (found ++ parser.candidatesOf backoff ex), some report)
    else (found, none)
  return {
    candidates
    state := .done
    report :=
      { first := guidance?.map (·.report)
        second := secondReport
        backoff := backoffReport
        targetRoots := (guidance?.map (·.roots)).getD 0
        allowedIngredients := (allowed.map Numbering.size).getD 0
        candidates := candidates.length }
    allowed
    second }

def parse (parser : Parser) (ex : Example) (expectedCounts : Bool) : Except Error ParseResult :=
  parser.parseWith {} ex expectedCounts

end Parser

end GuidedChart
