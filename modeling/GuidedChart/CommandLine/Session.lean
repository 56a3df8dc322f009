import GuidedChart.CommandLine.Options
import GuidedChart.Config.Reader
import GuidedChart.Grammar.Reader
import GuidedChart.Parser.Parse
import GuidedChart.Tree

/-!
# A session on the command line

A session reads utterances line by line. Each line is answered with the candidates and their trees,
after the chart if that was asked for; blank lines are passed over. Before every line, and before
the end of the input too, there is a prompt.
-/

namespace GuidedChart.CommandLine

open Decimal (natText)

/-- A parser and what is to be shown of its answers. -/
structure Session where
  parser : Parser
  target : Option Value
  train : Bool
  chart : Bool

/-- The exit status of the command: of arguments in error, of a target that is missing, and of
any other error. -/
inductive Failure where
  | refusedArguments
  | missingTarget
  | failed
deriving DecidableEq

def Failure.code : Failure → Nat
  | .refusedArguments => 2
  | .missingTarget => 255
  | .failed => 1

/-- The configuration of a text, with the options of the command set. -/
def configure? (options : Options) (text : Option String) : Option Config := do
  let config ← match text with
    | some text => Config.ofText? text
    | none => some {}
  return { config with
    maxDepth := options.maxDepth.getD config.maxDepth
    beamSize := options.beamSize.getD config.beamSize
    backoff := options.backoff || config.backoff }

/-- The texts of the files that options name; a file that cannot be read has none. -/
structure Files where
  grammar : Option String
  config : Option String
  params : Option String

namespace Session

def required? (path text : Option String) : Except Failure (Option String) :=
  match path, text with
  | none, _ => .ok none
  | some _, some text => .ok (some text)
  | some _, none => .error .failed

/-- The session that the options and the files they name make up. -/
def start (options : Options) (files : Files) : Except Failure Session := do
  let fail {α ε : Type} (result : Except ε α) : Except Failure α :=
    result.mapError fun _ => .failed
  let target := options.target.map Value.ofAtom
  if options.train && target.isNone then
    throw .missingTarget
  let configText ← required? options.config files.config
  let some config := configure? options configText | throw .failed
  let some grammarText := files.grammar | throw .failed
  let grammar ← fail (Grammar.ofText grammarText)
  let weights ← match ← required? options.params files.params with
    | some text => fail (Weights.ofText text)
    | none => pure []
  let parser ← fail (Parser.ofConfig grammar config weights.scorer)
  return ⟨parser, target, options.train, options.chart⟩

/-- The ending of a noun that there are so many of. -/
def plural (n : Nat) : String :=
  if n = 1 then "" else "s"

def sortCells (cells : List Cell) : List Cell :=
  cells.mergeSort fun a b => (a.compare b).isLE

def entryText (session : Session) (table : MeaningTable) (record : Record) : String :=
  let cell := record.key.cell
  let name := (session.parser.grammar.categoryName? cell.category).getD ""
  let meaning := ((table.key? record.key.meaning).map Meaning.text).getD ""
  let count := record.derivations.size
  "  " ++ cell.textWith name ++ " = " ++ meaning ++ " (" ++ natText count ++ " derivation" ++
    plural count ++ ")\n"

def chartText (session : Session) (second : Option PassOutput) : String :=
  match second with
  | none => "chart: abandoned\n\n"
  | some output =>
    let entries := (sortCells output.chart.cells).flatMap output.chart.entries
    "chart:\n" ++ String.join (entries.map (session.entryText output.table)) ++ "\n"

def isCorrect (session : Session) (candidate : Derivation) : Bool :=
  match session.target, candidate.value? with
  | some target, some v => target.Answers v
  | _, _ => false

/-- A candidate with its score and its tree. -/
def candidateText? (session : Session) (candidate : Derivation) : Option String := do
  let tree ← candidate.tree?
  return candidate.formula.text ++ " (score " ++ Decimal.places 3 candidate.score ++ ")" ++
    (if session.isCorrect candidate then " [correct]" else "") ++ "\n" ++ tree.text ++ "\n"

/-- What is printed of a result. -/
def resultText (session : Session) (result : ParseResult) : String :=
  let count := result.candidates.length
  (if session.chart then session.chartText result.second else "") ++
    "Parsed " ++ natText count ++ " candidate" ++ plural count ++ "\n" ++
    String.join (result.candidates.filterMap session.candidateText?)

/-- The answer to a line of input. -/
def respond (session : Session) (line : String) : Except Error String := do
  let sentence := Text.trim line.toList
  if sentence.isEmpty then return ""
  let ex := Example.ofText (String.ofList sentence) session.target
  return session.resultText (← session.parser.parse ex session.train)

def prompt : String :=
  "> "

/-- What is printed over several lines of input, and whether the session came to its end. -/
def transcript (session : Session) : List String → String × Bool
  | [] => (prompt, true)
  | line :: lines =>
    match session.respond line with
    | .error _ => (prompt, false)
    | .ok answer =>
      let (rest, ended) := session.transcript lines
      (prompt ++ answer ++ rest, ended)

end Session

/-- The exit status and the output of the command, given what it says of itself, the texts of files,
its arguments and what is typed in. -/
def run (program : Program) (readFile : String → Option String) (args : List String)
    (input : String) : Nat × String :=
  match Invocation.ofArgs args with
  | .help => (0, program.helpText)
  | .version => (0, program.versionText)
  | .refused => (Failure.refusedArguments.code, "")
  | .run options =>
    let files : Files :=
      ⟨readFile options.grammar, options.config.bind readFile, options.params.bind readFile⟩
    match Session.start options files with
    | .error failure => (failure.code, "")
    | .ok session =>
      let lines := (Text.lines input.toList).map String.ofList
      match session.transcript lines with
      | (output, true) => (0, output)
      | (output, false) => (Failure.failed.code, output)

end GuidedChart.CommandLine
