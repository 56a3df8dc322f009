import GuidedChart.CommandLine.Session

/-!
# The command

Reads the files that the arguments name and answers standard input line by line.
-/

open GuidedChart GuidedChart.CommandLine

namespace GuidedChart.CommandLine

def readFile? (path : String) : IO (Option String) :=
  try
    return some (← IO.FS.readFile path)
  catch _ =>
    return none

/-- The text of a file that may not be named. -/
def readNamed? : Option String → IO (Option String)
  | some path => readFile? path
  | none => return none

/-- Answers lines until the input ends, and gives the exit status. -/
partial def converse (session : Session) (input output : IO.FS.Stream) : IO UInt32 := do
  output.putStr Session.prompt
  output.flush
  let line ← input.getLine
  if line.isEmpty then return 0
  match session.respond line with
  | .ok answer =>
    output.putStr answer
    converse session input output
  | .error error =>
    IO.eprintln error.message
    return UInt32.ofNat Failure.failed.code

def program : Program :=
  ⟨"guidedchart", "0.1.0", "Parses utterances read from stdin into formulas, one per line"⟩

end GuidedChart.CommandLine

def main (args : List String) : IO UInt32 := do
  match Invocation.ofArgs args with
  | .help =>
    IO.print program.helpText
    return 0
  | .version =>
    IO.print program.versionText
    return 0
  | .refused =>
    IO.eprint program.helpText
    return UInt32.ofNat Failure.refusedArguments.code
  | .run options =>
    let files : Files :=
      ⟨← readFile? options.grammar, ← readNamed? options.config, ← readNamed? options.params⟩
    match Session.start options files with
    | .ok session => converse session (← IO.getStdin) (← IO.getStdout)
    | .error failure =>
      IO.eprintln "the command failed"
      return UInt32.ofNat failure.code
