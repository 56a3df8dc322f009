import GuidedChart.Decimal.Integer

/-!
# Reports

What a pass and a whole request report of themselves.
-/

namespace GuidedChart

open Decimal (natText)

structure PassReport where
  cells : Nat := 0
  entries : Nat := 0
  failures : Nat := 0
  derivations : Nat := 0
  applications : Nat := 0
  /-- Applications and lifts of which the first pass knew nothing. -/
  disallowed : Nat := 0
  anchorOverlaps : Nat := 0
  pruned : Nat := 0
  /-- Meanings hidden by the beam of the first pass, or derivations dropped by the beam of the
  second. -/
  beamDropped : Nat := 0
  hitCeiling : Bool := false
  timedOut : Bool := false
  /-- The worker never answered, and its chart is lost. -/
  abandoned : Bool := false
  /-- The time taken, in nanoseconds. -/
  elapsed : Nat := 0
deriving DecidableEq

/-- What was measured in answering one request. -/
structure ParseReport where
  first : Option PassReport := none
  second : PassReport := {}
  backoff : Option PassReport := none
  /-- Root entries of the first pass that answer the target. -/
  targetRoots : Nat := 0
  allowedIngredients : Nat := 0
  candidates : Nat := 0
deriving DecidableEq

/-- A number of units and a fraction of a unit in so many places, without zeros at its end. -/
def unitsText (units fraction places : Nat) : String :=
  let digits := Nat.toDigits 10 fraction
  let padded := List.replicate (places - digits.length) '0' ++ digits
  let significant := (padded.reverse.dropWhile (· = '0')).reverse
  if significant.isEmpty then natText units
  else natText units ++ "." ++ String.ofList significant

/-- A time in the largest of four units of which it has a whole one. -/
def durationText (nanos : Nat) : String :=
  if 1000000000 ≤ nanos then unitsText (nanos / 1000000000) (nanos % 1000000000) 9 ++ "s"
  else if 1000000 ≤ nanos then unitsText (nanos / 1000000) (nanos % 1000000) 6 ++ "ms"
  else if 1000 ≤ nanos then unitsText (nanos / 1000) (nanos % 1000) 3 ++ "µs"
  else natText nanos ++ "ns"

def PassReport.text (report : PassReport) : String :=
  natText report.cells ++ " cells, " ++ natText report.entries ++ " denotations (" ++
    natText report.failures ++ " errors), " ++ natText report.derivations ++ " derivations, " ++
    natText report.applications ++ " applications in " ++ durationText report.elapsed ++
    (if report.hitCeiling then " [chart ceiling]" else "") ++
    (if report.abandoned then " [abandoned]" else if report.timedOut then " [timed out]" else "")

namespace ParseReport

def timedOut (report : ParseReport) : Bool :=
  (report.first.toList ++ [report.second] ++ report.backoff.toList).any (·.timedOut)

def text (report : ParseReport) : String :=
  (match report.first with
    | some first =>
      "first pass: " ++ first.text ++ "\noracle: " ++ natText report.targetRoots ++
        " root entries, " ++ natText report.allowedIngredients ++ " allowed ingredients\n"
    | none => "") ++
    "second pass: " ++ report.second.text ++ "\n" ++
    (match report.backoff with
    | some backoff => "backoff: " ++ backoff.text ++ "\n"
    | none => "") ++
    natText report.candidates ++ " candidates"

end ParseReport

end GuidedChart
