import GuidedChart.Error

/-!
# Deadlines

A worker is given until a deadline. If it has not come to an end by then it is asked to stop, and
given a time of grace to hand back what it has; a worker that lets that pass too is abandoned. A
worker is described here by how it comes to an end: by itself, or once it is asked to.
-/

namespace GuidedChart

/-- How a worker comes to an end. -/
inductive Ending (α : Type) where
  | answered (answer : α)
  | brokeDown

/-- How a worker comes to an end, and after how many milliseconds: from its start if it is left
alone, and from the moment it is asked to stop. A worker may never come to an end. -/
structure Worker (α : Type) where
  leftAlone : Option (Nat × Ending α)
  askedToStop : Option (Nat × Ending α)

structure Supervised (α : Type) where
  /-- Absent if the worker was abandoned. -/
  output : Option α
  timedOut : Bool

/-- What an ending gives: an answer, or an error if the worker of this name broke down. -/
def Ending.result (name : String) (timedOut : Bool) : Ending α → Except Error (Supervised α)
  | .answered answer => .ok ⟨some answer, timedOut⟩
  | .brokeDown => .error (.workerBrokeDown name)

/-- The result of a worker under supervision. -/
def Worker.supervise (worker : Worker α) (name : String) (deadline grace : Nat) :
    Except Error (Supervised α) :=
  let afterDeadline := match worker.askedToStop with
    | some (time, ending) =>
      if time ≤ grace then ending.result name true else .ok ⟨none, true⟩
    | none => .ok ⟨none, true⟩
  match worker.leftAlone with
  | some (time, ending) => if time ≤ deadline then ending.result name false else afterDeadline
  | none => afterDeadline

end GuidedChart
