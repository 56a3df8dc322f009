import GuidedChart.Formula

/-!
# Execution of formulas

A formula is executed by executing its arguments from left to right and then applying its function.
Functions are a fixed set of arithmetic and list operations. Arithmetic is on words of 64 bits and
fails where a result does not fit; nothing wraps around. Main statements: execution of a value is
the value (`execute_value`), and an application fails with the first failing argument, if there is
one (`execute_call`).
-/

namespace GuidedChart

open Decimal (natText word?)

/-- Why a formula has no value. -/
inductive ExecutionError where
  | notANumber (function : String) (operand : Value)
  | noArguments (function : String)
  | overflow (function : String)
  | divisionByZero
  | notAList (argument : Value)
  /-- The number of operands differs from what the function takes. -/
  | wrongCount (function takes : String) (got : Nat)
  | unknownFunction (function : String)
  /-- A failure reported by the world the formula was executed in. -/
  | reported (text : String)
deriving DecidableEq

namespace ExecutionError

def message : ExecutionError → String
  | .notANumber function operand =>
    function ++ ": expected number, got " ++ operand.typeName ++ " " ++ operand.text
  | .noArguments function => function ++ ": no arguments"
  | .overflow function => function ++ ": arithmetic overflow"
  | .divisionByZero => "/: division by zero"
  | .notAList argument => "count: expected list, got " ++ argument.typeName
  | .wrongCount function takes got =>
    function ++ ": expected " ++ takes ++ ", got " ++ natText got
  | .unknownFunction function => "unknown function " ++ function
  | .reported text => text

end ExecutionError

/-- What became of an execution. -/
abbrev Outcome := Except ExecutionError Value

instance : DecidableEq Outcome := fun a b =>
  match a, b with
  | .ok v, .ok w => decidable_of_iff (v = w) (by simp)
  | .error e, .error f => decidable_of_iff (e = f) (by simp)
  | .ok _, .error _ | .error _, .ok _ => isFalse nofun

def Outcome.value? : Outcome → Option Value
  | .ok v => some v
  | .error _ => none

inductive Operation where
  | add
  | mul
  | sub
  | div
  | max
  | min
deriving DecidableEq, Repr

namespace Operation

def name : Operation → String
  | .add => "+"
  | .mul => "*"
  | .sub => "-"
  | .div => "/"
  | .max => "max"
  | .min => "min"

/-- The operands of an arithmetic function: its arguments, or the items of its only argument if
that is a list. -/
def operands : List Value → List Value
  | [.list items] => items
  | args => args

/-- The integers of the operands, if all of them are numbers; otherwise the first that is none is
to blame. -/
def numbers (function : String) : List Value → Except ExecutionError (List Int)
  | [] => .ok []
  | .number n :: rest => (numbers function rest).map (n :: ·)
  | v :: _ => .error (.notANumber function v)

/-- A result of an arithmetic step, which fails when it does not fit in a word. -/
def inWord (function : String) (result : Int) : Except ExecutionError Int :=
  match word? result with
  | some n => .ok n
  | none => .error (.overflow function)

/-- Combines one number or more from left to right. -/
def combine (function : String) (step : Int → Int → Except ExecutionError Int) :
    List Int → Except ExecutionError Int
  | [] => .error (.noArguments function)
  | n :: ns => ns.foldlM step n

/-- The result of an arithmetic function on numbers. A difference of one number is its negation;
a quotient is rounded toward zero. -/
def onNumbers : Operation → List Int → Except ExecutionError Int
  | .add, ns => combine "+" (fun m n => inWord "+" (m + n)) ns
  | .mul, ns => combine "*" (fun m n => inWord "*" (m * n)) ns
  | .max, ns => combine "max" (fun m n => .ok (if m ≤ n then n else m)) ns
  | .min, ns => combine "min" (fun m n => .ok (if m ≤ n then m else n)) ns
  | .sub, [n] => inWord "-" (-n)
  | .sub, [m, n] => inWord "-" (m - n)
  | .sub, ns => .error (.wrongCount "-" "1 or 2 arguments" ns.length)
  | .div, [m, n] => if n = 0 then .error .divisionByZero else inWord "/" (Int.tdiv m n)
  | .div, ns => .error (.wrongCount "/" "2 arguments" ns.length)

def apply (op : Operation) (args : List Value) : Outcome := do
  let ns ← numbers op.name (operands args)
  return .number (← op.onNumbers ns)

end Operation

inductive Builtin where
  | arithmetic (op : Operation)
  | count
  | list
  | eq
deriving DecidableEq, Repr

namespace Builtin

def name : Builtin → String
  | .arithmetic op => op.name
  | .count => "count"
  | .list => "list"
  | .eq => "="

def all : List Builtin :=
  [.arithmetic .add, .arithmetic .mul, .arithmetic .sub, .arithmetic .div, .arithmetic .max,
    .arithmetic .min, .count, .list, .eq]

def ofName? (name : String) : Option Builtin :=
  all.find? (·.name = name)

theorem ofName?_name (b : Builtin) : ofName? b.name = some b := by
  cases b with
  | arithmetic op => cases op <;> decide
  | _ => decide

def apply : Builtin → List Value → Outcome
  | .arithmetic op, args => op.apply args
  | .count, [.list items] => .ok (.number items.length)
  | .count, [v] => .error (.notAList v)
  | .count, args => .error (.wrongCount "count" "1 argument" args.length)
  | .list, args => .ok (.list args)
  | .eq, [v, w] => .ok (.bool (v = w))
  | .eq, args => .error (.wrongCount "=" "2 arguments" args.length)

end Builtin

namespace Formula

mutual

/-- The outcome of executing a formula. -/
def execute : Formula → Outcome
  | .value v => .ok v
  | .call name args => do
    let values ← executeAll args
    match Builtin.ofName? name with
    | some b => b.apply values
    | none => .error (.unknownFunction name)

def executeAll : List Formula → Except ExecutionError (List Value)
  | [] => .ok []
  | f :: fs => do
    let v ← execute f
    return v :: (← executeAll fs)

end

@[simp]
theorem execute_value (v : Value) : (Formula.value v).execute = .ok v := by
  simp [execute]

theorem execute_call (name : String) (args : List Formula) :
    (Formula.call name args).execute =
      (executeAll args).bind fun values =>
        match Builtin.ofName? name with
        | some b => b.apply values
        | none => .error (.unknownFunction name) := by
  simp only [execute]
  rfl

end Formula

end GuidedChart
