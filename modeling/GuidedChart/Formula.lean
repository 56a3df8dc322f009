import GuidedChart.Value.Basic

/-!
# Formulas

A logical form: a value that stands for itself, or a named function applied to formulas. The text
of a formula is its form in prefix notation with every application in parentheses.
-/

namespace GuidedChart

/-- A logical form. -/
inductive Formula where
  | value (v : Value)
  | call (name : String) (args : List Formula)
deriving Inhabited

namespace Formula

mutual

def decEq : (f g : Formula) → Decidable (f = g)
  | .value v, .value w => decidable_of_iff (v = w) (by simp)
  | .call a as, .call b bs =>
    match decEqList as bs with
    | isTrue h => decidable_of_iff (a = b) (by simp [h])
    | isFalse h => isFalse fun e => h (Formula.call.inj e).2
  | .value _, .call _ _ | .call _ _, .value _ => isFalse nofun

def decEqList : (fs gs : List Formula) → Decidable (fs = gs)
  | [], [] => isTrue rfl
  | [], _ :: _ | _ :: _, [] => isFalse nofun
  | f :: fs, g :: gs =>
    match decEq f g, decEqList fs gs with
    | isTrue h, isTrue hs => isTrue (by rw [h, hs])
    | isFalse h, _ => isFalse fun e => h (List.cons.inj e).1
    | _, isFalse h => isFalse fun e => h (List.cons.inj e).2

end

instance : DecidableEq Formula := decEq

def args : Formula → List Formula
  | .value _ => []
  | .call _ args => args

mutual

/-- The number of values and applications in a formula. -/
def size : Formula → Nat
  | .value _ => 1
  | .call _ args => 1 + sizeAll args

def sizeAll : List Formula → Nat
  | [] => 0
  | f :: fs => size f + sizeAll fs

end

mutual

def text : Formula → String
  | .value v => v.text
  | .call name args => "(" ++ name ++ textAll args ++ ")"

def textAll : List Formula → String
  | [] => ""
  | f :: fs => " " ++ text f ++ textAll fs

end

end Formula

end GuidedChart
