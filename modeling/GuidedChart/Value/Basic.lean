import GuidedChart.Decimal.Integer
import GuidedChart.Text.Quoted

/-!
# Values

What a formula denotes. Numbers are words of 64 bits: every reader and every arithmetic step of
the library stays within them, so the type holds plain integers. Values are compared by their
structure, which makes them usable as keys of a chart.
-/

namespace GuidedChart

open Decimal (intText readWord?)

/-- The result of executing a formula. An entity is an identifier of the world the formulas speak
about. -/
inductive Value where
  | number (n : Int)
  | bool (b : Bool)
  | str (s : String)
  | entity (name : String)
  | list (items : List Value)
deriving Inhabited

namespace Value

mutual

def decEq : (v w : Value) → Decidable (v = w)
  | .number a, .number b => decidable_of_iff (a = b) (by simp)
  | .bool a, .bool b => decidable_of_iff (a = b) (by simp)
  | .str a, .str b => decidable_of_iff (a = b) (by simp)
  | .entity a, .entity b => decidable_of_iff (a = b) (by simp)
  | .list as, .list bs =>
    match decEqList as bs with
    | isTrue h => isTrue (by rw [h])
    | isFalse h => isFalse (by simpa using h)
  | .number _, .bool _ | .number _, .str _ | .number _, .entity _ | .number _, .list _
  | .bool _, .number _ | .bool _, .str _ | .bool _, .entity _ | .bool _, .list _
  | .str _, .number _ | .str _, .bool _ | .str _, .entity _ | .str _, .list _
  | .entity _, .number _ | .entity _, .bool _ | .entity _, .str _ | .entity _, .list _
  | .list _, .number _ | .list _, .bool _ | .list _, .str _ | .list _, .entity _ =>
    isFalse nofun

def decEqList : (vs ws : List Value) → Decidable (vs = ws)
  | [], [] => isTrue rfl
  | [], _ :: _ | _ :: _, [] => isFalse nofun
  | v :: vs, w :: ws =>
    match decEq v w, decEqList vs ws with
    | isTrue h, isTrue hs => isTrue (by rw [h, hs])
    | isFalse h, _ => isFalse fun e => h (List.cons.inj e).1
    | _, isFalse h => isFalse fun e => h (List.cons.inj e).2

end

instance : DecidableEq Value := decEq

def typeName : Value → String
  | .number _ => "number"
  | .bool _ => "bool"
  | .str _ => "string"
  | .entity _ => "entity"
  | .list _ => "list"

def number? : Value → Option Int
  | .number n => some n
  | _ => none

def items? : Value → Option (List Value)
  | .list items => some items
  | _ => none

def isEmptyList : Value → Bool
  | .list [] => true
  | _ => false

mutual

/-- A value as it is printed: strings quoted, lists in parentheses. -/
def text : Value → String
  | .number n => intText n
  | .bool b => if b then "true" else "false"
  | .str s => Text.quote s
  | .entity name => name
  | .list items => "(list" ++ textAll items ++ ")"

/-- Values one after the other, each after a space. -/
def textAll : List Value → String
  | [] => ""
  | v :: vs => " " ++ text v ++ textAll vs

end

/-- A value from an atom of a grammar or a command line: an integer, a truth value, a string in
double quotes, and otherwise an entity. -/
def ofAtom (atom : String) : Value :=
  match readWord? atom.toList with
  | some n => .number n
  | none =>
    if atom = "true" then .bool true
    else if atom = "false" then .bool false
    else match atom.toList with
      | '"' :: rest =>
        if rest.getLast? = some '"' then .str (String.ofList rest.dropLast) else .entity atom
      | _ => .entity atom

def kindRank : Value → Nat
  | .number _ => 0
  | .bool _ => 1
  | .str _ => 2
  | .entity _ => 3
  | .list _ => 4

mutual

/-- The order of values: by kind first, then strings by their code points and lists item by
item. -/
def compare : Value → Value → Ordering
  | .number a, .number b => Ord.compare a b
  | .bool a, .bool b => Ord.compare a b
  | .str a, .str b => Ord.compare a b
  | .entity a, .entity b => Ord.compare a b
  | .list as, .list bs => compareList as bs
  | v, w => Ord.compare v.kindRank w.kindRank

/-- The order of lists of values; a list that ends first comes first. -/
def compareList : List Value → List Value → Ordering
  | [], [] => .eq
  | [], _ :: _ => .lt
  | _ :: _, [] => .gt
  | v :: vs, w :: ws => (compare v w).then (compareList vs ws)

end

instance : Ord Value := ⟨compare⟩

/-- The only item of a list of one, and otherwise the value itself. -/
def unwrap : Value → Value
  | .list [v] => v
  | v => v

/-- Does a predicted value answer the target? It does when both are equal, or equal after a list
of one item is taken for its item. -/
def Answers (target predicted : Value) : Prop :=
  target = predicted ∨ target.unwrap = predicted.unwrap

instance (target predicted : Value) : Decidable (target.Answers predicted) :=
  inferInstanceAs (Decidable (_ ∨ _))

end Value

end GuidedChart
