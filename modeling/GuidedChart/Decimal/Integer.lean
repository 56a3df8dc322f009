/-!
# Decimal integers

Integers are written with a minus sign where needed and without leading zeros. Reading is more
generous: a sign of either kind and any number of leading zeros. Main statement: what is written
reads back (`readInt?_intText`).
-/

namespace GuidedChart.Decimal

def natText (n : Nat) : String :=
  String.ofList (Nat.toDigits 10 n)

/-- The digits of an integer, after a minus sign if it is negative. -/
def intText (n : Int) : String :=
  if n < 0 then "-" ++ natText n.natAbs else natText n.natAbs

/-- A natural number: one decimal digit or more, and nothing else. -/
def readNat? (cs : List Char) : Option Nat :=
  if !cs.isEmpty && cs.all Char.isDigit then some (Nat.ofDigitChars 10 cs 0) else none

/-- An integer: an optional sign, then one decimal digit or more, and nothing else. -/
def readInt? : List Char → Option Int
  | '-' :: ds => (readNat? ds).map fun n : Nat => -(n : Int)
  | '+' :: ds => (readNat? ds).map fun n : Nat => (n : Int)
  | ds => (readNat? ds).map fun n : Nat => (n : Int)

def fitsWord (n : Int) : Bool :=
  -0x8000000000000000 ≤ n && n < 0x8000000000000000

def word? (n : Int) : Option Int :=
  if fitsWord n then some n else none

def readWord? (cs : List Char) : Option Int :=
  (readInt? cs).bind word?

def unsigned? (n : Nat) : Option Nat :=
  if n < 0x10000000000000000 then some n else none

theorem word?_eq_some_iff {n m : Int} :
    word? n = some m ↔ n = m ∧ -0x8000000000000000 ≤ m ∧ m < 0x8000000000000000 := by
  simp only [word?, fitsWord, Bool.and_eq_true, decide_eq_true_eq, Option.ite_none_right_eq_some,
    Option.some.injEq]
  constructor <;> rintro ⟨h, h'⟩ <;> grind

theorem readNat?_toDigits (n : Nat) : readNat? (Nat.toDigits 10 n) = some n := by
  have h : (Nat.toDigits 10 n).all Char.isDigit = true :=
    List.all_eq_true.2 fun c hc => Nat.isDigit_of_mem_toDigits (by decide) (by decide) hc
  simp [readNat?, h, Nat.toDigits_ne_nil, Nat.ofDigitChars_toDigits]

theorem readInt?_of_digit {c : Char} {ds : List Char} (h : c.isDigit = true) :
    readInt? (c :: ds) = (readNat? (c :: ds)).map fun n : Nat => (n : Int) := by
  unfold readInt?
  split
  · rename_i he
    cases he
    exact absurd h (by decide)
  · rename_i he
    cases he
    exact absurd h (by decide)
  · rfl

theorem readInt?_intText (n : Int) : readInt? (intText n).toList = some n := by
  by_cases h : n < 0
  · have hn : -((n.natAbs : Nat) : Int) = n := by omega
    have ht : (intText n).toList = '-' :: Nat.toDigits 10 n.natAbs := by
      simp [intText, h, natText]
    rw [ht]
    change (readNat? (Nat.toDigits 10 n.natAbs)).map (fun m : Nat => -(m : Int)) = some n
    rw [readNat?_toDigits, Option.map_some, hn]
  · have hn : ((n.natAbs : Nat) : Int) = n := by omega
    simp only [intText, h, if_false, natText, String.toList_ofList]
    match hd : Nat.toDigits 10 n.natAbs with
    | [] => exact absurd hd Nat.toDigits_ne_nil
    | c :: ds =>
      have hc : c.isDigit = true :=
        Nat.isDigit_of_mem_toDigits (by decide) (by decide) (hd ▸ List.mem_cons_self)
      rw [readInt?_of_digit hc, ← hd, readNat?_toDigits, Option.map_some, hn]

end GuidedChart.Decimal
