/-!
# Integers in decimal

Writing an integer in decimal, and reading one back: an optional sign before one or more ASCII
digits, in the range of 64 bits.
-/

namespace HostScript.Numeral

def natText (n : Nat) : String :=
  String.ofList (Nat.toDigits 10 n)

def intText : Int → String
  | .ofNat n => natText n
  | .negSucc n => "-" ++ natText (n + 1)

def digit? (c : Char) : Option Nat :=
  if c.isDigit then some (c.toNat - '0'.toNat) else none

def nat? : List Char → Option Nat
  | [] => none
  | cs => cs.foldlM (fun n c => (digit? c).map (10 * n + ·)) 0

/-- The integer that a run of digits writes, after at most one sign. -/
def int? : List Char → Option Int
  | '+' :: cs => (nat? cs).map fun n => (n : Int)
  | '-' :: cs => (nat? cs).map fun n => -(n : Int)
  | cs => (nat? cs).map fun n => (n : Int)

def fitsInt64 (n : Int) : Bool :=
  decide (Int64.minValue.toInt ≤ n ∧ n ≤ Int64.maxValue.toInt)

def int64? (s : String) : Option Int64 :=
  ((int? s.toList).filter fitsInt64).map Int64.ofInt

end HostScript.Numeral
