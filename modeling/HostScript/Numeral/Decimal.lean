import HostScript.Numeral.Integer
import HostScript.Numeral.Binary64

/-!
# Floats in decimal

Two ways to write a double. `shortest` finds the fewest digits that read back as the same double,
and of those the nearest; they are laid out positionally or with an exponent. `fixed` rounds the
exact value to a number of places.
-/

namespace HostScript.Numeral

structure Decimal where
  digits : Nat
  exponent : Int
  deriving DecidableEq, Repr

def Decimal.trim : Nat → Decimal → Decimal
  | 0, d => d
  | n + 1, d =>
    if d.digits % 10 = 0 then Decimal.trim n ⟨d.digits / 10, d.exponent + 1⟩ else d

/-- The points of the grid `10 ^ exponent` next to the double `mantissa * 2 ^ binary`, of which
those are kept that read back as it: they lie between the midpoints to its neighbours, a midpoint
itself counting if the mantissa is even. The nearer of two wins, the larger if both are as near.
None if the grid is coarser than the double itself. -/
def onGrid? (mantissa : Nat) (binary exponent : Int) : Option Decimal :=
  -- all distances are counted in quarters of the gap above the double
  let quarter := Nat.pow 2 (binary - 2).toNat * Nat.pow 10 (-exponent).toNat
  let unit := Nat.pow 10 exponent.toNat * Nat.pow 2 (2 - binary).toNat
  let value := 4 * mantissa * quarter
  let narrow := decide (mantissa = leastNormal ∧ leastExponent < binary)
  let low := value - (if narrow then 1 else 2) * quarter
  let high := value + 2 * quarter
  let within (n : Nat) : Bool :=
    if mantissa % 2 = 0 then decide (low ≤ n ∧ n ≤ high) else decide (low < n ∧ n < high)
  let below := value / unit
  let above := below + 1
  if below = 0 then none
  else match within (below * unit), within (above * unit) with
    | true, true =>
      some ⟨if value - below * unit < above * unit - value then below else above, exponent⟩
    | true, false => some ⟨below, exponent⟩
    | false, true => some ⟨above, exponent⟩
    | false, false => none

def searchGrids (mantissa : Nat) (binary : Int) : Nat → Int → Option Decimal
  | 0, _ => none
  | count + 1, exponent =>
    match onGrid? mantissa binary exponent with
    | some d => some d
    | none => searchGrids mantissa binary count (exponent - 1)

def digitCount (n : Nat) : Nat :=
  (Nat.toDigits 10 n).length

def leadingExponent (mantissa : Nat) (binary : Int) : Int :=
  let (above, below) := scaled mantissa binary
  if below ≤ above then (digitCount (above / below) : Int) - 1
  else 1 - (digitCount (below / above) : Int)

/-- The fewest digits that read back as the positive double `mantissa * 2 ^ binary`; seventeen
always do, and the first grid may be too coarse by one or two places. -/
def shortest (mantissa : Nat) (binary : Int) : Decimal :=
  ((searchGrids mantissa binary 20 (leadingExponent mantissa binary)).map (Decimal.trim 20)).getD
    ⟨0, 0⟩

def zeros (n : Nat) : String :=
  String.ofList (List.replicate n '0')

def cutAt (n : Nat) (s : String) : String × String :=
  (String.ofList (s.toList.take n), String.ofList (s.toList.drop n))

def Decimal.positional (d : Decimal) : String :=
  let digits := natText d.digits
  let point := (digits.length : Int) + d.exponent
  if 0 ≤ d.exponent then digits ++ zeros d.exponent.toNat
  else if 0 < point then
    let (whole, decimals) := cutAt point.toNat digits
    whole ++ "." ++ decimals
  else "0." ++ zeros (-point).toNat ++ digits

def Decimal.scientific (d : Decimal) : String :=
  let digits := natText d.digits
  let power := (digits.length : Int) + d.exponent - 1
  let (whole, decimals) := cutAt 1 digits
  whole ++ (if decimals.isEmpty then "" else "." ++ decimals) ++ "e" ++ intText power

def signed (negative : Bool) (s : String) : String :=
  if negative then "-" ++ s else s

/-- The text of a double as a value: the fewest digits, always positional, no decimals on whole
numbers, and a minus sign also on zero. -/
def floatText (x : Float) : String :=
  match Binary64.ofFloat x with
  | .nan => "NaN"
  | .infinite negative => signed negative "inf"
  | .finite negative 0 _ => signed negative "0"
  | .finite negative m e => signed negative (shortest m e).positional

/-- The text of a double as a literal: positional from `0.0001` up to below `10 ^ 16`, where whole
numbers end in `.0`, and with an exponent outside. -/
def literalText (x : Float) : String :=
  match Binary64.ofFloat x with
  | .nan => "NaN"
  | .infinite negative => signed negative "inf"
  | .finite negative 0 _ => signed negative "0.0"
  | .finite negative m e =>
    let d := shortest m e
    let magnitude := x.abs
    signed negative <|
      if 1e-4 ≤ magnitude && magnitude < 1e16 then
        d.positional ++ (if 0 ≤ d.exponent then ".0" else "")
      else d.scientific

/-- The whole number nearest to a quotient, the even one of two as near. -/
def roundDiv (n d : Nat) : Nat :=
  let q := n / d
  let twice := 2 * (n % d)
  if twice < d || (twice = d && q % 2 = 0) then q else q + 1

/-- The text of a double rounded to a number of decimals, at least one. The rounding is of the exact
binary value, a half going to the even digit, and a minus sign stays on what rounds to zero. -/
def fixedText (places : Nat) (x : Float) : String :=
  match Binary64.ofFloat x with
  | .nan => "NaN"
  | .infinite negative => signed negative "inf"
  | .finite negative m e =>
    let (above, below) := scaled (m * Nat.pow 10 places) e
    let n := roundDiv above below
    let decimals := natText (n % Nat.pow 10 places)
    signed negative
      (natText (n / Nat.pow 10 places) ++ "." ++ zeros (places - decimals.length) ++ decimals)

end HostScript.Numeral
