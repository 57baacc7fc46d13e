import HostScript.Numeral.Integer

/-!
# Reading floats

The grammar of a float: an optional sign, then `inf`, `infinity` or `nan` in any case, or digits
with at most one point among them and at least one digit, and an optional exponent. The value is
rounded to the nearest double, to infinity if it is too large.
-/

namespace HostScript.Numeral

def spanDigits (cs : List Char) : List Char × List Char :=
  cs.span Char.isDigit

def digitsValue (cs : List Char) : Nat :=
  (nat? cs).getD 0

/-- The exponent that ends a float; a text that ends here has the exponent zero. -/
def exponent? : List Char → Option Int
  | [] => some 0
  | c :: cs => if c = 'e' || c = 'E' then int? cs else none

/-- The digits before and after the point, and the rest of the text; none if both are empty. -/
def significand? (cs : List Char) : Option (List Char × List Char × List Char) :=
  let (whole, rest) := spanDigits cs
  let (decimals, rest) :=
    match rest with
    | '.' :: rest => spanDigits rest
    | _ => ([], rest)
  if whole.isEmpty && decimals.isEmpty then none else some (whole, decimals, rest)

/-- The double nearest to `digits * 10 ^ exponent`. A number past the largest double, or below half
the smallest one, is decided by its size alone. -/
def nearestFloat (digits : Nat) (exponent : Int) : Float :=
  let size := ((Nat.toDigits 10 digits).length : Int) + exponent
  if digits = 0 then 0.0
  else if 400 < size then 1.0 / 0.0
  else if size < -400 then 0.0
  else Float.ofScientific digits (decide (exponent < 0)) exponent.natAbs

def magnitude? (cs : List Char) : Option Float :=
  match String.ofList (cs.map Char.toLower) with
  | "inf" | "infinity" => some (1.0 / 0.0)
  | "nan" => some (0.0 / 0.0)
  | _ => do
    let (whole, decimals, rest) ← significand? cs
    let exponent ← exponent? rest
    return nearestFloat (digitsValue (whole ++ decimals)) (exponent - decimals.length)

def float? (s : String) : Option Float :=
  match s.toList with
  | '+' :: cs => magnitude? cs
  | '-' :: cs => (magnitude? cs).map (- ·)
  | cs => magnitude? cs

end HostScript.Numeral
