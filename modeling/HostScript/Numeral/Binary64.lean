/-!
# Floats taken apart

A finite double is a whole number of steps of a power of two. Every exact statement about its
decimal text or its remainder is one about that number and that power.
-/

namespace HostScript.Numeral

inductive Binary64 where
  | nan
  | infinite (negative : Bool)
  /-- The number `mantissa * 2 ^ exponent`, below zero if `negative`; zero has a sign too. -/
  | finite (negative : Bool) (mantissa : Nat) (exponent : Int)
  deriving DecidableEq, Repr

def leastNormal : Nat := Nat.pow 2 52

/-- The power of two that the subnormal doubles count in. -/
def leastExponent : Int := -1074

/-- The number that a pattern of 64 bits stands for: a sign, eleven bits of exponent and 52 of
mantissa, whose leading bit is implied unless the exponent is the least. -/
def Binary64.ofBits (bits : Nat) : Binary64 :=
  let negative := bits.testBit 63
  let biased := bits / Nat.pow 2 52 % Nat.pow 2 11
  let fraction := bits % Nat.pow 2 52
  if biased = Nat.pow 2 11 - 1 then
    if fraction = 0 then .infinite negative else .nan
  else if biased = 0 then .finite negative fraction leastExponent
  else .finite negative (leastNormal + fraction) (leastExponent + (biased - 1 : Nat))

def Binary64.ofFloat (x : Float) : Binary64 :=
  .ofBits x.toBits.toNat

/-- The pattern of 64 bits of the number `mantissa * 2 ^ exponent`, for a mantissa below `2 ^ 53`
and an exponent no less than the least. The mantissa is shifted up as far as both allow; its leading
bit, if it then has 53, counts one in the exponent. -/
def bitsOf (mantissa : Nat) (exponent : Int) : Nat :=
  let room := (exponent - leastExponent).toNat
  let shift := min (52 - mantissa.log2) room
  if mantissa = 0 then 0 else (room - shift) * Nat.pow 2 52 + mantissa * Nat.pow 2 shift

def floatOf (negative : Bool) (mantissa : Nat) (exponent : Int) : Float :=
  .ofBits (.ofNat (bitsOf mantissa exponent + if negative then Nat.pow 2 63 else 0))

/-- A quotient as a fraction of two natural numbers: `n * 2 ^ e` over one, or `n` over `2 ^ -e`. -/
def scaled (n : Nat) (e : Int) : Nat × Nat :=
  (n * Nat.pow 2 e.toNat, Nat.pow 2 (-e).toNat)

/-- The whole part of a double, brought into the range of 64 bits; what is not a
number counts zero. -/
def wholePart (x : Float) : Int64 :=
  match Binary64.ofFloat x with
  | .nan => 0
  | .infinite negative => if negative then .minValue else .maxValue
  | .finite negative m e =>
    let (above, below) := scaled m e
    let size := above / below
    .ofIntClamp (if negative then -(size : Int) else size)

def floatOfInt (n : Int64) : Float :=
  .ofInt n.toInt

/-- The remainder of the exact quotient rounded toward zero. It has the sign of the dividend and is
itself a double, so nothing is rounded. -/
def remainder (x y : Float) : Float :=
  match Binary64.ofFloat x, Binary64.ofFloat y with
  | .nan, _ | _, .nan | .infinite _, _ => 0.0 / 0.0
  | .finite .., .infinite _ => x
  | .finite negative m e, .finite _ n f =>
    if n = 0 then 0.0 / 0.0 else
      let step := min e f
      floatOf negative (m * Nat.pow 2 (e - step).toNat % (n * Nat.pow 2 (f - step).toNat)) step

end HostScript.Numeral
