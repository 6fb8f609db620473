import HvacModel.Decimal.Shortest

/-! # The double nearest to a decimal

`nearest num den` rounds the positive ratio `num / den` to the nearest double, a tie going to the
even significand, in exact arithmetic.  `Numeral` holds the parts of a written number, and
`Numeral.toFloat?` is the double it denotes: `none` stands for a magnitude beyond the largest
double. -/

namespace HvacModel.Decimal

/-- The quotient rounded to the nearest natural number, a half going to the even one. -/
def roundDiv (num den : Nat) : Nat :=
  let q := num / den
  let r := num % den
  if 2 * r < den then q
  else if den < 2 * r then q + 1
  else if q % 2 = 0 then q else q + 1

/-- The greatest power of two that leaves at least 53 bits in the quotient, but at least the
power of the smallest double. -/
def Ratio.unit (r : Ratio) : Int :=
  let guess : Int := Int.ofNat r.num.log2 - Int.ofNat r.den.log2 - 53
  let unit := if (Ratio.scaled fractionSize 2 (guess + 1)).le r then guess + 1 else guess
  max unit (-1074)

/-- The quotient by a power of two, rounded. -/
def Ratio.roundToUnit (r : Ratio) (unit : Int) : Nat :=
  match unit with
  | .ofNat e => roundDiv r.num (r.den * Nat.pow 2 e)
  | .negSucc e => roundDiv (r.num * Nat.pow 2 (e + 1)) r.den

/-- The bit pattern of the nearest double, `none` where it would be infinite.  A significand that
rounds up to the next power of two carries into the exponent field by itself. -/
def Ratio.nearestBits? (r : Ratio) : Option Nat :=
  let unit := r.unit
  let bits := (unit + 1074).toNat * fractionSize + r.roundToUnit unit
  if bits < infinityBits then some bits else none

/-- A written decimal number: `±whole.fraction · 10 ^ exponent`, its digits as characters. -/
structure Numeral where
  negative : Bool
  whole : List Char
  fraction : List Char
  exponent : Int
deriving DecidableEq, Repr

/-- The natural number that decimal digits denote. -/
def natOfDigits (digits : List Char) : Nat :=
  digits.foldl (fun n c => 10 * n + (c.toNat - '0'.toNat)) 0

/-- The double with the given sign and magnitude bits. -/
def signed (negative : Bool) (bits : Nat) : Float :=
  Float.ofBits (UInt64.ofNat (if negative then signBit + bits else bits))

/-- The double that a numeral denotes.  The decimal magnitude is compared with the range of the
doubles first, so that no power beyond that range is computed. -/
def Numeral.toFloat? (n : Numeral) : Option Float :=
  let significand := (n.whole ++ n.fraction).dropWhile (· == '0')
  let exponent := n.exponent - Int.ofNat n.fraction.length
  let magnitude := Int.ofNat significand.length + exponent
  if significand.isEmpty then some (signed n.negative 0)
  else if magnitude < -330 then some (signed n.negative 0)
  else if 330 < magnitude then none
  else ((Ratio.scaled (natOfDigits significand) 10 exponent).nearestBits?).map (signed n.negative)

/-- The double nearest to an integer. -/
def ofInt (i : Int) : Float :=
  if i = 0 then signed false 0
  else ((Ratio.mk i.natAbs 1).nearestBits?).elim (signed (decide (i < 0)) infinityBits)
    (signed (decide (i < 0)))

end HvacModel.Decimal
