import HvacModel.Decimal.Nearest

/-! # Decimals in double arithmetic

`Numeral.scaled?` reads a numeral with few operations on doubles: its leading digits, as many as
stay below `2 ^ 64`, are one double, which is then multiplied or divided by a power of ten.  Each
of these steps rounds, so the result is the nearest double where all of them are exact, and a few
units beside it elsewhere.  `none` stands for a product that is no finite double.

* `appendDigits` takes the leading digits and leaves the others,
* `Numeral.significand` and `Numeral.scale` are the number of the digits taken and the power of ten
  that belongs to it,
* `scaleBy?` is the product of a double with a power of ten. -/

namespace HvacModel.Decimal

/-- Digits after those of a number while the number stays below `2 ^ 64`, and the digits left. -/
def appendDigits (n : Nat) : List Char → Nat × List Char
  | [] => (n, [])
  | c :: rest =>
    let next := 10 * n + (c.toNat - '0'.toNat)
    if next < UInt64.size then appendDigits next rest else (n, c :: rest)

namespace Numeral

/-- The leading digits before the point as a number, and those left. -/
def leadingWhole (n : Numeral) : Nat × List Char := appendDigits 0 n.whole

/-- The leading digits on both sides of the point as a number, and those left after the point. -/
def leadingDigits (n : Numeral) : Nat × List Char := appendDigits n.leadingWhole.1 n.fraction

/-- The number of the leading digits. -/
def significand (n : Numeral) : Nat := n.leadingDigits.1

/-- The power of ten that the significand is scaled by: one more for every digit left before the
point, one less for every digit taken after it. -/
def scale (n : Numeral) : Int :=
  n.exponent + Int.ofNat n.leadingWhole.2.length
    - Int.ofNat (n.fraction.length - n.leadingDigits.2.length)

end Numeral

/-- The greatest power of ten among the doubles. -/
def maxPower : Nat := 308

/-- The double nearest to a power of ten. -/
def powerOfTen (e : Nat) : Float := ofInt (Int.ofNat (Nat.pow 10 e))

/-- A double times a power of ten; a power below all doubles is divided by in several steps. -/
def scaleBy? (x : Float) (e : Int) : Option Float :=
  if 0 ≤ e then
    if e.natAbs ≤ maxPower then
      let y := x * powerOfTen e.natAbs
      if y.isFinite then some y else none
    else if x == 0.0 then some x else none
  else if e.natAbs ≤ maxPower then some (x / powerOfTen e.natAbs)
  else if x == 0.0 then some x
  else scaleBy? (x / powerOfTen maxPower) (e + maxPower)
termination_by e.natAbs
decreasing_by simp only [maxPower] at *; omega

/-- The double that a numeral denotes in double arithmetic. -/
def Numeral.scaled? (n : Numeral) : Option Float :=
  (scaleBy? (ofInt (Int.ofNat n.significand)) n.scale).map fun x => if n.negative then -x else x

end HvacModel.Decimal
