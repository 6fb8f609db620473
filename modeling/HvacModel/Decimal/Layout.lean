import HvacModel.Decimal.Shortest

/-! # Decimal text of doubles

`Layout.render` writes a double with the digits of `Binary.shortest`.  A `Layout` holds what a
format decides about them: which of two equally near decimals is taken, between which powers of ten
the number stands without an exponent, whether a whole number keeps its `.0`, whether a positive
exponent has a sign, and the words for the values that are not finite.

* `Layout.json` is the layout of JSON text,
* `Layout.yaml` is the layout of YAML text,
* `Layout.plain` is the layout of messages, which never has an exponent and takes the greater of two
  equally near decimals, where the others take the even one. -/

namespace HvacModel.Decimal

/-- What a text format decides about the decimal text of a double. -/
structure Layout where
  /-- Which of two equally near decimals is taken. -/
  tie : Tie
  /-- The exponents `e` of `0.d₁d₂… · 10 ^ e` that are written without an exponent part. -/
  positional : Int → Bool
  /-- The text after a whole number without an exponent. -/
  wholeSuffix : String
  /-- The sign of a positive exponent. -/
  exponentPlus : String
  infinity : String
  negativeInfinity : String
  notANumber : String

/-- At least one digit on both sides of the point from `1e-5` to below `1e16`. -/
def Layout.json : Layout where
  tie := .toEven
  positional e := decide (-5 < e ∧ e ≤ 16)
  wholeSuffix := ".0"
  exponentPlus := "+"
  infinity := "null"
  negativeInfinity := "null"
  notANumber := "null"

/-- As in JSON text, with no sign on a positive exponent. -/
def Layout.yaml : Layout where
  tie := .toEven
  positional e := decide (-5 < e ∧ e ≤ 16)
  wholeSuffix := ".0"
  exponentPlus := ""
  infinity := ".inf"
  negativeInfinity := "-.inf"
  notANumber := ".nan"

/-- Never an exponent, a whole number without a point, and a tie goes up. -/
def Layout.plain : Layout where
  tie := .up
  positional _ := true
  wholeSuffix := ""
  exponentPlus := ""
  infinity := "inf"
  negativeInfinity := "-inf"
  notANumber := "NaN"

/-- `n` zeros. -/
def zeros (n : Nat) : List Char := List.replicate n '0'

/-- The digits of a natural number, most significant first. -/
def digitsOf (n : Nat) : List Char := Nat.toDigits 10 n

/-- Digits with the point after the first `point` of them, filled up with zeros. -/
def positionalText (layout : Layout) (digits : List Char) (point : Int) : List Char :=
  match point with
  | .ofNat p =>
    if p = 0 then '0' :: '.' :: digits
    else if digits.length ≤ p then
      digits ++ zeros (p - digits.length) ++ layout.wholeSuffix.toList
    else digits.take p ++ '.' :: digits.drop p
  | .negSucc p => '0' :: '.' :: zeros (p + 1) ++ digits

/-- One digit before the point, the rest after it, and the exponent. -/
def exponentText (layout : Layout) (digits : List Char) (point : Int) : List Char :=
  let mantissa := match digits with
    | d :: d' :: rest => d :: '.' :: d' :: rest
    | short => short
  let e := point - 1
  let sign := if e < 0 then ['-'] else layout.exponentPlus.toList
  mantissa ++ 'e' :: sign ++ digitsOf e.natAbs

/-- The text of a positive decimal. -/
def Layout.text (layout : Layout) (s : Scientific) : List Char :=
  let digits := digitsOf s.digits
  let point : Int := Int.ofNat digits.length + s.exponent
  if layout.positional point then positionalText layout digits point
  else exponentText layout digits point

/-- The text of a double. -/
def Layout.render (layout : Layout) (x : Float) : String :=
  let bits := x.toBits
  let negative := decide (signBit ≤ bits.toNat)
  let magnitude := bits.toNat % signBit
  if infinityBits ≤ magnitude then
    if infinityBits < magnitude then layout.notANumber
    else if negative then layout.negativeInfinity else layout.infinity
  else
    let text :=
      if magnitude = 0 then '0' :: layout.wholeSuffix.toList
      else layout.text ((Binary.ofBits bits).shortest layout.tie)
    String.ofList (if negative then '-' :: text else text)

end HvacModel.Decimal
