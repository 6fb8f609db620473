import HvacModel.Decimal.Nearest

/-! # Reading doubles

The written form of a double that the command line and YAML share: an optional sign, digits with at
most one point among or around them, and an optional exponent.  `numeral?` reads the form, and
`float?` also takes the words for the values that are not finite and rounds a magnitude beyond the
doubles to infinity. -/

namespace HvacModel.Decimal

def isDigit (c : Char) : Bool := '0' ≤ c && c ≤ '9'

/-- A nonempty list of digits as a number. -/
def digits? (cs : List Char) : Option Nat :=
  if !cs.isEmpty && cs.all isDigit then some (natOfDigits cs) else none

/-- An integer with an optional sign. -/
def signed? : List Char → Option Int
  | '-' :: digits => (digits? digits).map fun n => -Int.ofNat n
  | '+' :: digits => (digits? digits).map Int.ofNat
  | digits => (digits? digits).map Int.ofNat

/-- The exponent at the end of a numeral, zero where none is written. -/
def exponent? : List Char → Option Int
  | [] => some 0
  | e :: rest => if e = 'e' ∨ e = 'E' then signed? rest else none

/-- The digits after the point at the front, none without a point, and the rest. -/
def fractionPart : List Char → List Char × List Char
  | '.' :: rest => (rest.takeWhile isDigit, rest.dropWhile isDigit)
  | rest => ([], rest)

/-- A numeral without its sign. -/
def unsigned? (negative : Bool) (cs : List Char) : Option Numeral :=
  let whole := cs.takeWhile isDigit
  let (fraction, rest) := fractionPart (cs.dropWhile isDigit)
  if whole.isEmpty && fraction.isEmpty then none
  else (exponent? rest).map fun exponent => ⟨negative, whole, fraction, exponent⟩

/-- A numeral. -/
def numeral? : List Char → Option Numeral
  | '-' :: rest => unsigned? true rest
  | '+' :: rest => unsigned? false rest
  | rest => unsigned? false rest

/-- The double of the greatest magnitude with a sign. -/
def infinity (negative : Bool) : Float := signed negative infinityBits

/-- The value of a word without its sign. -/
def word? (negative : Bool) (word : String) : Option Float :=
  if word = "inf" || word = "infinity" then some (infinity negative)
  else if word = "nan" then some (0.0 / 0.0)
  else none

/-- A double as a text: a word for a value that is not finite, in any case, or a numeral. -/
def float? (text : String) : Option Float :=
  let word := match text.toLower.toList with
    | '-' :: rest => word? true (String.ofList rest)
    | '+' :: rest => word? false (String.ofList rest)
    | rest => word? false (String.ofList rest)
  word.or ((numeral? text.toList).map fun n => n.toFloat?.getD (infinity n.negative))

end HvacModel.Decimal
