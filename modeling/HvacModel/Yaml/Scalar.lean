import HvacModel.Yaml.Node
import HvacModel.Yaml.Tag
import HvacModel.Decimal.Text

/-! # The values of scalars

A plain scalar without a tag is what its text looks like: nothing, a boolean, an integer, a double
or else a string.  Integers are decimal or carry `0x`, `0o` or `0b`; digits after a leading zero
are a string.  An integer beyond 64 bits is refused, one beyond 128 bits is read as a double.
A standard tag asks for one kind; every other scalar is a string. -/

namespace HvacModel.Yaml.Scalar

open Decimal (isDigit)

def isNull (text : String) : Bool :=
  text = "null" || text = "Null" || text = "NULL" || text = "~"

def bool? (text : String) : Option Bool :=
  if text = "true" || text = "True" || text = "TRUE" then some true
  else if text = "false" || text = "False" || text = "FALSE" then some false
  else none

/-! ### Integers -/

/-- The value of a digit in a base up to sixteen. -/
def digit? (base : Nat) (c : Char) : Option Nat :=
  let value :=
    if isDigit c then c.toNat - '0'.toNat
    else if 'a' ≤ c && c ≤ 'f' then c.toNat - 'a'.toNat + 10
    else if 'A' ≤ c && c ≤ 'F' then c.toNat - 'A'.toNat + 10
    else 16
  if value < base then some value else none

/-- The natural number that digits denote. -/
def natural? (base : Nat) (digits : List Char) : Option Nat :=
  if digits.isEmpty then none
  else digits.foldlM (fun n c => (digit? base c).map (base * n + ·)) 0

/-- Digits with a leading zero before others, after at most one sign. -/
def isPaddedDigits (cs : List Char) : Bool :=
  let digits := match cs with
    | '+' :: rest | '-' :: rest => rest
    | rest => rest
  match digits with
  | '0' :: c :: rest => (c :: rest).all isDigit
  | _ => false

/-- The magnitude of an integer without its sign. -/
def magnitude? : List Char → Option Nat
  | '0' :: 'x' :: rest => natural? 16 rest
  | '0' :: 'o' :: rest => natural? 8 rest
  | '0' :: 'b' :: rest => natural? 2 rest
  | cs => if isPaddedDigits cs then none else natural? 10 cs

/-- An integer of any size. -/
def integer? : List Char → Option Int
  | '-' :: rest => (magnitude? rest).map fun n => -Int.ofNat n
  | '+' :: rest => (magnitude? rest).map Int.ofNat
  | rest => (magnitude? rest).map Int.ofNat

/-- Whether an integer fits in so many bits, with or without a sign. -/
def fits (bits : Nat) (i : Int) : Bool :=
  -Int.ofNat (Nat.pow 2 (bits - 1)) ≤ i && i < Int.ofNat (Nat.pow 2 bits)

/-! ### Doubles -/

def isInfinity (text : String) : Bool := text = ".inf" || text = ".Inf" || text = ".INF"

/-- A double, the values that are not finite by their names. -/
def float? (text : String) : Option Float :=
  if isInfinity text || text = "+.inf" || text = "+.Inf" || text = "+.INF" then some (1.0 / 0.0)
  else if text = "-.inf" || text = "-.Inf" || text = "-.INF" then some (-1.0 / 0.0)
  else if text = ".nan" || text = ".NaN" || text = ".NAN" then some (0.0 / 0.0)
  else (Decimal.numeral? text.toList).bind Decimal.Numeral.toFloat?

/-! ### Scalars -/

/-- What a plain scalar is read as. -/
inductive Plain where
  | node (n : Node)
  /-- An integer of more than 64 bits, but not of more than 128. -/
  | wideInteger

/-- The double or the string of a plain scalar that is neither null, a boolean nor an integer. -/
def floatOrString (text : String) : Node :=
  if isPaddedDigits text.toList then .string text
  else match float? text with
    | some x => .number (.float x)
    | none => .string text

/-- What a plain scalar without a tag is read as. -/
def plain (text : String) : Plain :=
  if text.isEmpty || isNull text then .node .null
  else match bool? text, integer? text.toList with
    | some b, _ => .node (.bool b)
    | none, some i =>
      if fits 64 i then .node (.number (.int i))
      else if fits 128 i then .wideInteger
      else .node (floatOrString text)
    | none, none => .node (floatOrString text)

/-- The node of a plain scalar without a tag. -/
def plain? (text : String) : Option Node :=
  match plain text with
  | .node n => some n
  | .wideInteger => none

/-- The integer that a scalar under the integer tag denotes. -/
def taggedInteger? (text : String) : Option Node :=
  (integer? text.toList).bind fun i => if fits 64 i then some (.number (.int i)) else none

/-- The node of a scalar, given its tag in full. -/
def node? (tag : Option Tag) (text : String) (isPlain : Bool) : Option Node :=
  match tag with
  | none => if isPlain then plain? text else some (.string text)
  | some tag =>
    if tag = .standard "bool" then (bool? text).map .bool
    else if tag = .standard "int" then taggedInteger? text
    else if tag = .standard "float" then (float? text).map fun x => .number (.float x)
    else if tag = .standard "null" then if isNull text then some .null else none
    else some (.string text)

end HvacModel.Yaml.Scalar
