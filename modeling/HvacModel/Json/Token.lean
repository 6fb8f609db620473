import HvacModel.Decimal.Scaling
import HvacModel.Value

/-! # Tokens of JSON text

`Json.tokens?` cuts a text into tokens in one pass over its characters.  The pass carries a
`Mode`: what the characters read so far have started.  Numbers and the three words are first
collected as runs of characters that no punctuation interrupts, and read when the run ends, so
that a run such as `1x` is refused as a whole.

`none` means that the text has no tokens: a malformed run, an unknown escape, a raw control
character or a lone surrogate in a string, or a string without its closing quote. -/

namespace HvacModel.Json

/-- A token: punctuation or a complete scalar. -/
inductive Token where
  | openObject | closeObject | openArray | closeArray | colon | comma
  | scalar (value : Value)

def isDigit (c : Char) : Bool := '0' ≤ c && c ≤ '9'

/-- The value of a hexadecimal digit. -/
def hexDigit? (c : Char) : Option Nat :=
  if isDigit c then some (c.toNat - '0'.toNat)
  else if 'a' ≤ c && c ≤ 'f' then some (c.toNat - 'a'.toNat + 10)
  else if 'A' ≤ c && c ≤ 'F' then some (c.toNat - 'A'.toNat + 10)
  else none

/-! ### Numbers -/

/-- A nonempty run of digits at the front, and the rest. -/
def digits? (cs : List Char) : Option (List Char × List Char) :=
  if (cs.takeWhile isDigit).isEmpty then none
  else some (cs.takeWhile isDigit, cs.dropWhile isDigit)

/-- The digits before the point: a zero alone or no leading zero. -/
def wholePart? (cs : List Char) : Option (List Char × List Char) :=
  match digits? cs with
  | some ('0' :: _ :: _, _) => none
  | other => other

/-- The digits after the point, none without a point. -/
def fractionPart? : List Char → Option (List Char × List Char)
  | '.' :: rest => digits? rest
  | rest => some ([], rest)

/-- The exponent at the end of a number: its value, and whether it is written. -/
def exponentPart? : List Char → Option (Int × Bool)
  | [] => some (0, false)
  | e :: rest =>
    if e = 'e' ∨ e = 'E' then
      let unsigned := fun cs => match digits? cs with
        | some (digits, []) => some (Decimal.natOfDigits digits)
        | _ => none
      match rest with
      | '-' :: digits => (unsigned digits).map fun n => (-Int.ofNat n, true)
      | '+' :: digits => (unsigned digits).map fun n => (Int.ofNat n, true)
      | digits => (unsigned digits).map fun n => (Int.ofNat n, true)
    else none

/-- The number that a numeral denotes: an integer if it is written as one, fits in 64 bits and is
not `-0`; a double, in double arithmetic, otherwise. -/
def numberOf? (numeral : Decimal.Numeral) (written : Bool) : Option Number :=
  let n := Decimal.natOfDigits numeral.whole
  if numeral.fraction.isEmpty && !written then
    if numeral.negative then
      if 0 < n ∧ Int64.minValue.toInt ≤ -Int.ofNat n then some (.int (-Int.ofNat n))
      else numeral.scaled?.map .float
    else if n < UInt64.size then some (.int (Int.ofNat n))
    else numeral.scaled?.map .float
  else numeral.scaled?.map .float

/-- A number without its sign. -/
def magnitude? (negative : Bool) (cs : List Char) : Option Number := do
  let (whole, rest) ← wholePart? cs
  let (fraction, rest) ← fractionPart? rest
  let (exponent, written) ← exponentPart? rest
  numberOf? ⟨negative, whole, fraction, exponent⟩ written

/-- A number in the grammar of JSON. -/
def number? : List Char → Option Number
  | '-' :: rest => magnitude? true rest
  | cs => magnitude? false cs

/-- The scalar that a run of characters denotes. -/
def runValue? (cs : List Char) : Option Value :=
  if cs = "null".toList then some .null
  else if cs = "true".toList then some (.bool true)
  else if cs = "false".toList then some (.bool false)
  else (number? cs).map .number

/-! ### The pass over the characters -/

/-- What the characters read so far have started; collected characters stand in reverse. -/
inductive Mode where
  | between
  | run (collected : List Char)
  | text (collected : List Char)
  | escape (collected : List Char)
  /-- Inside `\u`: hexadecimal digits still to come, their value so far, and the high surrogate
  before it. -/
  | unicode (collected : List Char) (missing : Nat) (value : Nat) (high : Option Nat)
  /-- After a high surrogate: the backslash is still to come, or only the `u`. -/
  | awaitLow (collected : List Char) (high : Nat) (backslash : Bool)

/-- The pass: tokens so far in reverse, and the mode. -/
structure Scan where
  tokens : List Token
  mode : Mode

/-- Punctuation as a token. -/
def punctuation? : Char → Option Token
  | '\x7b' => some .openObject
  | '\x7d' => some .closeObject
  | '[' => some .openArray
  | ']' => some .closeArray
  | ':' => some .colon
  | ',' => some .comma
  | _ => none

def isBlank (c : Char) : Bool := c = ' ' || c = '\n' || c = '\t' || c = '\r'

/-- A character outside strings, when no run is open. -/
def outside (tokens : List Token) (c : Char) : Scan :=
  match punctuation? c with
  | some token => ⟨token :: tokens, .between⟩
  | none =>
    if isBlank c then ⟨tokens, .between⟩
    else if c = '"' then ⟨tokens, .text []⟩
    else ⟨tokens, .run [c]⟩

/-- Whether a character ends a run. -/
def endsRun (c : Char) : Bool := (punctuation? c).isSome || isBlank c || c = '"'

/-- The character of a one-letter escape. -/
def escaped? : Char → Option Char
  | '"' => some '"'
  | '\\' => some '\\'
  | '/' => some '/'
  | 'b' => some '\x08'
  | 'f' => some '\x0c'
  | 'n' => some '\n'
  | 'r' => some '\r'
  | 't' => some '\t'
  | _ => none

/-- The mode after a complete `\u` escape. -/
def afterUnicode (collected : List Char) (value : Nat) (high : Option Nat) : Option Mode :=
  match high with
  | some h =>
    if 0xDC00 ≤ value ∧ value ≤ 0xDFFF then
      some (.text (Char.ofNat (0x10000 + (h - 0xD800) * 0x400 + (value - 0xDC00)) :: collected))
    else none
  | none =>
    if 0xD800 ≤ value ∧ value ≤ 0xDBFF then some (.awaitLow collected value true)
    else if 0xDC00 ≤ value ∧ value ≤ 0xDFFF then none
    else some (.text (Char.ofNat value :: collected))

/-- One character. -/
def Scan.step (s : Scan) (c : Char) : Option Scan :=
  match s.mode with
  | .between => some (outside s.tokens c)
  | .run collected =>
    if endsRun c then do
      let value ← runValue? collected.reverse
      some (outside (.scalar value :: s.tokens) c)
    else some ⟨s.tokens, .run (c :: collected)⟩
  | .text collected =>
    if c = '"' then
      some ⟨.scalar (.string (String.ofList collected.reverse)) :: s.tokens, .between⟩
    else if c = '\\' then some ⟨s.tokens, .escape collected⟩
    else if c.toNat < 0x20 then none
    else some ⟨s.tokens, .text (c :: collected)⟩
  | .escape collected =>
    if c = 'u' then some ⟨s.tokens, .unicode collected 4 0 none⟩
    else (escaped? c).map fun e => ⟨s.tokens, .text (e :: collected)⟩
  | .unicode collected missing value high => do
    let digit ← hexDigit? c
    let value := 16 * value + digit
    if missing ≤ 1 then
      let mode ← afterUnicode collected value high
      some ⟨s.tokens, mode⟩
    else some ⟨s.tokens, .unicode collected (missing - 1) value high⟩
  | .awaitLow collected high backslash =>
    if backslash then
      if c = '\\' then some ⟨s.tokens, .awaitLow collected high false⟩ else none
    else if c = 'u' then some ⟨s.tokens, .unicode collected 4 0 (some high)⟩
    else none

/-- The tokens at the end of the text. -/
def Scan.finish (s : Scan) : Option (List Token) :=
  match s.mode with
  | .between => some s.tokens.reverse
  | .run collected => (runValue? collected.reverse).map fun v => (.scalar v :: s.tokens).reverse
  | _ => none

/-- The tokens of a text. -/
def tokens? (text : String) : Option (List Token) := do
  let scan ← text.toList.foldlM Scan.step ⟨[], .between⟩
  scan.finish

end HvacModel.Json
