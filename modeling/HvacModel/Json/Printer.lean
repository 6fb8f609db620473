import HvacModel.Value
import HvacModel.Decimal.Layout

/-! # JSON text of a value

`Json.compact` writes a value without any blank; `Json.pretty` puts every item and entry on a line
of its own, indented by two blanks a level, and leaves empty containers on one line.  Strings
escape the quote, the backslash and the control characters below the blank, and nothing else.

Texts are built as lists of characters, `… ++ rest`, so that statements about them are statements
about lists. -/

namespace HvacModel.Json

/-- A hexadecimal digit in lower case. -/
def hexChar (n : Nat) : Char := if n < 10 then Char.ofNat (48 + n) else Char.ofNat (87 + n)

/-- A character inside a string. -/
def escape (c : Char) : List Char :=
  if c = '"' then ['\\', '"']
  else if c = '\\' then ['\\', '\\']
  else if c = '\x08' then ['\\', 'b']
  else if c = '\x0c' then ['\\', 'f']
  else if c = '\n' then ['\\', 'n']
  else if c = '\r' then ['\\', 'r']
  else if c = '\t' then ['\\', 't']
  else if c.toNat < 0x20 then
    ['\\', 'u', '0', '0', hexChar (c.toNat / 16), hexChar (c.toNat % 16)]
  else [c]

/-- A quoted string in front of a text. -/
def quoted (s : String) (rest : List Char) : List Char :=
  '"' :: s.toList.foldr (fun c tail => escape c ++ tail) ('"' :: rest)

/-- The text of a number. -/
def numberText : Number → String
  | .int i => toString i
  | .float x => Decimal.Layout.json.render x

mutual

/-- A value without blanks, in front of a text. -/
def compactValue (value : Value) (rest : List Char) : List Char :=
  match value with
  | .null => "null".toList ++ rest
  | .bool b => (if b then "true" else "false").toList ++ rest
  | .number n => (numberText n).toList ++ rest
  | .string s => quoted s rest
  | .array [] => '[' :: ']' :: rest
  | .array (item :: items) => '[' :: compactValue item (compactItems items rest)
  | .object [] => '\x7b' :: '\x7d' :: rest
  | .object ((key, item) :: fields) =>
    '\x7b' :: quoted key (':' :: compactValue item (compactFields fields rest))

/-- The items after the first one and the end of the array. -/
def compactItems (items : List Value) (rest : List Char) : List Char :=
  match items with
  | [] => ']' :: rest
  | item :: items => ',' :: compactValue item (compactItems items rest)

/-- The entries after the first one and the end of the object. -/
def compactFields (fields : List (String × Value)) (rest : List Char) : List Char :=
  match fields with
  | [] => '\x7d' :: rest
  | (key, item) :: fields =>
    ',' :: quoted key (':' :: compactValue item (compactFields fields rest))

end

/-- The compact text of a value. -/
def compact (value : Value) : String := String.ofList (compactValue value [])

/-- A line break and the indentation of a level, in front of a text. -/
def newline (level : Nat) (rest : List Char) : List Char :=
  '\n' :: (List.replicate (2 * level) ' ' ++ rest)

mutual

/-- A value in lines, starting at a level, in front of a text. -/
def prettyValue (level : Nat) (value : Value) (rest : List Char) : List Char :=
  match value with
  | .null => "null".toList ++ rest
  | .bool b => (if b then "true" else "false").toList ++ rest
  | .number n => (numberText n).toList ++ rest
  | .string s => quoted s rest
  | .array [] => '[' :: ']' :: rest
  | .array (item :: items) =>
    '[' :: newline (level + 1) (prettyValue (level + 1) item (prettyItems level items rest))
  | .object [] => '\x7b' :: '\x7d' :: rest
  | .object ((key, item) :: fields) =>
    '\x7b' :: newline (level + 1) (quoted key (':' :: ' ' ::
      prettyValue (level + 1) item (prettyFields level fields rest)))

/-- The items after the first one and the end of the array. -/
def prettyItems (level : Nat) (items : List Value) (rest : List Char) : List Char :=
  match items with
  | [] => newline level (']' :: rest)
  | item :: items =>
    ',' :: newline (level + 1) (prettyValue (level + 1) item (prettyItems level items rest))

/-- The entries after the first one and the end of the object. -/
def prettyFields (level : Nat) (fields : List (String × Value)) (rest : List Char) : List Char :=
  match fields with
  | [] => newline level ('\x7d' :: rest)
  | (key, item) :: fields =>
    ',' :: newline (level + 1) (quoted key (':' :: ' ' ::
      prettyValue (level + 1) item (prettyFields level fields rest)))

end

/-- The indented text of a value, without a final line break. -/
def pretty (value : Value) : String := String.ofList (prettyValue 0 value [])

end HvacModel.Json
