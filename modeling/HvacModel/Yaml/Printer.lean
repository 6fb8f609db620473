import HvacModel.Yaml.Style

/-! # YAML text of a value

`Yaml.render` writes a value in block style: entries and items each on lines of their own, two
columns deeper than what holds them, but the items of a list under a key at the column of the key.
Empty containers are written `[]` and `\x7b\x7d`.  A key that is long or holds a break is announced
by a question mark.

Every piece of text here ends with the break of its last line. -/

namespace HvacModel.Yaml

open ScalarStyle (blanks)

/-- A string up to the end of its line, further lines at an indentation. -/
def stringText (indent : Nat) (s : String) : List Char :=
  (ScalarStyle.of s).text indent s.toList

/-- The text of a number. -/
def numberText : Number → String
  | .int i => toString i
  | .float x => Decimal.Layout.yaml.render x

/-- The text of a scalar or of an empty container, `none` for other values. -/
def inlineText? (indent : Nat) : Value → Option (List Char)
  | .null => some "null\n".toList
  | .bool b => some ((if b then "true" else "false").toList ++ ['\n'])
  | .number n => some ((numberText n).toList ++ ['\n'])
  | .string s => some (stringText indent s)
  | .array [] => some ['[', ']', '\n']
  | .object [] => some ['\x7b', '\x7d', '\n']
  | .array _ | .object _ => none

/-- Whether a key stands on one line and is short enough to need no announcement. -/
def isSimpleKey (key : String) : Bool :=
  key.utf8ByteSize ≤ 128 && !key.toList.any ScalarStyle.endsLine

/-- A key that is not announced, without its colon. -/
def simpleKey (key : String) : List Char := (stringText 0 key).dropLast

mutual

/-- A value whose members stand at a column, where its text starts. -/
def nodeText (column : Nat) (value : Value) : List Char :=
  match value with
  | .array (item :: items) => '-' :: ' ' :: nodeText (column + 2) item ++ itemsText column items
  | .object (entry :: fields) => entryText column entry ++ fieldsText column fields
  | value => (inlineText? column value).getD []

/-- The value after a key that stands at a column. -/
def valueText (column : Nat) (value : Value) : List Char :=
  match value with
  | .array (item :: items) =>
    '\n' :: blanks column ++ '-' :: ' ' :: nodeText (column + 2) item ++ itemsText column items
  | .object (entry :: fields) =>
    '\n' :: blanks (column + 2) ++ entryText (column + 2) entry ++ fieldsText (column + 2) fields
  | value => ' ' :: (inlineText? (column + 2) value).getD []

/-- A key and its value; the key stands at a column, where the text starts. -/
def entryText (column : Nat) (entry : String × Value) : List Char :=
  match entry with
  | (key, value) =>
    if isSimpleKey key then simpleKey key ++ ':' :: valueText column value
    else '?' :: ' ' :: stringText (column + 2) key ++ blanks column ++
      ':' :: ' ' :: nodeText (column + 2) value

/-- The items after the first one. -/
def itemsText (column : Nat) (items : List Value) : List Char :=
  match items with
  | [] => []
  | item :: items =>
    blanks column ++ '-' :: ' ' :: nodeText (column + 2) item ++ itemsText column items

/-- The entries after the first one. -/
def fieldsText (column : Nat) (fields : List (String × Value)) : List Char :=
  match fields with
  | [] => []
  | entry :: fields => blanks column ++ entryText column entry ++ fieldsText column fields

end

/-- The YAML text of a value. -/
def render (value : Value) : String :=
  String.ofList ((inlineText? 2 value).getD (nodeText 0 value))

end HvacModel.Yaml
