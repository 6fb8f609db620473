import HvacModel.Yaml.Text

/-! # Tags

A tag is a list of bytes.  It is written with ASCII characters, which stand for themselves, and with
escapes: a percent sign and two hexadecimal digits for one byte.  The bytes of one character of
UTF-8 are escaped all or none, and a zero byte ends the tag (`Tag.ofCharacters?`).

A tag that starts with `!` is local.  Its name is the text of its other bytes, or `!` where there are
none; a local tag whose bytes are no text has no name and counts as no tag. -/

namespace HvacModel.Yaml

/-- A tag, or a part of one. -/
structure Tag where
  bytes : List UInt8
deriving DecidableEq, Repr

namespace Tag

/-- The tag of a text. -/
def ofString (s : String) : Tag := ⟨s.toUTF8.data.toList⟩

def append (a b : Tag) : Tag := ⟨a.bytes ++ b.bytes⟩

/-- What all standard tags start with. -/
def standardLeading : Tag := ofString "tag:yaml.org,2002:"

/-- The standard tag of a kind of values. -/
def standard (kind : String) : Tag := standardLeading.append (ofString kind)

/-- The tag that is only the sign of a local tag. -/
def localSign : Tag := ofString "!"

def isLocal (t : Tag) : Bool := t.bytes.head? = some 0x21

/-- The tag without the sign of a local tag. -/
def withoutSign (t : Tag) : Tag := if t.isLocal then ⟨t.bytes.drop 1⟩ else t

/-- The name of a local tag. -/
def name? (t : Tag) : Option String :=
  if t.isLocal then
    let name := if t = localSign then t else t.withoutSign
    String.fromUTF8? ⟨name.bytes.toArray⟩
  else none

/-! ### Characters of a tag -/

/-- The number of bytes after the first one of a character. -/
def moreBytes? (first : Nat) : Option Nat :=
  if first < 0x80 then some 0
  else if first < 0xC0 then none
  else if first < 0xE0 then some 1
  else if first < 0xF0 then some 2
  else if first < 0xF8 then some 3
  else none

/-- How many bytes of a character are missing after one more byte. -/
def missingAfter? (missing byte : Nat) : Option Nat :=
  match missing with
  | 0 => moreBytes? byte
  | more + 1 => if 0x80 ≤ byte ∧ byte < 0xC0 then some more else none

/-- The bytes of characters, when so many bytes of an escaped character are missing. -/
def bytes? (missing : Nat) : List Char → Option (List UInt8)
  | [] => if missing = 0 then some [] else none
  | '%' :: a :: b :: rest => do
    let high ← hexValue? a
    let low ← hexValue? b
    let byte := 16 * high + low
    let bytes ← bytes? (← missingAfter? missing byte) rest
    some (UInt8.ofNat byte :: bytes)
  | c :: rest =>
    if c = '%' || missing ≠ 0 then none
    else (bytes? 0 rest).map (UInt8.ofNat c.toNat :: ·)

/-- The tag that characters stand for, up to a zero byte. -/
def ofCharacters? (cs : List Char) : Option Tag :=
  (bytes? 0 cs).map fun bytes => ⟨bytes.takeWhile (· ≠ 0)⟩

end Tag

end HvacModel.Yaml
