/-! # Placed characters

YAML gives meaning to columns and lines, so its text is read as a list of placed characters: each
one carries the line and the column where it stands.  With the places inside the text, every reader
of a part of it is a function on lists.

`Text.ofString?` places the characters of a string.  It refuses control characters, and makes one
line feed of every carriage return, line feed, pair of both, and next-line character.  The
separators of lines and paragraphs stay what they are. -/

namespace HvacModel.Yaml

/-- A character and the place where it stands. -/
structure Placed where
  char : Char
  line : Nat
  /-- The number of characters before it on its line. -/
  column : Nat
  /-- The number of bytes before it on its line, in UTF-8. -/
  offset : Nat
deriving DecidableEq, Repr

/-- The rest of a text. -/
abbrev Text := List Placed

/-- Characters that a text may hold. -/
def isAllowed (c : Char) : Bool :=
  c = '\t' || c = '\n' || c = '\r' || c = '\x85' || (' ' ≤ c && c ≤ '~') ||
    ('\xa0' ≤ c && c.toNat ≤ 0xD7FF) || (0xE000 ≤ c.toNat && c.toNat ≤ 0xFFFD) ||
    0x10000 ≤ c.toNat

/-- Characters that end a line. -/
def isBreak (c : Char) : Bool := c = '\n' || c = '\u2028' || c = '\u2029'

/-- Characters that separate words on a line. -/
def isBlank (c : Char) : Bool := c = ' ' || c = '\t'

/-- ASCII letters and digits, `-` and `_`. -/
def isWord (c : Char) : Bool := c.isAlphanum || c = '-' || c = '_'

/-- The value of a hexadecimal digit. -/
def hexValue? (c : Char) : Option Nat :=
  if '0' ≤ c && c ≤ '9' then some (c.toNat - '0'.toNat)
  else if 'a' ≤ c && c ≤ 'f' then some (c.toNat - 'a'.toNat + 10)
  else if 'A' ≤ c && c ≤ 'F' then some (c.toNat - 'A'.toNat + 10)
  else none

/-- One line feed for each way to end a line but the two separators. -/
def unifyBreaks : List Char → List Char
  | '\r' :: '\n' :: rest => '\n' :: unifyBreaks rest
  | c :: rest => (if c = '\r' ∨ c = '\x85' then '\n' else c) :: unifyBreaks rest
  | [] => []

/-- Characters placed one after the other from a place on. -/
def placeFrom (line column offset : Nat) : List Char → Text
  | [] => []
  | c :: rest =>
    ⟨c, line, column, offset⟩ ::
      (if isBreak c then placeFrom (line + 1) 0 0 rest
      else placeFrom line (column + 1) (offset + c.utf8Size) rest)

namespace Text

/-- The placed characters of a string. -/
def ofString? (s : String) : Option Text :=
  let cs := s.toList
  if cs.all isAllowed then some (placeFrom 0 0 0 (unifyBreaks cs)) else none

/-- The run of characters of a class at the front. -/
def run (isPart : Char → Bool) (t : Text) : List Char :=
  (t.takeWhile fun p => isPart p.char).map Placed.char

/-- The text after a run of characters of a class. -/
def afterRun (isPart : Char → Bool) (t : Text) : Text := t.dropWhile fun p => isPart p.char

/-- The text after its first character. -/
def next (t : Text) : Text := t.drop 1

/-- Whether a word ends here: at a blank, a break or the end of the text. -/
def endsWord : Text → Bool
  | [] => true
  | p :: _ => isBlank p.char || isBreak p.char

/-- Whether the next character is a given one. -/
def startsWith (c : Char) : Text → Bool
  | [] => false
  | p :: _ => p.char = c

/-- Whether three equal marks stand here at the start of a line as a word. -/
def startsMarker (mark : Char) : Text → Bool
  | a :: b :: c :: rest =>
    a.column = 0 && a.char = mark && b.char = mark && c.char = mark && endsWord rest
  | _ => false

/-- Whether the start or the end of a document is marked here. -/
def atMarker (t : Text) : Bool := t.startsMarker '-' || t.startsMarker '.'

/-- The text after blanks. -/
def skipBlanks (t : Text) : Text := t.afterRun isBlank

/-- The text from the end of the line on. -/
def skipLine (t : Text) : Text := t.afterRun fun c => !isBreak c

/-- The text after the blanks, the comment and the break that end a line, `none` where anything
else stands on it. -/
def endLine? (t : Text) : Option Text :=
  let t := t.skipBlanks
  match (if t.startsWith '#' then t.skipLine else t) with
  | [] => some []
  | p :: rest => if isBreak p.char then some rest else none

end Text

end HvacModel.Yaml
