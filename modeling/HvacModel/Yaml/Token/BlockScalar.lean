import HvacModel.Yaml.Text

/-! # Block scalars

A block scalar is a header on its own line and the deeper lines after it.  A literal scalar keeps
its breaks; in a folded one a single break between two lines that start with no blank becomes a
blank.  The header says what happens to the breaks at the end (`Chomping`) and may give the
indentation, which is otherwise that of the first line that is not empty. -/

namespace HvacModel.Yaml

/-- What happens to the breaks at the end. -/
inductive Chomping where
  /-- One break stays. -/
  | clip
  /-- None stays. -/
  | strip
  /-- All stay. -/
  | keep
deriving DecidableEq, Repr

/-- The header of a block scalar. -/
structure BlockHeader where
  chomping : Chomping
  /-- The written indentation relative to the surrounding one. -/
  indent : Option Nat
deriving DecidableEq, Repr

namespace BlockHeader

def chomping? (c : Char) : Option Chomping :=
  if c = '+' then some .keep else if c = '-' then some .strip else none

def isDigit (c : Char) : Bool := '0' ≤ c && c ≤ '9'

/-- A digit of the header; zero is no indentation. -/
def indentOf? (c : Char) : Option Nat := if c = '0' then none else some (c.toNat - '0'.toNat)

/-- The header and the text after it, `none` for an indentation of zero. -/
def read? : Text → Option (BlockHeader × Text)
  | p :: q :: rest =>
    match chomping? p.char with
    | some chomping =>
      if isDigit q.char then (indentOf? q.char).map fun n => (⟨chomping, some n⟩, rest)
      else some (⟨chomping, none⟩, q :: rest)
    | none =>
      if isDigit p.char then
        (indentOf? p.char).map fun n =>
          match chomping? q.char with
          | some chomping => (⟨chomping, some n⟩, rest)
          | none => (⟨.clip, some n⟩, q :: rest)
      else some (⟨.clip, none⟩, p :: q :: rest)
  | [p] =>
    match chomping? p.char with
    | some chomping => some (⟨chomping, none⟩, [])
    | none =>
      if isDigit p.char then (indentOf? p.char).map fun n => (⟨.clip, some n⟩, [])
      else some (⟨.clip, none⟩, [p])
  | [] => some (⟨.clip, none⟩, [])

end BlockHeader

/-- The empty lines at the start, and how deep the widest of them and the first other line are. -/
structure LeadingLines where
  /-- The breaks, in reverse. -/
  breaks : List Char
  widest : Nat
  rest : Text

/-- Read on in the lines at the start.  With an indentation no more blanks than it are passed over;
a tab is refused where an indentation is expected. -/
def leadingLines (indent : Option Nat) (breaks : List Char) (widest : Nat) :
    Text → Option LeadingLines
  | [] => some ⟨breaks, widest, []⟩
  | p :: rest =>
    let inside := indent.all fun n => decide (p.column < n)
    if inside && p.char = ' ' then leadingLines indent breaks widest rest
    else if inside && p.char = '\t' then none
    else if isBreak p.char then
      leadingLines indent (p.char :: breaks) (max widest p.column) rest
    else some ⟨breaks, max widest p.column, p :: rest⟩

/-- The body of a block scalar while it is read. -/
structure BlockBody where
  /-- The characters so far, in reverse. -/
  collected : List Char
  /-- The break that ended the last line. -/
  lineBreak : List Char
  /-- The breaks of the empty lines after it, in reverse. -/
  emptyLines : List Char
  /-- Whether the last line started with a blank. -/
  startedBlank : Bool
  /-- Whether the reader stands inside a line. -/
  inLine : Bool

namespace BlockBody

/-- The break between the last line and the next one. -/
def joint (b : BlockBody) (literal nextBlank : Bool) : List Char :=
  if !literal && b.lineBreak = ['\n'] && !b.startedBlank && !nextBlank then
    if b.emptyLines.isEmpty then [' '] else []
  else b.lineBreak

/-- The body with the first character of a line. -/
def startLine (b : BlockBody) (literal : Bool) (c : Char) : BlockBody :=
  { collected := c :: (b.emptyLines ++ b.joint literal (isBlank c) ++ b.collected)
    lineBreak := []
    emptyLines := []
    startedBlank := isBlank c
    inLine := true }

/-- Read on in the body, up to a line that is less deep. -/
def readFrom (literal : Bool) (indent : Nat) (b : BlockBody) : Text → Option (BlockBody × Text)
  | [] => some (b, [])
  | p :: rest =>
    if b.inLine then
      if isBreak p.char then
        readFrom literal indent { b with inLine := false, lineBreak := [p.char] } rest
      else readFrom literal indent { b with collected := p.char :: b.collected } rest
    else if p.column < indent && p.char = ' ' then readFrom literal indent b rest
    else if p.column < indent && p.char = '\t' then none
    else if isBreak p.char then
      readFrom literal indent { b with emptyLines := p.char :: b.emptyLines } rest
    else if p.column = indent then readFrom literal indent (b.startLine literal p.char) rest
    else some (b, p :: rest)

/-- The characters of the scalar. -/
def text (b : BlockBody) : Chomping → List Char
  | .strip => b.collected.reverse
  | .clip => b.collected.reverse ++ b.lineBreak
  | .keep => b.collected.reverse ++ b.lineBreak ++ b.emptyLines.reverse

end BlockBody

/-- A block scalar after its first character.  `outer` is one more than the indentation around it,
zero outside all block collections. -/
def blockScalar? (literal : Bool) (outer : Nat) (t : Text) : Option (List Char × Text) := do
  let (header, t) ← BlockHeader.read? t
  let t ← t.endLine?
  let given := header.indent.map fun n => (outer - 1) + n
  let leading ← leadingLines given [] 0 t
  let indent := given.getD (max leading.widest (max outer 1))
  let start : BlockBody := ⟨[], [], leading.breaks, false, false⟩
  let (body, t) ← start.readFrom literal indent leading.rest
  some (body.text header.chomping, t)

end HvacModel.Yaml
