import HvacModel.Yaml.Token

/-! # Names, tags and directives

Anchors and aliases are words.  A tag is verbatim between `!<` and `>`, or a suffix after a handle:
`!`, `!!` or `!word!`.  Directives stand on lines of their own in front of a document. -/

namespace HvacModel.Yaml.Token

/-- Characters that may follow a name directly, blanks and breaks apart. -/
def endsName (c : Char) : Bool :=
  c = '?' || c = ':' || c = ',' || c = ']' || c = '\x7d' || c = '%' || c = '@' || c.toNat = 0x60

/-- The name of an anchor or an alias and the text after it. -/
def name? (t : Text) : Option (String × Text) :=
  let word := t.run isWord
  let rest := t.afterRun isWord
  if !word.isEmpty && (rest.endsWord || rest.head?.any fun p => endsName p.char) then
    some (String.ofList word, rest)
  else none

/-! ### Tags -/

/-- Characters of a tag. -/
def isTagCharacter (c : Char) : Bool :=
  isWord c || c = ';' || c = '/' || c = '?' || c = ':' || c = '@' || c = '&' || c = '=' ||
    c = '+' || c = '$' || c = '.' || c = '%' || c = '!' || c = '~' || c = '*' || c = '\'' ||
    c = '(' || c = ')'

/-- Characters of a verbatim tag and of the text that a directive declares. -/
def isLongTagCharacter (c : Char) : Bool := isTagCharacter c || c = ',' || c = '[' || c = ']'

/-- A nonempty run of tag characters after those already read, as a part of a tag. -/
def tagRun? (isPart : Char → Bool) (already : List Char) (t : Text) : Option (Tag × Text) := do
  let run := already ++ t.run isPart
  if run.isEmpty then none
  else some (← Tag.ofCharacters? run, t.afterRun isPart)

/-- A tag after its `!`, as a handle and a suffix; the text after it has to end a word.  A verbatim
tag has an empty handle, and so has `!` with nothing after it. -/
def tag? (inFlow : Bool) (t : Text) : Option (Token × Text) := do
  let (found, rest) ←
    match t with
    | p :: inner =>
      if p.char = '<' then do
        let (suffix, rest) ← tagRun? isLongTagCharacter [] inner
        if rest.startsWith '>' then some (Token.tag "" suffix, rest.next) else none
      else shorthand? t
    | [] => shorthand? t
  if rest.endsWord || (inFlow && rest.startsWith ',') then some (found, rest) else none
where
  /-- A tag with a handle. -/
  shorthand? (t : Text) : Option (Token × Text) :=
    let word := t.run isWord
    let rest := t.afterRun isWord
    if rest.startsWith '!' then do
      let (suffix, rest) ← tagRun? isTagCharacter [] rest.next
      some (.tag (String.ofList ('!' :: word ++ ['!'])) suffix, rest)
    else do
      let (suffix, rest) ← tagRun? isTagCharacter ('!' :: word) rest
      if suffix = Tag.localSign then some (.tag "" suffix, rest)
      else some (.tag "!" suffix.withoutSign, rest)

/-! ### Directives -/

/-- A number of at most nine digits. -/
def versionNumber? (t : Text) : Option (Nat × Text) :=
  let digits := t.run Char.isDigit
  if digits.isEmpty || 9 < digits.length then none
  else some (digits.foldl (fun n c => 10 * n + (c.toNat - '0'.toNat)) 0,
    t.afterRun Char.isDigit)

/-- The version that a directive requires. -/
def versionDirective? (t : Text) : Option (Token × Text) := do
  let (major, rest) ← versionNumber? t.skipBlanks
  if rest.startsWith '.' then
    let (minor, rest) ← versionNumber? rest.next
    some (.versionDirective major minor, rest)
  else none

/-- A handle and the text that it stands for. -/
def tagDirective? (t : Text) : Option (Token × Text) := do
  let t := t.skipBlanks
  if t.startsWith '!' then
    let word := t.next.run isWord
    let rest := t.next.afterRun isWord
    let (handle, rest) ←
      if rest.startsWith '!' then some ('!' :: word ++ ['!'], rest.next)
      else if word.isEmpty then some (['!'], rest)
      else none
    if rest.head?.any fun p => isBlank p.char then
      let (leading, rest) ← tagRun? isLongTagCharacter [] rest.skipBlanks
      if rest.endsWord then some (.tagDirective (String.ofList handle) leading, rest) else none
    else none
  else none

/-- A directive after its `%`, with the rest of its line. -/
def directive? (t : Text) : Option (Token × Text) := do
  let word := t.run isWord
  let rest := t.afterRun isWord
  if rest.endsWord then
    let (token, rest) ←
      if word = "YAML".toList then versionDirective? rest
      else if word = "TAG".toList then tagDirective? rest
      else none
    some (token, ← rest.endLine?)
  else none

end HvacModel.Yaml.Token
