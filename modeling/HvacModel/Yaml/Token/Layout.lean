import HvacModel.Yaml.Token.Folded
import HvacModel.Yaml.Token.BlockScalar
import HvacModel.Yaml.Token.Property

/-! # Cutting YAML text into tokens

Indentation decides where block collections start and end, and a colon may turn what stands before
it into a key.  `Layout` carries what this needs: the columns of the open block collections, and
for every open flow collection and the block around them the place where a key may have started.
A key that no `?` announces stays on one line, and at most 1024 bytes lie between its start and its
colon.

`Layout.step?` takes one token; `Token.ofText?` takes all, and is `none` where the text has no
tokens. -/

namespace HvacModel.Yaml

/-- A place where a key may have started. -/
structure KeyStart where
  /-- The number of tokens before the key. -/
  position : Nat
  line : Nat
  column : Nat
  /-- The number of bytes before it on its line. -/
  offset : Nat
  /-- Whether a block mapping has to go on with a key here. -/
  required : Bool
deriving DecidableEq, Repr

/-- The reader between two tokens. -/
structure Layout where
  /-- The tokens so far, in reverse. -/
  tokens : List Token
  count : Nat
  /-- The columns of the open block collections, the innermost first. -/
  columns : List Nat
  /-- The key start of the innermost collection. -/
  start : Option KeyStart
  /-- The key starts around it, one for each open flow collection. -/
  outerStarts : List (Option KeyStart)
  /-- Whether a key may start here. -/
  keyAllowed : Bool

namespace Layout

def initial : Layout := ⟨[], 0, [], none, [], true⟩

def inFlow (s : Layout) : Bool := !s.outerStarts.isEmpty

/-- One more than the column of the innermost block collection, zero outside all. -/
def depth (s : Layout) : Nat := (s.columns.head?).elim 0 (· + 1)

def emit (s : Layout) (token : Token) : Layout :=
  { s with tokens := token :: s.tokens, count := s.count + 1 }

/-- A token at an earlier position. -/
def insert (s : Layout) (position : Nat) (token : Token) : Layout :=
  { s with
    tokens := s.tokens.take (s.count - position) ++ token :: s.tokens.drop (s.count - position)
    count := s.count + 1 }

/-! ### Indentation -/

/-- Close the block collections that are deeper than a depth. -/
def closeTo (s : Layout) (depth : Nat) : Layout :=
  if s.inFlow then s
  else
    let closed := s.columns.takeWhile fun column => depth < column + 1
    { s with
      tokens := closed.map (fun _ => Token.blockEnd) ++ s.tokens
      count := s.count + closed.length
      columns := s.columns.drop closed.length }

/-- Open a block collection at a column, unless it is open: its token goes to a position. -/
def openAt (s : Layout) (column position : Nat) (token : Token) : Layout :=
  if s.inFlow || column < s.depth then s
  else { s.insert position token with columns := column :: s.columns }

/-! ### Keys -/

/-- Give up a key start that is too far back, `none` where a key is required. -/
def expire (start : Option KeyStart) (p : Placed) : Option (Option KeyStart) :=
  match start with
  | none => some none
  | some k =>
    if k.line < p.line || k.offset + 1024 < p.offset then
      if k.required then none else some none
    else some (some k)

/-- Give up all key starts that are too far back. -/
def expireAll (s : Layout) (p : Placed) : Option Layout := do
  let start ← expire s.start p
  let outer ← s.outerStarts.mapM fun k => expire k p
  some { s with start := start, outerStarts := outer }

/-- Give up the innermost key start. -/
def dropStart (s : Layout) : Option Layout :=
  if s.start.any KeyStart.required then none else some { s with start := none }

/-- A key may start here. -/
def saveStart (s : Layout) (p : Placed) : Option Layout :=
  if s.keyAllowed then do
    let required := !s.inFlow && s.columns.head? = some p.column
    let dropped ← s.dropStart
    some { dropped with start := some ⟨s.count, p.line, p.column, p.offset, required⟩ }
  else some s

/-! ### Tokens of one kind -/

/-- The text before the next token: blanks, comments and breaks are passed over.  Tabs do not
indent, so none may stand where a key may start in a block.  A byte order mark at the start of a
line is passed over too, but it takes up a column: what follows it is indented. -/
def skip (s : Layout) : Text → Layout × Text
  | [] => (s, [])
  | p :: rest =>
    if p.char = ' ' || (p.char = '\t' && (s.inFlow || !s.keyAllowed)) ||
        (p.column = 0 && p.char = '\ufeff') then skip s rest
    else if isBreak p.char then skip { s with keyAllowed := s.keyAllowed || !s.inFlow } rest
    else if p.char = '#' then skipComment s rest
    else (s, p :: rest)
where
  /-- The text after a comment. -/
  skipComment (s : Layout) : Text → Layout × Text
    | [] => (s, [])
    | p :: rest =>
      if isBreak p.char then skip { s with keyAllowed := s.keyAllowed || !s.inFlow } rest
      else skipComment s rest

/-- A token at the start of a line that ends all collections. -/
def marker (s : Layout) (token : Token) : Option Layout := do
  let s ← (s.closeTo 0).dropStart
  some ({ s with keyAllowed := false }.emit token)

/-- The start of a flow collection. -/
def openFlow (s : Layout) (p : Placed) (token : Token) : Option Layout := do
  let s ← s.saveStart p
  some ({ s with start := none, outerStarts := s.start :: s.outerStarts, keyAllowed := true }.emit
    token)

/-- The end of a flow collection. -/
def closeFlow (s : Layout) (token : Token) : Option Layout := do
  let s ← s.dropStart
  let s := match s.outerStarts with
    | start :: outer => { s with start := start, outerStarts := outer }
    | [] => s
  some ({ s with keyAllowed := false }.emit token)

/-- The comma of a flow collection. -/
def flowEntry (s : Layout) : Option Layout := do
  let s ← s.dropStart
  some ({ s with keyAllowed := true }.emit .flowEntry)

/-- The start of a block collection's entry where none is announced by a key. -/
def openBlock (s : Layout) (p : Placed) (token : Token) : Option Layout :=
  if s.inFlow then some s
  else if s.keyAllowed then some (s.openAt p.column s.count token)
  else none

/-- The dash of a block sequence. -/
def blockEntry (s : Layout) (p : Placed) : Option Layout := do
  let s ← s.openBlock p .blockSequenceStart
  let s ← s.dropStart
  some ({ s with keyAllowed := true }.emit .blockEntry)

/-- The question mark of a key. -/
def key (s : Layout) (p : Placed) : Option Layout := do
  let s ← s.openBlock p .blockMappingStart
  let s ← s.dropStart
  some ({ s with keyAllowed := !s.inFlow }.emit .key)

/-- The colon of a value. -/
def value (s : Layout) (p : Placed) : Option Layout :=
  match s.start with
  | some k =>
    let s := (s.insert k.position .key).openAt k.column k.position .blockMappingStart
    some ({ s with start := none, keyAllowed := false }.emit .value)
  | none => do
    let s ← s.openBlock p .blockMappingStart
    some ({ s with keyAllowed := !s.inFlow }.emit .value)

/-- A token that may be a key, and that no key follows directly. -/
def content (s : Layout) (p : Placed) (token : Token) : Option Layout := do
  let s ← s.saveStart p
  some ({ s with keyAllowed := false }.emit token)

/-- A block scalar. -/
def blockScalar (s : Layout) (literal : Bool) (t : Text) : Option (Layout × Text) := do
  let s ← s.dropStart
  let (text, rest) ← blockScalar? literal s.depth t
  some ({ s with keyAllowed := true }.emit (.scalar (String.ofList text) false), rest)

/-- A plain scalar; one that is followed by a break leaves room for a key. -/
def plainScalar (s : Layout) (p : Placed) (t : Text) : Option (Layout × Text) := do
  let s ← s.saveStart p
  let scalar ← plainFrom s.inFlow s.depth [] .none t
  some ({ s with keyAllowed := scalar.broken }.emit (.scalar (String.ofList scalar.text) true),
    scalar.rest)

/-! ### All tokens -/

/-- Characters that start no plain scalar, whatever follows. -/
def isIndicator (c : Char) : Bool :=
  isFlowDelimiter c || c = '#' || c = '&' || c = '*' || c = '!' || c = '|' || c = '>' ||
    c = '\'' || c = '"' || c = '%' || c = '@' || c.toNat = 0x60

/-- Whether a plain scalar starts with a character. -/
def startsPlain (s : Layout) (p : Placed) (rest : Text) : Bool :=
  if p.char = '-' then !(rest.head?.any fun q => isBlank q.char)
  else if p.char = '?' || p.char = ':' then !s.inFlow && !rest.endsWord
  else !isIndicator p.char && !isBlank p.char

/-- The token that starts with a character. -/
def take? (s : Layout) (p : Placed) (rest : Text) : Option (Layout × Text) :=
  let all : Text := p :: rest
  if p.column = 0 && p.char = '%' then do
    let (token, rest) ← Token.directive? rest
    some (← s.marker token, rest)
  else if all.startsMarker '-' then (s.marker .documentStart).map (·, rest.drop 2)
  else if all.startsMarker '.' then (s.marker .documentEnd).map (·, rest.drop 2)
  else if p.char = '[' then (s.openFlow p .flowSequenceStart).map (·, rest)
  else if p.char = '\x7b' then (s.openFlow p .flowMappingStart).map (·, rest)
  else if p.char = ']' then (s.closeFlow .flowSequenceEnd).map (·, rest)
  else if p.char = '\x7d' then (s.closeFlow .flowMappingEnd).map (·, rest)
  else if p.char = ',' then s.flowEntry.map (·, rest)
  else if p.char = '-' && rest.endsWord then (s.blockEntry p).map (·, rest)
  else if p.char = '?' && (s.inFlow || rest.endsWord) then (s.key p).map (·, rest)
  else if p.char = ':' && (s.inFlow || rest.endsWord) then (s.value p).map (·, rest)
  else if p.char = '*' then do
    let (name, rest) ← Token.name? rest
    some (← s.content p (.reference name), rest)
  else if p.char = '&' then do
    let (name, rest) ← Token.name? rest
    some (← s.content p (.anchor name), rest)
  else if p.char = '!' then do
    let (token, rest) ← Token.tag? s.inFlow rest
    some (← s.content p token, rest)
  else if (p.char = '|' || p.char = '>') && !s.inFlow then s.blockScalar (p.char = '|') rest
  else if p.char = '\'' then do
    let (text, rest) ← singleFrom [] .none rest
    some (← s.content p (.scalar (String.ofList text) false), rest)
  else if p.char = '"' then do
    let (text, rest) ← doubleFrom [] .none .outside rest
    some (← s.content p (.scalar (String.ofList text) false), rest)
  else if s.startsPlain p rest then s.plainScalar p all
  else none

/-- The next token, `none` for a text without tokens. -/
def step? (s : Layout) (p : Placed) (rest : Text) : Option (Layout × Text) := do
  let s ← s.expireAll p
  (s.closeTo (p.column + 1)).take? p rest

/-- The tokens up to the end of the text. -/
def finish? (s : Layout) : Option (List Token) := do
  let s ← (s.closeTo 0).dropStart
  some s.tokens.reverse

/-- Read on for at most `fuel` tokens. -/
def readFrom (fuel : Nat) (s : Layout) (t : Text) : Option (List Token) :=
  match fuel with
  | 0 => none
  | fuel + 1 =>
    match s.skip t with
    | (s, []) => s.finish?
    | (s, p :: rest) => do
      let (s, rest) ← s.step? p rest
      readFrom fuel s rest

end Layout

/-- The tokens of a text; each of them takes at least one character. -/
def Token.ofText? (t : Text) : Option (List Token) := Layout.initial.readFrom (t.length + 1) t

end HvacModel.Yaml
