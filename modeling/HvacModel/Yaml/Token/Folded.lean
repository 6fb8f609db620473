import HvacModel.Yaml.Text

/-! # Plain and quoted scalars

A scalar without quotes, in single quotes or in double quotes may run over several lines.  What
stands between two of its words is a `Gap`: blanks on one line are kept, but a break takes the
blanks around it away and is folded: a single break becomes a blank, and of several the first is
dropped (`Gap.text`).

All three readers go through the text character by character, with the characters collected so far
in reverse. -/

namespace HvacModel.Yaml

/-- What stands after the last word. -/
structure Gap where
  /-- The blanks before the first break, in reverse. -/
  blanks : List Char
  /-- The breaks, in reverse. -/
  breaks : List Char
  /-- Whether the gap starts with an escaped break. -/
  escaped : Bool
deriving DecidableEq, Repr

namespace Gap

def none : Gap := ⟨[], [], false⟩

def isNone (g : Gap) : Bool := g.blanks.isEmpty && g.breaks.isEmpty && !g.escaped

/-- Whether the gap goes on to another line. -/
def isBroken (g : Gap) : Bool := !g.breaks.isEmpty || g.escaped

def addBlank (g : Gap) (c : Char) : Gap :=
  if g.isBroken then g else { g with blanks := c :: g.blanks }

def addBreak (g : Gap) (c : Char) : Gap := { g with blanks := [], breaks := c :: g.breaks }

/-- Breaks after folding. -/
def folded : List Char → List Char
  | ['\n'] => [' ']
  | '\n' :: more => more
  | breaks => breaks

/-- The characters that a gap stands for. -/
def text (g : Gap) : List Char :=
  if g.escaped then g.breaks.reverse
  else if g.breaks.isEmpty then g.blanks.reverse
  else folded g.breaks.reverse

/-- A gap after the collected characters, in reverse. -/
def onto (g : Gap) (collected : List Char) : List Char := g.text.reverse ++ collected

end Gap

/-! ### Plain scalars -/

/-- The characters that delimit flow collections. -/
def isFlowDelimiter (c : Char) : Bool :=
  c = ',' || c = '[' || c = ']' || c = '\x7b' || c = '\x7d'

/-- Characters that may not follow a colon inside a plain scalar of a flow collection. -/
def isAfterColon (c : Char) : Bool := isFlowDelimiter c || c = '?'

/-- A plain scalar as it was read. -/
structure PlainScalar where
  text : List Char
  /-- Whether the gap after the scalar holds a break. -/
  broken : Bool
  rest : Text

/-- Read on in a plain scalar; its lines after the first stand at `indent` or deeper. -/
def plainFrom (inFlow : Bool) (indent : Nat) (collected : List Char) (gap : Gap) :
    Text → Option PlainScalar
  | [] => some ⟨collected.reverse, gap.isBroken, []⟩
  | p :: rest =>
    let stop := some ⟨collected.reverse, gap.isBroken, p :: rest⟩
    if isBlank p.char then
      if gap.isBroken && p.column < indent && p.char = '\t' then none
      else plainFrom inFlow indent collected (gap.addBlank p.char) rest
    else if isBreak p.char then plainFrom inFlow indent collected (gap.addBreak p.char) rest
    else if !gap.isNone && ((!inFlow && p.column < indent) || Text.atMarker (p :: rest) ||
        p.char = '#') then stop
    else if inFlow && p.char = ':' && (rest.head?.any fun q => isAfterColon q.char) then none
    else if (p.char = ':' && Text.endsWord rest) || (inFlow && isFlowDelimiter p.char) then stop
    else plainFrom inFlow indent (p.char :: gap.onto collected) .none rest

/-! ### Scalars in single quotes -/

/-- Read on in a scalar in single quotes; a quote inside it is written twice. -/
def singleFrom (collected : List Char) (gap : Gap) : Text → Option (List Char × Text)
  | [] => none
  | p :: rest =>
    if Text.atMarker (p :: rest) then none
    else if isBlank p.char then singleFrom collected (gap.addBlank p.char) rest
    else if isBreak p.char then singleFrom collected (gap.addBreak p.char) rest
    else if p.char = '\'' then
      match rest with
      | q :: more =>
        if q.char = '\'' then singleFrom ('\'' :: gap.onto collected) .none more
        else some ((gap.onto collected).reverse, q :: more)
      | [] => some ((gap.onto collected).reverse, [])
    else singleFrom (p.char :: gap.onto collected) .none rest

/-! ### Scalars in double quotes -/

/-- The character of an escape of one letter. -/
def escaped? : Char → Option Char
  | '0' => some '\x00'
  | 'a' => some '\x07'
  | 'b' => some '\x08'
  | 't' | '\t' => some '\t'
  | 'n' => some '\n'
  | 'v' => some '\x0b'
  | 'f' => some '\x0c'
  | 'r' => some '\r'
  | 'e' => some '\x1b'
  | ' ' => some ' '
  | '"' => some '"'
  | '/' => some '/'
  | '\\' => some '\\'
  | 'N' => some '\x85'
  | '_' => some '\xa0'
  | 'L' => some '\u2028'
  | 'P' => some '\u2029'
  | _ => none

/-- The number of hexadecimal digits after the letter of an escape. -/
def escapeDigits? : Char → Option Nat
  | 'x' => some 2
  | 'u' => some 4
  | 'U' => some 8
  | _ => none

/-- The character of a code point. -/
def charOfCode? (code : Nat) : Option Char :=
  if h : code.isValidChar then some (Char.ofNatAux code h) else none

/-- Where the reader of a scalar in double quotes stands. -/
inductive Escape where
  | outside
  /-- After the backslash. -/
  | started
  /-- Among hexadecimal digits: how many are still to come after the next, and their value. -/
  | digits (missing value : Nat)

/-- Read on in a scalar in double quotes. -/
def doubleFrom (collected : List Char) (gap : Gap) (escape : Escape) :
    Text → Option (List Char × Text)
  | [] => none
  | p :: rest =>
    match escape with
    | .outside =>
      if Text.atMarker (p :: rest) then none
      else if isBlank p.char then doubleFrom collected (gap.addBlank p.char) .outside rest
      else if isBreak p.char then doubleFrom collected (gap.addBreak p.char) .outside rest
      else if p.char = '"' then some ((gap.onto collected).reverse, rest)
      else if p.char = '\\' then doubleFrom (gap.onto collected) .none .started rest
      else doubleFrom (p.char :: gap.onto collected) .none .outside rest
    | .started =>
      if isBreak p.char then doubleFrom collected ⟨[], [], true⟩ .outside rest
      else match escaped? p.char, escapeDigits? p.char with
        | some c, _ => doubleFrom (c :: collected) .none .outside rest
        | none, some n => doubleFrom collected .none (.digits (n - 1) 0) rest
        | none, none => none
    | .digits missing value =>
      match hexValue? p.char with
      | none => none
      | some digit =>
        let value := 16 * value + digit
        match missing with
        | more + 1 => doubleFrom collected .none (.digits more value) rest
        | 0 => (charOfCode? value).bind fun c => doubleFrom (c :: collected) .none .outside rest

end HvacModel.Yaml
