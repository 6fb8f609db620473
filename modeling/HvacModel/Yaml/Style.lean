import HvacModel.Yaml.Scalar

/-! # How strings are written in YAML

A string with a line feed becomes a literal block, any other one stands plain if it reads back as
the same string, and in single quotes otherwise.  Where the wanted style cannot hold the string,
the next one can: single quotes hold what no plain scalar may, and double quotes hold everything.

`ScalarStyle.of` decides, `ScalarStyle.text` writes. -/

namespace HvacModel.Yaml

/-- The ways to write a string. -/
inductive ScalarStyle where
  | plain | single | double | literal
deriving DecidableEq, Repr

namespace ScalarStyle

/-! ### What a string holds -/

/-- Characters that any reader takes for the end of a line. -/
def endsLine (c : Char) : Bool :=
  c = '\n' || c = '\r' || c = '\x85' || c = '\u2028' || c = '\u2029'

/-- Characters that separate words. -/
def isSpacing (c : Char) : Bool := c = ' ' || c = '\t' || endsLine c

/-- Characters that need no escape. -/
def isPrintable (c : Char) : Bool :=
  c = '\n' || (' ' ≤ c && c ≤ '~') || ('\xa0' ≤ c && c.toNat ≤ 0xD7FF) ||
    (0xE000 ≤ c.toNat && c.toNat ≤ 0xFFFD && c ≠ '\ufeff') || 0x10000 ≤ c.toNat

/-- Whether two neighbours satisfy a relation. -/
def hasNeighbours (related : Char → Char → Bool) : List Char → Bool
  | a :: b :: rest => related a b || hasNeighbours related (b :: rest)
  | _ => false

/-- Characters that no plain scalar starts with. -/
def startsOther (c : Char) : Bool :=
  c = '#' || c = ',' || c = '[' || c = ']' || c = '\x7b' || c = '\x7d' || c = '&' || c = '*' ||
    c = '!' || c = '|' || c = '>' || c = '\'' || c = '"' || c = '%' || c = '@' || c.toNat = 0x60

/-- Whether the first characters are those of something else than a plain scalar. -/
def startsIndicator : List Char → Bool
  | '-' :: '-' :: '-' :: _ | '.' :: '.' :: '.' :: _ => true
  | c :: rest => startsOther c || ((c = '?' || c = ':' || c = '-') && rest.head?.all isSpacing)
  | [] => false

/-- Whether a colon ends a word, as after a key. -/
def holdsKey (cs : List Char) : Bool :=
  cs.getLast? = some ':' || hasNeighbours (fun a b => a = ':' && isSpacing b) cs

/-- Whether a comment starts after a word. -/
def holdsComment (cs : List Char) : Bool := hasNeighbours (fun a b => isSpacing a && b = '#') cs

/-- Blanks next to the end of a line, which folding would take away. -/
def spaceAfterBreak (cs : List Char) : Bool := hasNeighbours (fun a b => endsLine a && b = ' ') cs

def spaceBeforeBreak (cs : List Char) : Bool := hasNeighbours (fun a b => a = ' ' && endsLine b) cs

/-- Whether double quotes are needed whatever the style. -/
def needsEscape (cs : List Char) : Bool := !cs.all isPrintable || spaceBeforeBreak cs

/-- Whether blanks or breaks stand at an end. -/
def hasEdges (cs : List Char) : Bool :=
  let edge := fun c => c = ' ' || endsLine c
  cs.head?.any edge || cs.getLast?.any edge

/-! ### The choice -/

/-- Whether a plain scalar can hold the characters. -/
def allowsPlain (cs : List Char) : Bool :=
  !cs.isEmpty && !hasEdges cs && !needsEscape cs && !cs.any endsLine && !startsIndicator cs &&
    !holdsKey cs && !holdsComment cs

/-- Whether single quotes can hold the characters. -/
def allowsSingle (cs : List Char) : Bool := !needsEscape cs && !spaceAfterBreak cs

/-- Whether a literal block can hold the characters. -/
def allowsLiteral (cs : List Char) : Bool :=
  !cs.isEmpty && !needsEscape cs && cs.getLast? ≠ some ' '

/-- Whether a plain scalar of this text is the string itself. -/
def readsAsString (s : String) : Bool :=
  match Scalar.plain s with
  | .node (.string _) => !Scalar.isPaddedDigits s.toList
  | _ => false

/-- The style of a string. -/
def of (s : String) : ScalarStyle :=
  let cs := s.toList
  if cs.contains '\n' then if allowsLiteral cs then literal else double
  else if readsAsString s && allowsPlain cs then plain
  else if allowsSingle cs then single
  else double

/-! ### The text -/

/-- `n` blanks. -/
def blanks (n : Nat) : List Char := List.replicate n ' '

/-- Characters in single quotes after the first quote; a new line is indented. -/
def singleText (indent : Nat) (broken : Bool) : List Char → List Char
  | [] => (if broken then blanks indent else []) ++ ['\'']
  | c :: rest =>
    if endsLine c then c :: singleText indent true rest
    else if c = ' ' then ' ' :: singleText indent broken rest
    else (if broken then blanks indent else []) ++ (if c = '\'' then ['\'', '\''] else [c]) ++
      singleText indent false rest

/-- A hexadecimal digit in upper case. -/
def hexChar (n : Nat) : Char := if n < 10 then Char.ofNat (48 + n) else Char.ofNat (55 + n)

/-- The last hexadecimal digits of a number. -/
def hexDigits : Nat → Nat → List Char
  | 0, _ => []
  | width + 1, n => hexDigits width (n / 16) ++ [hexChar (n % 16)]

/-- The letter that stands for a character after a backslash. -/
def escapeLetter? : Char → Option Char
  | '\x00' => some '0'
  | '\x07' => some 'a'
  | '\x08' => some 'b'
  | '\t' => some 't'
  | '\n' => some 'n'
  | '\x0b' => some 'v'
  | '\x0c' => some 'f'
  | '\r' => some 'r'
  | '\x1b' => some 'e'
  | '"' => some '"'
  | '\\' => some '\\'
  | '\x85' => some 'N'
  | '\u2028' => some 'L'
  | '\u2029' => some 'P'
  | _ => none

/-- A character in double quotes. -/
def doubleChar (c : Char) : List Char :=
  match escapeLetter? c with
  | some letter => ['\\', letter]
  | none =>
    if isPrintable c then [c]
    else if c.toNat < 0x100 then '\\' :: 'x' :: hexDigits 2 c.toNat
    else if c.toNat < 0x10000 then '\\' :: 'u' :: hexDigits 4 c.toNat
    else '\\' :: 'U' :: hexDigits 8 c.toNat

/-- The lines of a literal block; its last line ends with a break in any case. -/
def literalLines (indent : Nat) (starts : Bool) : List Char → List Char
  | [] => if starts then [] else ['\n']
  | c :: rest =>
    if endsLine c then c :: literalLines indent true rest
    else (if starts then blanks indent else []) ++ c :: literalLines indent false rest

/-- The hint of a literal block about the breaks at its end. -/
def chomping (cs : List Char) : List Char :=
  match cs.reverse with
  | [] => ['-']
  | [c] => if endsLine c then ['+'] else ['-']
  | c :: d :: _ => if endsLine c then (if endsLine d then ['+'] else []) else ['-']

/-- The header of a literal block. -/
def literalHeader (cs : List Char) : List Char :=
  '|' :: (if cs.head?.any fun c => c = ' ' || endsLine c then ['2'] else []) ++ chomping cs

/-- A string in a style up to the end of its line, further lines at an indentation. -/
def text (style : ScalarStyle) (indent : Nat) (cs : List Char) : List Char :=
  match style with
  | plain => cs ++ ['\n']
  | single => '\'' :: singleText indent false cs ++ ['\n']
  | double => '"' :: cs.flatMap doubleChar ++ ['"', '\n']
  | literal => literalHeader cs ++ '\n' :: literalLines indent true cs

end ScalarStyle

end HvacModel.Yaml
