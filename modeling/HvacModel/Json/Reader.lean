import HvacModel.Json.Token

/-! # Reading JSON text

`Json.read? depth text` is the value of a text whose containers nest at most `depth` deep.  The
tokens are taken one at a time; the open containers stand on a stack, the innermost on top, and
`Expected` says what may follow.  Every token either fills the innermost open place, opens a
container or closes one, so the reader is a fold over the tokens. -/

namespace HvacModel.Json

/-- An open container with what it holds so far. -/
inductive Frame where
  /-- Items in reverse. -/
  | array (items : List Value)
  /-- Entries in order, and the key that waits for its value. -/
  | object (fields : List (String × Value)) (key : String)

/-- What may follow. -/
inductive Expected where
  /-- A value. -/
  | value
  /-- A value or the end of the array just opened. -/
  | firstItem
  /-- A key or the end of the object just opened. -/
  | firstKey (fields : List (String × Value))
  /-- A key. -/
  | key (fields : List (String × Value))
  /-- The colon after a key. -/
  | colon (fields : List (String × Value)) (key : String)
  /-- A comma or the end of the innermost container. -/
  | separator
  /-- Nothing: the value is complete. -/
  | done (value : Value)

/-- The reader between two tokens. -/
structure Reading where
  stack : List Frame
  expected : Expected

/-- A complete value takes its place. -/
def Reading.place (stack : List Frame) (value : Value) : Reading :=
  match stack with
  | [] => ⟨[], .done value⟩
  | .array items :: outer => ⟨.array (value :: items) :: outer, .separator⟩
  | .object fields key :: outer =>
    ⟨.object (Value.insertField fields key value) key :: outer, .separator⟩

/-- The start of a value. -/
def Reading.begin (depth : Nat) (stack : List Frame) (token : Token) : Option Reading :=
  match token with
  | .scalar value => some (.place stack value)
  | .openArray => if stack.length < depth then some ⟨.array [] :: stack, .firstItem⟩ else none
  | .openObject => if stack.length < depth then some ⟨stack, .firstKey []⟩ else none
  | _ => none

/-- A key. -/
def Reading.takeKey (stack : List Frame) (fields : List (String × Value)) :
    Token → Option Reading
  | .scalar (.string key) => some ⟨stack, .colon fields key⟩
  | _ => none

/-- One token. -/
def Reading.step (depth : Nat) (r : Reading) (token : Token) : Option Reading :=
  match r.expected with
  | .value => Reading.begin depth r.stack token
  | .firstItem =>
    match token, r.stack with
    | .closeArray, .array items :: outer => some (.place outer (.array items.reverse))
    | token, stack => Reading.begin depth stack token
  | .firstKey fields =>
    match token with
    | .closeObject => some (.place r.stack (.object fields))
    | token => Reading.takeKey r.stack fields token
  | .key fields => Reading.takeKey r.stack fields token
  | .colon fields key =>
    match token with
    | .colon => some ⟨.object fields key :: r.stack, .value⟩
    | _ => none
  | .separator =>
    match token, r.stack with
    | .comma, .array _ :: _ => some ⟨r.stack, .value⟩
    | .comma, .object fields _ :: outer => some ⟨outer, .key fields⟩
    | .closeArray, .array items :: outer => some (.place outer (.array items.reverse))
    | .closeObject, .object fields _ :: outer => some (.place outer (.object fields))
    | _, _ => none
  | .done _ => none

/-- The value of a text whose containers nest at most `depth` deep. -/
def read? (depth : Nat) (text : String) : Option Value := do
  let tokens ← tokens? text
  let reading ← tokens.foldlM (Reading.step depth) ⟨[], .value⟩
  match reading.expected with
  | .done value => some value
  | _ => none

/-- The greatest nesting of a configuration text. -/
def configDepth : Nat := 127

end HvacModel.Json
