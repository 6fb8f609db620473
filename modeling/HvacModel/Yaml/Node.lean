import HvacModel.Value
import HvacModel.Decimal.Layout

/-! # YAML values

A `Node` is a value of YAML's own data model, which knows more than `Value`: keys may be values of
any kind, doubles need not be finite, and a value may carry a tag.  `Node.same` is the equality by
which the keys of one mapping are distinct.

`Node.toValue?` takes a node to the common data model.  Keys that are numbers or booleans become
their text, so keys that are distinct in YAML may meet there; then the entry keeps its first
position and takes the last value.  Other keys have no counterpart. -/

namespace HvacModel.Yaml

/-- A YAML value. -/
inductive Node where
  | null
  | bool (b : Bool)
  | number (n : Number)
  | string (s : String)
  | sequence (items : List Node)
  | mapping (entries : List (Node × Node))
  /-- A value under a tag, which is written without its `!`. -/
  | tagged (tag : String) (node : Node)

namespace Node

instance : Inhabited Node := ⟨null⟩

/-- Equality of numbers as keys: the zeros are one key, and so are all doubles that are no
number. -/
def sameNumber : Number → Number → Bool
  | .int a, .int b => a = b
  | .float x, .float y => (x.isNaN && y.isNaN) || x == y
  | _, _ => false

/-- A tag without a `!` at its start, unless that is all of it. -/
def bareTag (tag : String) : String :=
  match tag.toList with
  | '!' :: c :: rest => String.ofList (c :: rest)
  | _ => tag

mutual

/-- Equality of keys; the order of a mapping does not count. -/
def same : Node → Node → Bool
  | null, null => true
  | bool a, bool b => a == b
  | number a, number b => sameNumber a b
  | string a, string b => a == b
  | sequence a, sequence b => sameItems a b
  | mapping a, mapping b => a.length == b.length && within a b
  | tagged s a, tagged t b => bareTag s == bareTag t && same a b
  | _, _ => false

def sameItems : List Node → List Node → Bool
  | [], [] => true
  | a :: as, b :: bs => same a b && sameItems as bs
  | _, _ => false

/-- Whether every entry is an entry of another mapping. -/
def within : List (Node × Node) → List (Node × Node) → Bool
  | [], _ => true
  | (k, v) :: rest, entries =>
    (entries.any fun e => same k e.1 && same v e.2) && within rest entries

end

/-! ### The common data model -/

/-- The text of a key. -/
def keyText? : Node → Option String
  | string s => some s
  | bool b => some (if b then "true" else "false")
  | number (.int i) => some (toString i)
  | number (.float x) => if x.isFinite then some (Decimal.Layout.json.render x) else none
  | _ => none

mutual

/-- The value of a node in the common data model. -/
def toValue? : Node → Option Value
  | null => some .null
  | bool b => some (.bool b)
  | number (.int i) => some (.number (.int i))
  | number (.float x) => some (.ofFloat x)
  | string s => some (.string s)
  | sequence items => (valuesOf? items).map .array
  | mapping entries => (fieldsOf? entries).map .ofEntries
  | tagged tag node => do
    let value ← toValue? node
    some (.object [("!" ++ bareTag tag, value)])

def valuesOf? : List Node → Option (List Value)
  | [] => some []
  | n :: rest => do
    let value ← toValue? n
    let values ← valuesOf? rest
    some (value :: values)

/-- The entries of a mapping under the texts of their keys. -/
def fieldsOf? : List (Node × Node) → Option (List (String × Value))
  | [] => some []
  | (k, v) :: rest => do
    let key ← keyText? k
    let value ← toValue? v
    let fields ← fieldsOf? rest
    some ((key, value) :: fields)

end

end Node

end HvacModel.Yaml
