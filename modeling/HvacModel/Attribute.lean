import HvacModel.Value
import HvacModel.NameMap
import HvacModel.Decimal.Layout

/-! # Attributes

An attribute value is a flag, a number or a text; its `AttributeKind` is what a catalog entry
declares.  `Attributes` are maps from names, so their order is the order of the names whatever the
order in which they were written.

Two values are the same for a measure when `AttributeValue.same` holds: numbers are compared as
numbers, so the zeros agree and a value that is no number differs from itself. -/

namespace HvacModel

/-- The kinds of attribute values. -/
inductive AttributeKind where
  | number | text | flag
deriving DecidableEq, Repr

/-- The name of a kind in messages. -/
def AttributeKind.name : AttributeKind → String
  | number => "number"
  | text => "string"
  | flag => "boolean"

/-- The value of an attribute. -/
inductive AttributeValue where
  | flag (b : Bool)
  | number (x : Float)
  | text (s : String)
deriving DecidableEq

/-- A declared attribute. -/
structure AttributeSpec where
  name : String
  kind : AttributeKind
deriving DecidableEq, Repr

/-- The attributes of an entity. -/
abbrev Attributes := NameMap AttributeValue

namespace AttributeValue

instance : Inhabited AttributeValue := ⟨flag false⟩

def kind : AttributeValue → AttributeKind
  | flag _ => .flag
  | number _ => .number
  | text _ => .text

def number? : AttributeValue → Option Float
  | number x => some x
  | _ => none

def flag? : AttributeValue → Option Bool
  | flag b => some b
  | _ => none

def text? : AttributeValue → Option String
  | text s => some s
  | _ => none

/-- Equality of values as a measure sees it. -/
def same : AttributeValue → AttributeValue → Bool
  | flag a, flag b => a == b
  | number a, number b => a == b
  | text a, text b => a == b
  | _, _ => false

/-- The value in messages; a text stands in quotes. -/
def render : AttributeValue → String
  | flag b => if b then "true" else "false"
  | number x => Decimal.Layout.plain.render x
  | text s => "'" ++ s ++ "'"

/-- The attribute value of a raw scalar. -/
def ofValue? : Value → Option AttributeValue
  | .bool b => some (flag b)
  | .number n => some (number n.toFloat)
  | .string s => some (text s)
  | _ => none

/-- The raw value of an attribute value. -/
def encode : AttributeValue → Value
  | flag b => .bool b
  | number x => .ofFloat x
  | text s => .string s

end AttributeValue

namespace Attributes

/-- Attributes as a raw object, in the order of the names. -/
def encode (a : Attributes) : Value := .object (a.entries.map fun e => (e.1, e.2.encode))

/-- The attributes of a raw object of scalars. -/
def decode? : Value → Option Attributes
  | .object fields => do
    let entries ← fields.mapM fun f => (AttributeValue.ofValue? f.2).map fun v => (f.1, v)
    some (NameMap.ofList entries)
  | _ => none

end Attributes

namespace AttributeSpec

def number (name : String) : AttributeSpec := ⟨name, .number⟩

def text (name : String) : AttributeSpec := ⟨name, .text⟩

def flag (name : String) : AttributeSpec := ⟨name, .flag⟩

/-- The declaration of a name. -/
def lookup (specs : List AttributeSpec) (name : String) : Option AttributeSpec :=
  specs.find? fun spec => spec.name = name

end AttributeSpec

end HvacModel
