import HvacModel.Report
import HvacModel.Document.Issue

/-! # Reading fields

A `Reading` is a value with the issues of the document met on the way to it.  The readers here take
the place of a value along with the value, and report at that place what is wrong there. -/

namespace HvacModel.Document

/-- A value and the issues met on the way to it. -/
abbrev Reading (α : Type) := Report Issue α

namespace Read

open Report (whenSome collect)

/-- One issue. -/
def issue (path : Path) (kind : IssueKind) : Reading Unit := Report.tell ⟨path, kind⟩

/-- A value of the wrong kind. -/
def mismatch (path : Path) (expected : Expectation) (found : Value) : Reading Unit :=
  issue path (.typeMismatch expected found.kind)

/-! ### Scalars -/

/-- The entries of an object. -/
def object (path : Path) (value : Value) : Reading (Option (List (String × Value))) :=
  match value with
  | .object fields => pure (some fields)
  | other => do mismatch path .object other; pure none

def string (path : Path) (value : Value) : Reading (Option String) :=
  match value with
  | .string s => pure (some s)
  | other => do mismatch path .string other; pure none

def number (path : Path) (value : Value) : Reading (Option Float) :=
  match value with
  | .number n => pure (some n.toFloat)
  | other => do mismatch path .number other; pure none

/-- A number written as an integer of 64 bits. -/
def integer (path : Path) (value : Value) : Reading (Option Int) :=
  match value with
  | .number n =>
    match n.integer? with
    | some i => pure (some i)
    | none => do mismatch path .integer value; pure none
  | other => do mismatch path .integer other; pure none

def boolean (path : Path) (value : Value) : Reading (Option Bool) :=
  match value with
  | .bool b => pure (some b)
  | other => do mismatch path .boolean other; pure none

/-! ### Fields of an object -/

/-- An issue for every entry whose key is not allowed. -/
def checkFields (path : Path) (allowed : List String) : List (String × Value) → Reading Unit
  | [] => pure ()
  | (key, _) :: rest => do
    if key ∈ allowed then pure () else issue (path.child key) (.unknownField key)
    checkFields path allowed rest

/-- The value of a key that must be there. -/
def required (path : Path) (fields : List (String × Value)) (key : String) :
    Reading (Option Value) :=
  match Value.field? fields key with
  | some value => pure (some value)
  | none => do issue path (.missingField key); pure none

/-- A string that must be there. -/
def requiredString (path : Path) (fields : List (String × Value)) (key : String) :
    Reading (Option String) := do
  whenSome (← required path fields key) (string (path.child key))

/-- An integer that must be there. -/
def requiredInteger (path : Path) (fields : List (String × Value)) (key : String) :
    Reading (Option Int) := do
  whenSome (← required path fields key) (integer (path.child key))

/-- The `name` of an entry; without one the key serves. -/
def nameOr (path : Path) (fields : List (String × Value)) (key : String) : Reading String := do
  let name ← whenSome (Value.field? fields "name") (string (path.child "name"))
  pure (name.getD key)

/-- The names in an array, from a position on. -/
def names (path : Path) (position : Nat) : List Value → Reading (List String)
  | [] => pure []
  | value :: rest => do
    let name ← string (path.item position) value
    let more ← names path (position + 1) rest
    pure (name.toList ++ more)

/-- A single name or a list of names. -/
def nameList (path : Path) (value : Value) : Reading (List String) :=
  match value with
  | .string s => pure [s]
  | .array items => names path 0 items
  | other => do mismatch path .nameList other; pure []

/-! ### Attributes -/

def scalar (path : Path) (value : Value) : Reading (Option AttributeValue) :=
  match AttributeValue.ofValue? value with
  | some v => pure (some v)
  | none => do mismatch path .scalar value; pure none

/-- A scalar of a declared kind. -/
def typedScalar (path : Path) (kind : AttributeKind) (value : Value) :
    Reading (Option AttributeValue) := do
  whenSome (← scalar path value) fun v =>
    if v.kind = kind then pure (some v)
    else do mismatch path (.ofKind kind) value; pure none

/-- The entry under a key that a reader finds there. -/
def entry {α : Type} (key : String) (read : Reading (Option α)) :
    Reading (Option (String × α)) := do
  let value ← read
  pure (value.map fun v => (key, v))

/-- Attributes under any names, except for the named fields. -/
def openAttributes (path : Path) (except : List String) (fields : List (String × Value)) :
    Reading Attributes := do
  let entries ← collect
    (fun f => if f.1 ∈ except then pure none else entry f.1 (scalar (path.child f.1) f.2)) fields
  pure (NameMap.ofList entries)

end Read

end HvacModel.Document
