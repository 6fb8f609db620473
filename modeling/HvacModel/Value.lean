import HvacModel.Decimal.Nearest

/-! # Raw configuration values

A configuration arrives as a tree of `Value`s: the common data model of the two text formats.
Objects are association lists in declaration order, because the order of a table is the order of
its handles.  `Value.insertField` is what a reader does with a repeated key: the entry keeps its
first position and takes the last value, so objects built with it have distinct keys
(`keys_insertField`).

A `Number` is an integer or a double.  The distinction is visible: `Number.integer?` refuses every
double, also one without a fractional part, and every integer beyond 64 bits with sign. -/

namespace HvacModel

/-- A number as it was written: an integer of at most 64 bits, or a double. -/
inductive Number where
  | int (i : Int)
  | float (x : Float)
deriving DecidableEq

namespace Number

/-- The number as a double; an integer is rounded to the nearest one. -/
def toFloat : Number → Float
  | int i => Decimal.ofInt i
  | float x => x

/-- The number as a signed 64-bit integer. -/
def integer? : Number → Option Int
  | int i => if Int64.minValue.toInt ≤ i ∧ i ≤ Int64.maxValue.toInt then some i else none
  | float _ => none

/-- The number as a natural number below a bound. -/
def natBelow? (bound : Nat) : Number → Option Nat
  | int (.ofNat n) => if n < bound then some n else none
  | _ => none

end Number

/-- A raw value. -/
inductive Value where
  | null
  | bool (b : Bool)
  | number (n : Number)
  | string (s : String)
  | array (items : List Value)
  | object (fields : List (String × Value))

/-- The kinds a raw value may have. -/
inductive Value.Kind where
  | null | boolean | number | string | array | object
deriving DecidableEq, Repr

/-- The name of a kind in messages. -/
def Value.Kind.name : Value.Kind → String
  | null => "null"
  | boolean => "boolean"
  | number => "number"
  | string => "string"
  | array => "array"
  | object => "object"

namespace Value

instance : Inhabited Value := ⟨null⟩

/-- The kind of a value. -/
def kind : Value → Kind
  | null => .null
  | bool _ => .boolean
  | number _ => .number
  | string _ => .string
  | array _ => .array
  | object _ => .object

/-- The entries of an object. -/
def fields? : Value → Option (List (String × Value))
  | object fields => some fields
  | _ => none

def string? : Value → Option String
  | string s => some s
  | _ => none

def items? : Value → Option (List Value)
  | array items => some items
  | _ => none

/-- A double as a value: only a finite one is a number. -/
def ofFloat (x : Float) : Value := if x.isFinite then number (.float x) else null

/-- A natural number as a value. -/
def ofNat (n : Nat) : Value := number (.int n)

/-- An optional value, absence as `null`. -/
def ofOption {α : Type} (f : α → Value) : Option α → Value
  | some a => f a
  | none => null

/-- A list as an array. -/
def ofList {α : Type} (f : α → Value) (items : List α) : Value := array (items.map f)

/-- Add an entry; a key that is there keeps its position and takes the new value. -/
def insertField (fields : List (String × Value)) (key : String) (value : Value) :
    List (String × Value) :=
  match fields with
  | [] => [(key, value)]
  | (k, v) :: rest =>
    if k = key then (k, value) :: rest else (k, v) :: insertField rest key value

/-- The object of a sequence of entries, repeated keys merged. -/
def ofEntries (entries : List (String × Value)) : Value :=
  object (entries.foldl (fun fields entry => insertField fields entry.1 entry.2) [])

/-! ### Keys -/

theorem keys_insertField (fields : List (String × Value)) (key : String) (value : Value) :
    (insertField fields key value).map Prod.fst =
      if key ∈ fields.map Prod.fst then fields.map Prod.fst else fields.map Prod.fst ++ [key] := by
  induction fields with
  | nil => simp [insertField]
  | cons entry rest ih =>
    obtain ⟨k, v⟩ := entry
    by_cases h : k = key
    · simp [insertField, h]
    · have h' : key ≠ k := fun e => h e.symm
      by_cases hm : key ∈ rest.map Prod.fst
      · rw [if_pos hm] at ih
        simp [insertField, h, ih, hm]
      · rw [if_neg hm] at ih
        simp [insertField, h, ih, h', hm]

/-- The value of a key. -/
def field? (fields : List (String × Value)) (key : String) : Option Value := fields.lookup key

/-- Looking up the inserted key gives the inserted value. -/
theorem field?_insertField (fields : List (String × Value)) (key : String) (value : Value) :
    field? (insertField fields key value) key = some value := by
  induction fields with
  | nil => simp [insertField, field?]
  | cons entry rest ih =>
    obtain ⟨k, v⟩ := entry
    by_cases h : k = key
    · simp [insertField, field?, h]
    · have h' : (key == k) = false := by simpa using fun e => h e.symm
      simp only [field?] at ih
      simp [insertField, field?, h, List.lookup_cons, h', ih]

end Value

end HvacModel
