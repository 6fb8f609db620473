import HvacModel.Value

/-! # Handles

A `Handle` is the position of an entry in one of the tables of a model.  The `Entity` in its type
says which table, so a component handle cannot be taken for a schedule handle.  A handle written
down must stay below `Handle.limit`. -/

namespace HvacModel

/-- The tables that handles point into. -/
inductive Entity where
  | component | system | loop | schedule | constructionSet | spaceType
deriving DecidableEq, Repr

/-- A zero-based position in the table of an entity. -/
structure Handle (entity : Entity) where
  index : Nat
deriving DecidableEq, Repr

namespace Handle

variable {entity : Entity}

/-- Handles are written in 32 bits, one pattern of which is not used. -/
def limit : Nat := 4294967295

/-- The message about an index beyond the limit. -/
def overflowMessage (index : Nat) : String :=
  "Arena index " ++ toString index ++ " does not fit in a handle"

/-- The handle of a position below the limit. -/
def ofIndex? (index : Nat) : Option (Handle entity) := if index < limit then some ⟨index⟩ else none

/-- The entry that a handle points to. -/
def get? {α : Type} (h : Handle entity) (table : List α) : Option α := table[h.index]?

/-- Text of a handle. -/
def render (h : Handle entity) : String := toString h.index

/-- Text of a handle for people who trace a model. -/
def describe (h : Handle entity) : String := "Id(" ++ toString h.index ++ ")"

def encode (h : Handle entity) : Value := .ofNat h.index

def decode? : Value → Option (Handle entity)
  | .number n => (n.natBelow? UInt64.size).bind ofIndex?
  | _ => none

end Handle

end HvacModel
