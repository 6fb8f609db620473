import HvacModel.Document.Read.Fields

/-! # Reading the component table

A component has an object type of the catalog, values for attributes that the type declares, and
components of its own, read by the same rule at any depth.  Its name holds no point, because a
point separates the names of a path.  Without a known type there is no declaration to check the
values against, so they are passed over. -/

namespace HvacModel.Document.Read

open Report (whenSome collect)

/-- The type of a component. -/
def objectType (path : Path) (fields : List (String × Value)) : Reading (Option ObjectType) := do
  whenSome (← requiredString path fields "idd_object_type") fun text =>
    match ObjectType.ofName? text with
    | some type => pure (some type)
    | none => do
      issue (path.child "idd_object_type") (.unknownObjectType text)
      pure none

/-- One value of a component. -/
def componentValue (path : Path) (type : ObjectType) (field : String × Value) :
    Reading (Option (String × AttributeValue)) :=
  match type.declared? field.1 with
  | some spec => entry field.1 (typedScalar (path.child field.1) spec.kind field.2)
  | none => do
    issue (path.child field.1) (.unknownAttribute type field.1)
    pure none

/-- The values of a component. -/
def componentValues (path : Path) (type : Option ObjectType) (fields : List (String × Value)) :
    Reading (List (String × AttributeValue)) := do
  let found ← whenSome (Value.field? fields "component_values") fun value => do
    whenSome (← object (path.child "component_values") value) fun values =>
      whenSome type fun type => do
        pure (some (← collect (componentValue (path.child "component_values") type) values))
  pure (found.getD [])

/-- A name without a point. -/
def plainName (path : Path) (name : String) : Reading Bool :=
  if name.toList.contains '.' then do
    issue path (.dottedComponentName name)
    pure false
  else pure true

mutual

/-- One component of a name, at its place. -/
def component (path : Path) (name : String) (value : Value) : Reading (Option Component) :=
  match value with
  | .object fields => do
    let plain ← plainName path name
    checkFields path ["idd_object_type", "component_values", "sub_components"] fields
    let type ← objectType path fields
    let values ← componentValues path type fields
    let subs ← ownedComponents path fields
    pure (if plain then type.map fun type => .mk name type (NameMap.ofList values) subs else none)
  | other => do mismatch path .object other; pure none

/-- The components that a component owns, from the entry of its fields that lists them. -/
def ownedComponents (path : Path) (fields : List (String × Value)) : Reading (List Component) :=
  match fields with
  | [] => pure []
  | (key, value) :: rest =>
    if key = "sub_components" then ownedTable (path.child key) value
    else ownedComponents path rest

/-- A table of owned components. -/
def ownedTable (path : Path) (value : Value) : Reading (List Component) :=
  match value with
  | .object table => componentList path table
  | other => do mismatch path .object other; pure []

/-- The components of a table. -/
def componentList (path : Path) (table : List (String × Value)) : Reading (List Component) :=
  match table with
  | [] => pure []
  | (name, value) :: rest => do
    let c ← component (path.child name) name value
    let cs ← componentList path rest
    pure (c.toList ++ cs)

end

/-- The table of components. -/
def components (path : Path) (value : Value) : Reading (Option (List Component)) := do
  whenSome (← object path value) fun table => do
    pure (some (← componentList path table))

end HvacModel.Document.Read
