import HvacModel.Document.Read.Fields

/-! # Reading the HVAC systems

A system holds system attributes, an availability schedule, air loops and plant loops.  A loop has
a supply side and a demand side, and nothing else; a missing inlet node of a plant loop is left to
the check of the loop's shape. -/

namespace HvacModel.Document.Read

open Report (whenSome collect)

/-- The part of a loop under a key that must be there. -/
def side {α : Type} (path : Path) (fields : List (String × Value)) (key : String)
    (read : Path → List (String × Value) → Reading (Option α)) : Reading (Option α) := do
  whenSome (← required path fields key) fun value => do
    whenSome (← object (path.child key) value) fun body => read (path.child key) body

/-- The supply path of an air loop. -/
def airSupply (path : Path) (fields : List (String × Value)) : Reading (Option (List String)) := do
  checkFields path ["outlet_node"] fields
  whenSome (← required path fields "outlet_node") fun outlet => do
    pure (some (← nameList (path.child "outlet_node") outlet))

/-- One branch of an air loop. -/
def branch (path : Path) (field : String × Value) : Reading (Option Branch) := do
  let components ← nameList (path.child field.1) field.2
  pure (some ⟨field.1, components⟩)

/-- The branches of an air loop. -/
def airDemand (path : Path) (fields : List (String × Value)) : Reading (Option (List Branch)) := do
  checkFields path ["branches"] fields
  whenSome (← required path fields "branches") fun value => do
    whenSome (← object (path.child "branches") value) fun branches => do
      pure (some (← collect (branch (path.child "branches")) branches))

/-- One air loop. -/
def airLoop (path : Path) (field : String × Value) : Reading (Option AirLoop) := do
  let path := path.child field.1
  whenSome (← object path field.2) fun fields => do
    checkFields path ["supply_components", "demand_components"] fields
    let supply ← side path fields "supply_components" airSupply
    let demand ← side path fields "demand_components" airDemand
    pure do
      let supply ← supply
      let demand ← demand
      some ⟨field.1, supply, demand⟩

/-- The kind of a plant loop. -/
def plantKind (path : Path) (fields : List (String × Value)) : Reading (Option LoopKind) := do
  whenSome (← requiredString path fields "plant_loop_type") fun text =>
    match (LoopKind.ofName? text).filter LoopKind.isPlant with
    | some kind => pure (some kind)
    | none => do
      issue (path.child "plant_loop_type") (.invalidLoopKind text)
      pure none

/-- The inlet node and the branches of a plant loop's supply side. -/
def plantSupply (path : Path) (fields : List (String × Value)) :
    Reading (Option (List String × List String)) := do
  checkFields path ["inlet_node", "branches"] fields
  let inlet ← whenSome (Value.field? fields "inlet_node") fun value => do
    pure (some (← nameList (path.child "inlet_node") value))
  whenSome (← required path fields "branches") fun branches => do
    pure (some (inlet.getD [], ← nameList (path.child "branches") branches))

/-- The components of a plant loop's demand side. -/
def plantDemand (path : Path) (fields : List (String × Value)) :
    Reading (Option (List String)) := do
  checkFields path ["branches"] fields
  whenSome (← required path fields "branches") fun branches => do
    pure (some (← nameList (path.child "branches") branches))

/-- One plant loop. -/
def plantLoop (path : Path) (field : String × Value) : Reading (Option PlantLoop) := do
  let path := path.child field.1
  whenSome (← object path field.2) fun fields => do
    checkFields path ["plant_loop_type", "supply_components", "demand_components"] fields
    let kind ← plantKind path fields
    let supply ← side path fields "supply_components" plantSupply
    let demand ← side path fields "demand_components" plantDemand
    pure do
      let (inlet, branches) ← supply
      let kind ← kind
      let demand ← demand
      some ⟨field.1, kind, inlet, branches, demand⟩

/-- One attribute of a system; the structural fields are read elsewhere. -/
def systemAttribute (path : Path) (field : String × Value) :
    Reading (Option (String × AttributeValue)) :=
  if field.1 ∈ ["air_loops", "plant_loops", "availability_schedule"] then pure none
  else match AttributeSpec.lookup systemAttributes field.1 with
  | some spec => entry field.1 (typedScalar (path.child field.1) spec.kind field.2)
  | none => do
    issue (path.child field.1) (.unknownField field.1)
    pure none

/-- A table of loops that may be missing. -/
def loops {α : Type} (path : Path) (fields : List (String × Value)) (key : String)
    (read : Path → String × Value → Reading (Option α)) : Reading (List α) := do
  let found ← whenSome (Value.field? fields key) fun value => do
    whenSome (← object (path.child key) value) fun table => do
      pure (some (← collect (read (path.child key)) table))
  pure (found.getD [])

/-- One HVAC system. -/
def system (path : Path) (field : String × Value) : Reading (Option System) := do
  let path := path.child field.1
  whenSome (← object path field.2) fun fields => do
    let attributes ← collect (systemAttribute path) fields
    let schedule ← whenSome (Value.field? fields "availability_schedule")
      (string (path.child "availability_schedule"))
    let airLoops ← loops path fields "air_loops" airLoop
    let plantLoops ← loops path fields "plant_loops" plantLoop
    pure (some ⟨field.1, airLoops, plantLoops, schedule, NameMap.ofList attributes⟩)

/-- The table of HVAC systems. -/
def systems (path : Path) (value : Value) : Reading (Option (List System)) := do
  whenSome (← object path value) fun fields => do
    pure (some (← collect (system path) fields))

end HvacModel.Document.Read
