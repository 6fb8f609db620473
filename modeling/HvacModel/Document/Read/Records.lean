import HvacModel.Document.Read.Fields

/-! # Reading the sets and records

Construction sets and space types carry the key of a building archetype; the run settings and the
building name what they refer to.  All other fields of these records are attributes. -/

namespace HvacModel.Document.Read

open Report (whenSome collect)

/-- The fields of an archetype key. -/
def archetypeFields : List String :=
  ["base_building_type", "building_age", "climate_zone", "building_standard"]

/-- The archetype key of a record. -/
def archetypeKey (path : Path) (fields : List (String × Value)) :
    Reading (Option ArchetypeKey) := do
  let buildingType ← requiredString path fields "base_building_type"
  let age ← requiredInteger path fields "building_age"
  let zone ← requiredString path fields "climate_zone"
  let standard ← requiredString path fields "building_standard"
  pure do
    let buildingType ← buildingType
    let age ← age
    let zone ← zone
    let standard ← standard
    some ⟨buildingType, age, zone, standard⟩

/-- One construction set. -/
def constructionSet (path : Path) (field : String × Value) : Reading (Option ConstructionSet) := do
  let path := path.child field.1
  whenSome (← object path field.2) fun fields => do
    let archetype ← archetypeKey path fields
    let attributes ← openAttributes path archetypeFields fields
    pure (archetype.map fun archetype => ⟨field.1, archetype, attributes⟩)

/-- The table of construction sets. -/
def constructionSets (path : Path) (value : Value) : Reading (Option (List ConstructionSet)) := do
  whenSome (← object path value) fun fields => do
    pure (some (← collect (constructionSet path) fields))

/-- One space type. -/
def spaceType (path : Path) (field : String × Value) : Reading (Option SpaceType) := do
  let path := path.child field.1
  whenSome (← object path field.2) fun fields => do
    let base ← requiredString path fields "base_space_type"
    let archetype ← archetypeKey path fields
    let attributes ← openAttributes path ("base_space_type" :: archetypeFields) fields
    pure do
      let base ← base
      let archetype ← archetype
      some ⟨field.1, base, archetype, attributes⟩

/-- The table of space types. -/
def spaceTypes (path : Path) (value : Value) : Reading (Option (List SpaceType)) := do
  whenSome (← object path value) fun fields => do
    pure (some (← collect (spaceType path) fields))

/-- The fields of the run settings that are not attributes. -/
def runInfoFields : List String :=
  ["uuid", "output_location", "temp_sim_location", "simulation_year", "timestep"]

/-- The run settings. -/
def runInfo (path : Path) (value : Value) : Reading (Option RunInfo) := do
  whenSome (← object path value) fun fields => do
    let uuid ← requiredString path fields "uuid"
    let output ← requiredString path fields "output_location"
    let temp ← requiredString path fields "temp_sim_location"
    let year ← requiredInteger path fields "simulation_year"
    let timestep ← requiredInteger path fields "timestep"
    let extra ← openAttributes path runInfoFields fields
    pure do
      let uuid ← uuid
      let output ← output
      let temp ← temp
      let year ← year
      let timestep ← timestep
      some ⟨uuid, output, temp, year, timestep, extra⟩

/-- The fields of the building that are not attributes. -/
def buildingFields : List String := ["space_type", "construction_set", "hvac_system"]

/-- The building. -/
def buildingInfo (path : Path) (value : Value) : Reading (Option BuildingInfo) := do
  whenSome (← object path value) fun fields => do
    let spaceType ← requiredString path fields "space_type"
    let constructionSet ← requiredString path fields "construction_set"
    let system ← requiredString path fields "hvac_system"
    let geometry ← openAttributes path buildingFields fields
    pure do
      let spaceType ← spaceType
      let constructionSet ← constructionSet
      let system ← system
      some ⟨spaceType, constructionSet, system, geometry⟩

end HvacModel.Document.Read
