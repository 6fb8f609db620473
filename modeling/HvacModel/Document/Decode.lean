import HvacModel.Document.Basic

/-! # Documents from raw values

`Document.decode?` reads the serialized form back.  A record may be an object, whose other entries
are passed over, or an array of its fields in their order.  A field with a default may be missing
in an object, and at the end of an array; an optional field may be missing in an object, where it
counts as `null`.  A name of an enumeration may also stand as the only key of an object, over
`null`. -/

namespace HvacModel.Document

/-! ### Records -/

/-- The entries of a record: those of an object, or the items of an array under the declared
names.  A name marked `true` may be missing at the end of the array. -/
def recordFields? (declared : List (String × Bool)) : Value → Option (List (String × Value))
  | .object fields => some fields
  | .array items =>
    if items.length ≤ declared.length ∧ (declared.drop items.length).all Prod.snd then
      some ((declared.map Prod.fst).zip items)
    else none
  | _ => none

/-- A field that must be there. -/
def field {α : Type} (decode : Value → Option α) (fields : List (String × Value))
    (key : String) : Option α :=
  (Value.field? fields key).bind decode

/-- A field with a default. -/
def fieldOr {α : Type} (default : α) (decode : Value → Option α)
    (fields : List (String × Value)) (key : String) : Option α :=
  match Value.field? fields key with
  | some value => decode value
  | none => some default

/-- An optional field. -/
def optionalField {α : Type} (decode : Value → Option α) (fields : List (String × Value))
    (key : String) : Option (Option α) :=
  match Value.field? fields key with
  | none | some .null => some none
  | some value => (decode value).map some

/-! ### Scalars and lists -/

def listOf? {α : Type} (decode : Value → Option α) (value : Value) : Option (List α) :=
  value.items?.bind fun items => items.mapM decode

/-- The name of an enumeration's member. -/
def memberName? : Value → Option String
  | .string name => some name
  | .object [(name, .null)] => some name
  | _ => none

def memberOf? {α : Type} (ofName? : String → Option α) (value : Value) : Option α :=
  (memberName? value).bind ofName?

def float? : Value → Option Float
  | .number n => some n.toFloat
  | _ => none

def integer? : Value → Option Int
  | .number n => n.integer?
  | _ => none

/-- A position in a list. -/
def position? : Value → Option Nat
  | .number n => n.natBelow? UInt64.size
  | _ => none

/-! ### Records of a document -/

def Measure.decode? (value : Value) : Option Measure := do
  let fields ← recordFields? [("category", false), ("overrides", false)] value
  some ⟨← field (memberOf? MeasureCategory.ofName?) fields "category",
    ← field Attributes.decode? fields "overrides"⟩

def Branch.decode? (value : Value) : Option Branch := do
  let fields ← recordFields? [("name", false), ("components", false)] value
  some ⟨← field Value.string? fields "name", ← field (listOf? Value.string?) fields "components"⟩

def AirLoop.decode? (value : Value) : Option AirLoop := do
  let fields ←
    recordFields? [("name", false), ("supply", false), ("demand_branches", false)] value
  some ⟨← field Value.string? fields "name", ← field (listOf? Value.string?) fields "supply",
    ← field (listOf? Branch.decode?) fields "demand_branches"⟩

def PlantLoop.decode? (value : Value) : Option PlantLoop := do
  let fields ← recordFields? [("name", false), ("kind", false), ("inlet_node", true),
    ("supply_branches", false), ("demand_branches", false)] value
  some ⟨← field Value.string? fields "name", ← field (memberOf? LoopKind.ofName?) fields "kind",
    ← fieldOr [] (listOf? Value.string?) fields "inlet_node",
    ← field (listOf? Value.string?) fields "supply_branches",
    ← field (listOf? Value.string?) fields "demand_branches"⟩

def System.decode? (value : Value) : Option System := do
  let fields ← recordFields? [("name", false), ("air_loops", true), ("plant_loops", true),
    ("availability_schedule", true), ("attributes", true)] value
  some ⟨← field Value.string? fields "name",
    ← fieldOr [] (listOf? AirLoop.decode?) fields "air_loops",
    ← fieldOr [] (listOf? PlantLoop.decode?) fields "plant_loops",
    ← optionalField Value.string? fields "availability_schedule",
    ← fieldOr .empty Attributes.decode? fields "attributes"⟩

/-- The fields of a component, in their order. -/
def componentFields : List (String × Bool) :=
  [("name", false), ("object_type", false), ("attributes", true), ("sub_components", true)]

/-- A component but for the components that it owns. -/
def componentHead? (fields : List (String × Value)) :
    Option (List Component → Component) := do
  some (.mk (← field Value.string? fields "name")
    (← field (memberOf? ObjectType.ofName?) fields "object_type")
    (← fieldOr .empty Attributes.decode? fields "attributes"))

mutual

def Component.decode? (value : Value) : Option Component :=
  match value with
  | .object fields => do
    let head ← componentHead? fields
    let subs ← Component.decodeOwned? fields
    some (head subs)
  | .array items => do
    let fields ← recordFields? componentFields (.array items)
    let head ← componentHead? fields
    let subs ← Component.decodeFourth? 3 items
    some (head subs)
  | _ => none

/-- The owned components among the entries of an object. -/
def Component.decodeOwned? (fields : List (String × Value)) : Option (List Component) :=
  match fields with
  | [] => some []
  | (key, value) :: rest =>
    if key = "sub_components" then Component.decodeTable? value else Component.decodeOwned? rest

/-- The owned components at a position of an array. -/
def Component.decodeFourth? (skip : Nat) (items : List Value) : Option (List Component) :=
  match items with
  | [] => some []
  | value :: rest =>
    if skip = 0 then Component.decodeTable? value else Component.decodeFourth? (skip - 1) rest

/-- A table of components. -/
def Component.decodeTable? (value : Value) : Option (List Component) :=
  match value with
  | .array items => Component.decodeList? items
  | _ => none

def Component.decodeList? (items : List Value) : Option (List Component) :=
  match items with
  | [] => some []
  | value :: rest => do
    let c ← Component.decode? value
    let cs ← Component.decodeList? rest
    some (c :: cs)

end

/-- A time and a number. -/
def breakpoint? : Value → Option (TimeOfDay × Float)
  | .array [time, x] => do some (← TimeOfDay.decode? time, ← float? x)
  | _ => none

def decodeDay? (value : Value) : Option DayProfile := do
  let fields ← recordFields? [("key", false), ("name", false), ("values", false)] value
  some ⟨← field Value.string? fields "key", ← field Value.string? fields "name",
    ← field (listOf? breakpoint?) fields "values"⟩

def DayRef.decode? : Value → Option DayRef
  | .object [("Inline", index)] => (position? index).map inline
  | .object [("Named", key)] => key.string?.map named
  | _ => none

def Rule.decode? (value : Value) : Option Rule := do
  let fields ← recordFields? [("key", false), ("name", false), ("applies_to", false),
    ("day_schedule", false)] value
  some ⟨← field Value.string? fields "key", ← field Value.string? fields "name",
    ← field WeekdaySet.decode? fields "applies_to", ← field DayRef.decode? fields "day_schedule"⟩

def Schedule.decode? (value : Value) : Option Schedule := do
  let fields ← recordFields? [("key", false), ("name", false), ("days", false),
    ("default_day", false), ("summer_design_day", false), ("winter_design_day", false),
    ("rules", true)] value
  some
    { key := ← field Value.string? fields "key"
      name := ← field Value.string? fields "name"
      days := ← field (listOf? decodeDay?) fields "days"
      defaultDay := ← optionalField position? fields "default_day"
      summerDesignDay := ← optionalField position? fields "summer_design_day"
      winterDesignDay := ← optionalField position? fields "winter_design_day"
      rules := ← fieldOr [] (listOf? Rule.decode?) fields "rules" }

def ArchetypeKey.decode? (value : Value) : Option ArchetypeKey := do
  let fields ← recordFields? [("base_building_type", false), ("building_age", false),
    ("climate_zone", false), ("building_standard", false)] value
  some ⟨← field Value.string? fields "base_building_type", ← field integer? fields "building_age",
    ← field Value.string? fields "climate_zone",
    ← field Value.string? fields "building_standard"⟩

def ConstructionSet.decode? (value : Value) : Option ConstructionSet := do
  let fields ← recordFields? [("name", false), ("archetype", false), ("attributes", true)] value
  some ⟨← field Value.string? fields "name", ← field ArchetypeKey.decode? fields "archetype",
    ← fieldOr .empty Attributes.decode? fields "attributes"⟩

def SpaceType.decode? (value : Value) : Option SpaceType := do
  let fields ← recordFields? [("name", false), ("base_space_type", false), ("archetype", false),
    ("attributes", true)] value
  some ⟨← field Value.string? fields "name", ← field Value.string? fields "base_space_type",
    ← field ArchetypeKey.decode? fields "archetype",
    ← fieldOr .empty Attributes.decode? fields "attributes"⟩

def RunInfo.decode? (value : Value) : Option RunInfo := do
  let fields ← recordFields? [("uuid", false), ("output_location", false),
    ("temp_sim_location", false), ("simulation_year", false), ("timestep", false),
    ("extra", true)] value
  some ⟨← field Value.string? fields "uuid", ← field Value.string? fields "output_location",
    ← field Value.string? fields "temp_sim_location", ← field integer? fields "simulation_year",
    ← field integer? fields "timestep", ← fieldOr .empty Attributes.decode? fields "extra"⟩

def BuildingInfo.decode? (value : Value) : Option BuildingInfo := do
  let fields ← recordFields? [("space_type", false), ("construction_set", false),
    ("hvac_system", false), ("geometry", true)] value
  some ⟨← field Value.string? fields "space_type", ← field Value.string? fields "construction_set",
    ← field Value.string? fields "hvac_system",
    ← fieldOr .empty Attributes.decode? fields "geometry"⟩

/-- The document of a serialized form. -/
def decode? (value : Value) : Option Document := do
  let fields ← recordFields? [("measures", true), ("hvac", false), ("components", false),
    ("schedules", false), ("construction_sets", false), ("space_types", false),
    ("run_info", false), ("building_info", false)] value
  some
    { measures := ← fieldOr [] (listOf? Measure.decode?) fields "measures"
      systems := ← field (listOf? System.decode?) fields "hvac"
      components := ← field Component.decodeTable? fields "components"
      schedules := ← field (listOf? Schedule.decode?) fields "schedules"
      constructionSets := ← field (listOf? ConstructionSet.decode?) fields "construction_sets"
      spaceTypes := ← field (listOf? SpaceType.decode?) fields "space_types"
      runInfo := ← field RunInfo.decode? fields "run_info"
      buildingInfo := ← field BuildingInfo.decode? fields "building_info" }

end HvacModel.Document
