import HvacModel.Measure.Apply

/-! # What measures write

The attributes of the entities of a skeleton under measures, without any list of writes: the
overrides of a stage stand in one order (`stageOverrides`), the first that hits a place gives the
value of the stage (`firstWrite?`), and the last stage that gives one decides (`lastWrite?`).  What
measures leave alone is a skeleton without these attributes (`Skeleton.bare`). -/

namespace HvacModel

namespace Measure

/-! ### Entities -/

/-- The attributes of an entity, if there is such an entity. -/
def Entity.attributes? (skeleton : Skeleton) : Entity → Option Attributes
  | airLoop system index =>
    (skeleton.systems[system]?.bind fun s => s.airLoops[index]?).map Skeleton.AirLoop.attributes
  | component id => (skeleton.components.node? id).map ComponentNode.attributes

/-- Whether a target reaches an entity: a target on air loops reaches every air loop, a target on
equipment the components of its classes whose type declares the attribute. -/
def Target.reaches (skeleton : Skeleton) (target : Target) : Entity → Bool
  | .airLoop system index =>
    match target.scope with
    | .airLoops => (skeleton.systems[system]?.bind fun s => s.airLoops[index]?).isSome
    | .equipment _ => false
  | .component id =>
    match target.scope, skeleton.components.node? id with
    | .equipment classes, some n =>
      decide (n.type.equipmentClass ∈ classes) && (n.type.declared? target.name).isSome
    | _, _ => false

/-! ### Writes -/

/-- An override with the category it stands under. -/
structure Override where
  category : MeasureCategory
  key : String
  value : AttributeValue

/-- Whether an override writes to a place. -/
def Override.hits (skeleton : Skeleton) (o : Override) (place : Place) : Bool :=
  match target? o.category o.key with
  | some target => decide (target.name = place.name) && target.reaches skeleton place.entity
  | none => false

/-- The overrides of a stage, measure by measure in the order of the keys. -/
def stageOverrides (measures : List Document.Measure) (stage : List MeasureCategory) :
    List Override :=
  (measures.filter fun m => m.category ∈ stage).flatMap fun m =>
    m.overrides.entries.map fun e => ⟨m.category, e.1, e.2⟩

/-- The value that a stage writes to a place. -/
def firstWrite? (skeleton : Skeleton) (measures : List Document.Measure) (place : Place)
    (stage : List MeasureCategory) : Option AttributeValue :=
  ((stageOverrides measures stage).find? fun o => o.hits skeleton place).map Override.value

/-- The value that the last stage which writes to a place writes there. -/
def lastWrite? (skeleton : Skeleton) (measures : List Document.Measure)
    (stages : List (List MeasureCategory)) (place : Place) : Option AttributeValue :=
  (stages.filterMap (firstWrite? skeleton measures place)).getLast?

end Measure

namespace Skeleton

/-- A system without the attributes of its air loops. -/
def System.bare (s : System) : System :=
  { s with airLoops := s.airLoops.map fun l => { l with attributes := .empty } }

/-- A skeleton without the attributes of its components and air loops. -/
def bare (s : Skeleton) : Skeleton :=
  { s with
    components := s.components.mapAttributes fun _ => .empty
    systems := s.systems.map System.bare }

end Skeleton

end HvacModel
