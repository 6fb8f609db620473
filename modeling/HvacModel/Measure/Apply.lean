import HvacModel.Measure.Target
import HvacModel.Skeleton.Basic

/-! # Applying measures

Measures are applied stage by stage.  Within a stage the first write to an attribute of an entity
holds; a later write of another value to the same place is a conflict.  Between stages the later
one holds.  `Skeleton.applyMeasures` gives the skeleton with all writes made, or all conflicts of
all stages.

A stage is planned on the skeleton before any write, so the stages do not see each other: a plan
is the list of all writes of a stage in order (`stageWrites`), of which `settle` keeps the first to
each place. -/

namespace HvacModel

namespace Measure

/-- An entity that has attributes. -/
inductive Entity where
  /-- An air loop by the position of its system and its position there. -/
  | airLoop (system index : Nat)
  | component (id : Handle .component)
deriving DecidableEq, Repr

/-- The key that a write comes from. -/
structure Source where
  category : MeasureCategory
  key : String
deriving DecidableEq, Repr

def Source.render (s : Source) : String := s.category.name ++ "." ++ s.key

/-- A place that a write goes to. -/
structure Place where
  entity : Entity
  name : String
deriving DecidableEq, Repr

/-- A value for a place. -/
structure Write where
  place : Place
  value : AttributeValue
  source : Source
deriving DecidableEq

/-- Two writes of one stage to one place that do not agree, with the entity in words. -/
structure Conflict where
  stage : Nat
  entity : String
  first : Write
  second : Write
deriving DecidableEq

def Conflict.message (c : Conflict) : String :=
  c.entity ++ ": '" ++ c.first.place.name ++ "' set to " ++ c.first.value.render ++ " by " ++
    c.first.source.render ++ " and to " ++ c.second.value.render ++ " by " ++
    c.second.source.render ++ " in stage " ++ toString c.stage

/-- An entity of a skeleton in words. -/
def Entity.describe (skeleton : Skeleton) : Entity → String
  | airLoop system index =>
    let found := (skeleton.systems[system]?).bind fun s => s.airLoops[index]?
    "air loop '" ++ (found.elim "" Skeleton.AirLoop.name) ++ "'"
  | component id =>
    "component '" ++ ((skeleton.components.node? id).elim "" ComponentNode.path) ++ "'"

/-- The default stages: the controls, then the equipment. -/
def defaultStages : List (List MeasureCategory) := [[.hvacControls], [.hvacEquipment]]

/-! ### Planning a stage -/

/-- The air loops of systems from a position on. -/
def airLoopsFrom (position : Nat) : List Skeleton.System → List Entity
  | [] => []
  | s :: rest =>
    (List.range s.airLoops.length).map (Entity.airLoop position) ++ airLoopsFrom (position + 1) rest

/-- The entities that a target writes to. -/
def Target.entities (skeleton : Skeleton) (target : Target) : List Entity :=
  match target.scope with
  | .airLoops => airLoopsFrom 0 skeleton.systems
  | .equipment classes =>
    (skeleton.components.nodes.filter fun n =>
      decide (n.type.equipmentClass ∈ classes) && (n.type.declared? target.name).isSome).map
      fun n => .component n.id

/-- The writes of one override. -/
def overrideWrites (skeleton : Skeleton) (category : MeasureCategory)
    (entry : String × AttributeValue) : List Write :=
  match target? category entry.1 with
  | some target =>
    (target.entities skeleton).map fun e => ⟨⟨e, target.name⟩, entry.2, ⟨category, entry.1⟩⟩
  | none => []

/-- All writes of a stage, in the order of the measures and of the keys. -/
def stageWrites (skeleton : Skeleton) (measures : List Document.Measure)
    (stage : List MeasureCategory) : List Write :=
  (measures.filter fun m => m.category ∈ stage).flatMap fun m =>
    m.overrides.entries.flatMap (overrideWrites skeleton m.category)

/-- The first writes to each place, after those already kept, and the pairs of a first and a later
write that do not agree. -/
def settle (kept : List Write) : List Write → List Write × List (Write × Write)
  | [] => (kept, [])
  | w :: rest =>
    match kept.find? fun k => k.place = w.place with
    | none => settle (kept ++ [w]) rest
    | some first =>
      let (final, disagreeing) := settle kept rest
      (final, if first.value.same w.value then disagreeing else (first, w) :: disagreeing)

/-- The writes that a stage makes. -/
def keptWrites (skeleton : Skeleton) (measures : List Document.Measure)
    (stage : List MeasureCategory) : List Write :=
  (settle [] (stageWrites skeleton measures stage)).1

/-- The conflicts of a stage of a number. -/
def stageConflicts (skeleton : Skeleton) (measures : List Document.Measure) (number : Nat)
    (stage : List MeasureCategory) : List Conflict :=
  (settle [] (stageWrites skeleton measures stage)).2.map fun p =>
    ⟨number, p.1.place.entity.describe skeleton, p.1, p.2⟩

/-- The conflicts of stages numbered from a number on. -/
def conflictsFrom (skeleton : Skeleton) (measures : List Document.Measure) (number : Nat) :
    List (List MeasureCategory) → List Conflict
  | [] => []
  | stage :: rest =>
    stageConflicts skeleton measures number stage ++
      conflictsFrom skeleton measures (number + 1) rest

/-! ### Making the writes -/

/-- The attributes of an entity after a sequence of writes. -/
def written (writes : List Write) (entity : Entity) (attributes : Attributes) : Attributes :=
  (writes.filter fun w => w.place.entity = entity).foldl
    (fun a w => a.insert w.place.name w.value) attributes

/-- A change of each member of a list by its position, counted from a number. -/
def mapFrom {α β : Type} (f : Nat → α → β) (first : Nat) : List α → List β
  | [] => []
  | a :: rest => f first a :: mapFrom f (first + 1) rest

/-- An air loop after a sequence of writes. -/
def writtenAirLoop (writes : List Write) (system index : Nat) (l : Skeleton.AirLoop) :
    Skeleton.AirLoop :=
  { l with attributes := written writes (.airLoop system index) l.attributes }

/-- A system after a sequence of writes. -/
def writtenSystem (writes : List Write) (position : Nat) (s : Skeleton.System) :
    Skeleton.System :=
  { s with airLoops := mapFrom (writtenAirLoop writes position) 0 s.airLoops }

/-- A skeleton after a sequence of writes. -/
def writtenSkeleton (writes : List Write) (skeleton : Skeleton) : Skeleton :=
  { skeleton with
    components := skeleton.components.mapAttributes fun n =>
      written writes (.component n.id) n.attributes
    systems := mapFrom (writtenSystem writes) 0 skeleton.systems }

/-- A list without the members that repeat the one before them. -/
def eraseRepeats {α : Type} [DecidableEq α] : List α → List α
  | a :: b :: rest => if a = b then eraseRepeats (b :: rest) else a :: eraseRepeats (b :: rest)
  | short => short

/-- The categories of measures that are in no stage. -/
def unstaged (measures : List Document.Measure) (stages : List (List MeasureCategory)) :
    List MeasureCategory :=
  eraseRepeats ((measures.map Document.Measure.category).filter fun c =>
    !stages.any fun stage => stage.contains c)

/-- A skeleton with measures applied. -/
structure Applied where
  skeleton : Skeleton
  /-- The number of writes, those that a later stage replaced included. -/
  writes : Nat
  /-- The categories of measures that are in no stage. -/
  unstaged : List MeasureCategory

end Measure

/-- The skeleton with measures applied stage by stage, or all conflicts. -/
def Skeleton.applyMeasures (skeleton : Skeleton) (measures : List Document.Measure)
    (stages : List (List MeasureCategory)) : Except (List Measure.Conflict) Measure.Applied :=
  match Measure.conflictsFrom skeleton measures 0 stages with
  | [] =>
    let writes := stages.flatMap (Measure.keptWrites skeleton measures)
    .ok ⟨Measure.writtenSkeleton writes skeleton, writes.length,
      Measure.unstaged measures stages⟩
  | conflicts => .error conflicts

end HvacModel
