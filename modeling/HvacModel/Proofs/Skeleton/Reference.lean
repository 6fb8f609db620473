import HvacModel.Proofs.Component.Representation
import HvacModel.Proofs.NameIndex.Table

/-! # The faults of a document

What keeps a document from having a skeleton, read off the document without resolving it.  Every
name that must lead somewhere is a `Reference`, a site with the scope in which its name is looked
up; `Document.references` lists them in the order of the document.  `Document.failures` is one error
for each fault: the component definitions that are refused, the names that a table repeats, and the
references that lead nowhere. -/

namespace HvacModel

/-- The refusal of a definition after a sequence of additions. -/
def Arena.refusal? (before : List Document.Component) (c : Document.Component) :
    Option DuplicateName :=
  match (Arena.after before).add c with
  | .ok _ => none
  | .error refusal => some refusal

/-- The refusals of a sequence of additions, in its order. -/
def Arena.refusals (calls : List Document.Component) : List DuplicateName :=
  (splitsFrom [] calls).filterMap fun s => refusal? s.1 s.2

namespace Document

/-! ### References -/

/-- Where the name of a reference is looked up. -/
inductive Scope where
  | components | systems | schedules | constructionSets | spaceTypes
  /-- The days of one schedule. -/
  | days (schedule : Schedule)

/-- A name that must lead somewhere. -/
structure Reference where
  site : ReferenceSite
  scope : Scope
  name : String

/-- References to components that stand at one site. -/
def componentReferences (site : ReferenceSite) (names : List String) : List Reference :=
  names.map fun name => ⟨site, .components, name⟩

def AirLoop.references (l : AirLoop) : List Reference :=
  componentReferences (.airSupply l.name) l.supply ++
    l.demandBranches.flatMap fun b => componentReferences (.airBranch l.name b.name) b.components

def PlantLoop.references (l : PlantLoop) : List Reference :=
  componentReferences (.plantInlet l.name) l.inletNode ++
    componentReferences (.plantSupply l.name) l.supplyBranches ++
    componentReferences (.plantDemand l.name) l.demandBranches

def System.references (s : System) : List Reference :=
  s.availabilitySchedule.toList.map (fun name =>
      ⟨.availabilitySchedule s.name, .schedules, name⟩) ++
    s.airLoops.flatMap AirLoop.references ++ s.plantLoops.flatMap PlantLoop.references

/-- The reference of a rule that names its day. -/
def Rule.references (s : Schedule) (r : Rule) : List Reference :=
  match r.day with
  | .inline _ => []
  | .named key => [⟨.ruleDay s.key r.key, .days s, key⟩]

def Schedule.references (s : Schedule) : List Reference := s.rules.flatMap (Rule.references s)

def BuildingInfo.references (b : BuildingInfo) : List Reference :=
  [⟨.spaceType, .spaceTypes, b.spaceType⟩, ⟨.constructionSet, .constructionSets, b.constructionSet⟩,
    ⟨.hvacSystem, .systems, b.hvacSystem⟩]

/-- All references of a document, in its order. -/
def references (d : Document) : List Reference :=
  d.systems.flatMap System.references ++ d.schedules.flatMap Schedule.references ++
    d.buildingInfo.references

/-- Whether a reference of a document leads somewhere. -/
def leads (d : Document) (r : Reference) : Bool :=
  match r.scope with
  | .components => ((Arena.after d.components).resolve? r.name).isSome
  | .systems => r.name ∈ d.systems.map System.name
  | .schedules => r.name ∈ d.schedules.map Schedule.key
  | .constructionSets => r.name ∈ d.constructionSets.map ConstructionSet.name
  | .spaceTypes => r.name ∈ d.spaceTypes.map SpaceType.name
  | .days s => (s.dayByKey? r.name).isSome

/-! ### Faults -/

/-- One error for each of some references that leads nowhere. -/
def dangling (d : Document) (references : List Reference) : List ResolveError :=
  (references.filter fun r => !d.leads r).map fun r => .dangling r.site r.name

/-- One error for each name that a table repeats. -/
def repeatedIn (scope : String) (names : List String) : List ResolveError :=
  (repeats names).map fun name => .duplicate ⟨scope, name⟩

/-- One error for each fault of a document. -/
def failures (d : Document) : List ResolveError :=
  (Arena.refusals d.components).map .duplicate ++
    (repeatedIn "hvac" (d.systems.map System.name) ++
      (repeatedIn "schedules" (d.schedules.map Schedule.key) ++
        (repeatedIn "construction_sets" (d.constructionSets.map ConstructionSet.name) ++
          (repeatedIn "space_types" (d.spaceTypes.map SpaceType.name) ++
            d.dangling d.references))))

end Document

end HvacModel
