import HvacModel.Skeleton.Basic

/-! # Loop shapes

An air loop moves air from an optional outdoor air system over coils to one fan, its outlet, and
from there to branches of terminals.  A plant loop is driven by one pump, fed by one source of its
own kind among pipes, and serves consumers of its kind.  `airViolations` and `plantViolations` list
what contradicts these shapes; both look only at the components in loop order. -/

namespace HvacModel

/-- One way in which a loop misses its shape; components are named by their paths. -/
inductive Violation where
  | emptySupplyPath
  | outdoorAirSystemNotFirst (component : String)
  | notAirSupplyEquipment (component : String) (found : EquipmentClass)
  | airMoverCount (found : Nat)
  | outletNotFan (component : String)
  | noDemandBranches
  | emptyBranch (branch : String)
  | nonTerminalOnBranch (branch component : String) (found : EquipmentClass)
  | missingInletNode
  | inletNodeNotPump (component : String) (found : EquipmentClass)
  | inletNodeCount (found : Nat)
  | sourceKindMismatch (component : String) (type : ObjectType) (expected : LoopKind)
  | unexpectedSupplyComponent (component : String) (found : EquipmentClass)
  | sourceCount (kind : LoopKind) (found : Nat)
  | emptyDemand
  | invalidConsumer (component : String) (type : ObjectType) (kind : LoopKind)
deriving DecidableEq, Repr

namespace Violation

/-- The name of a kind of violation. -/
def name : Violation → String
  | emptySupplyPath => "EmptySupplyPath"
  | outdoorAirSystemNotFirst _ => "OutdoorAirSystemNotFirst"
  | notAirSupplyEquipment _ _ => "NotAirSupplyEquipment"
  | airMoverCount _ => "AirMoverCount"
  | outletNotFan _ => "OutletNotFan"
  | noDemandBranches => "NoDemandBranches"
  | emptyBranch _ => "EmptyBranch"
  | nonTerminalOnBranch _ _ _ => "NonTerminalOnBranch"
  | missingInletNode => "MissingInletNode"
  | inletNodeNotPump _ _ => "InletNodeNotPump"
  | inletNodeCount _ => "InletNodeCount"
  | sourceKindMismatch _ _ _ => "SourceKindMismatch"
  | unexpectedSupplyComponent _ _ => "UnexpectedSupplyComponent"
  | sourceCount _ _ => "SourceCount"
  | emptyDemand => "EmptyDemand"
  | invalidConsumer _ _ _ => "InvalidConsumer"

/-- The violation in words. -/
def describe : Violation → String
  | emptySupplyPath => "supply path is empty"
  | outdoorAirSystemNotFirst component =>
    "outdoor air system '" ++ component ++ "' must be first on the supply path"
  | notAirSupplyEquipment component found =>
    "'" ++ component ++ "' (" ++ found.describe ++ ") cannot sit on an air supply path"
  | airMoverCount found =>
    "supply path needs exactly one fan, found " ++ toString found
  | outletNotFan component =>
    "supply path ends in '" ++ component ++ "', expected the fan as outlet"
  | noDemandBranches => "demand side has no branches"
  | emptyBranch branch => "branch '" ++ branch ++ "' has no components"
  | nonTerminalOnBranch branch component found =>
    "branch '" ++ branch ++ "' holds '" ++ component ++ "' (" ++ found.describe ++
      "), expected a terminal"
  | missingInletNode => "supply side declares no inlet node"
  | inletNodeNotPump component found =>
    "inlet node component '" ++ component ++ "' is a " ++ found.describe ++ ", expected a pump"
  | inletNodeCount found =>
    "inlet node needs exactly one component, found " ++ toString found
  | sourceKindMismatch component type expected =>
    "'" ++ component ++ "' (" ++ type.name ++ ") cannot source a " ++ expected.name ++ " loop"
  | unexpectedSupplyComponent component found =>
    "'" ++ component ++ "' (" ++ found.describe ++ ") is not allowed on plant supply branches"
  | sourceCount kind found =>
    "supply branches need exactly one " ++ kind.name ++ " source, found " ++ toString found
  | emptyDemand => "demand side is empty"
  | invalidConsumer component type kind =>
    "'" ++ component ++ "' (" ++ type.name ++ ") cannot consume from a " ++ kind.name ++ " loop"

end Violation

/-- A violation with the name of its loop. -/
structure TopologyError where
  loop : String
  violation : Violation
deriving DecidableEq, Repr

def TopologyError.message (e : TopologyError) : String :=
  "loop '" ++ e.loop ++ "': " ++ e.violation.describe

/-- The class of a component. -/
def ComponentNode.equipmentClass (n : ComponentNode) : EquipmentClass := n.type.equipmentClass

namespace Skeleton

/-- The components of a list of handles. -/
def nodesOf (arena : Arena) (handles : List (Handle .component)) : List ComponentNode :=
  handles.filterMap arena.node?

/-! ### Air loops -/

/-- What is wrong with a component of a supply path, given whether it is the first one. -/
def supplyViolation? (first : Bool) (n : ComponentNode) : Option Violation :=
  if n.equipmentClass = .outdoorAirSystem ∧ first = false then
    some (.outdoorAirSystemNotFirst n.path)
  else if n.equipmentClass.isAirSupply then none
  else some (.notAirSupplyEquipment n.path n.equipmentClass)

/-- What is wrong with the components of a supply path one by one. -/
def supplyPathViolations : List ComponentNode → List Violation
  | [] => []
  | n :: rest => (supplyViolation? true n).toList ++ rest.filterMap (supplyViolation? false)

/-- The number of fans of a supply path. -/
def fanCount (path : List ComponentNode) : Nat :=
  path.countP fun n => n.equipmentClass = .fan

/-- What is wrong with the fans of a supply path. -/
def outletViolations (path : List ComponentNode) : List Violation :=
  if fanCount path ≠ 1 then [.airMoverCount (fanCount path)]
  else match path.getLast? with
    | some outlet => if outlet.equipmentClass = .fan then [] else [.outletNotFan outlet.path]
    | none => []

/-- What is wrong with a supply path. -/
def airSupplyViolations (path : List ComponentNode) : List Violation :=
  if path.isEmpty then [.emptySupplyPath]
  else supplyPathViolations path ++ outletViolations path

/-- What is wrong with a branch. -/
def branchViolations (name : String) (nodes : List ComponentNode) : List Violation :=
  (if nodes.isEmpty then [.emptyBranch name] else []) ++
    nodes.filterMap fun n =>
      if n.equipmentClass = .terminal then none
      else some (.nonTerminalOnBranch name n.path n.equipmentClass)

/-- What is wrong with an air loop. -/
def airViolations (arena : Arena) (l : AirLoop) : List Violation :=
  airSupplyViolations (nodesOf arena l.supply) ++
    (if l.demandBranches.isEmpty then [.noDemandBranches] else []) ++
    l.demandBranches.flatMap fun b => branchViolations b.name (nodesOf arena b.components)

/-! ### Plant loops -/

/-- What is wrong with an inlet node. -/
def inletViolations (nodes : List ComponentNode) : List Violation :=
  match nodes with
  | [] => [.missingInletNode]
  | [n] =>
    if n.equipmentClass = .pump then [] else [.inletNodeNotPump n.path n.equipmentClass]
  | many => [.inletNodeCount many.length]

/-- What is wrong with a component of the supply branches. -/
def sourceViolation? (kind : LoopKind) (n : ComponentNode) : Option Violation :=
  if n.equipmentClass.isSource then
    if n.type.isSourceFor kind then none else some (.sourceKindMismatch n.path n.type kind)
  else if n.equipmentClass = .pipe then none
  else some (.unexpectedSupplyComponent n.path n.equipmentClass)

/-- The number of sources of a kind. -/
def sourceCount (kind : LoopKind) (nodes : List ComponentNode) : Nat :=
  nodes.countP fun n => n.equipmentClass.isSource && n.type.isSourceFor kind

/-- What is wrong with supply branches. -/
def plantSupplyViolations (kind : LoopKind) (nodes : List ComponentNode) : List Violation :=
  nodes.filterMap (sourceViolation? kind) ++
    (if sourceCount kind nodes = 1 then [] else [.sourceCount kind (sourceCount kind nodes)])

/-- What is wrong with the demand side. -/
def plantDemandViolations (kind : LoopKind) (nodes : List ComponentNode) : List Violation :=
  (if nodes.isEmpty then [.emptyDemand] else []) ++
    nodes.filterMap fun n =>
      if n.type.isConsumerOf kind then none else some (.invalidConsumer n.path n.type kind)

/-- What is wrong with a plant loop. -/
def plantViolations (arena : Arena) (l : PlantLoop) : List Violation :=
  inletViolations (nodesOf arena l.inletNode) ++
    plantSupplyViolations l.kind (nodesOf arena l.supplyBranches) ++
    plantDemandViolations l.kind (nodesOf arena l.demandBranches)

/-! ### All loops -/

/-- What is wrong with the loops of a system, air loops first. -/
def systemErrors (arena : Arena) (s : System) : List TopologyError :=
  s.airLoops.flatMap (fun l => (airViolations arena l).map fun v => ⟨l.name, v⟩) ++
    s.plantLoops.flatMap fun l => (plantViolations arena l).map fun v => ⟨l.name, v⟩

/-- What is wrong with the loops of a skeleton. -/
def topologyErrors (s : Skeleton) : List TopologyError :=
  s.systems.flatMap (systemErrors s.components)

end Skeleton

end HvacModel
