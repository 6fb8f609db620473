import HvacModel.Document.Read
import HvacModel.Model.Basic
import HvacModel.Model.Diagnostic

/-! # Compilation

A document is compiled in stages: its names are resolved, its loops checked, then the measures
applied and the schedules compiled.  The first stage that fails decides the error, and the error
holds everything that stage found; the last two stages are independent and report together. -/

namespace HvacModel

/-- The first stage that failed, with all it found. -/
inductive CompileError where
  | parse (issues : List Document.Issue)
  | resolve (errors : List ResolveError)
  | topology (errors : List TopologyError)
  | rules (conflicts : List Measure.Conflict) (unresolved : List UnresolvedWeekday)

namespace CompileError

def message : CompileError → String
  | parse issues => Document.issuesMessage issues
  | resolve errors => toString errors.length ++ " unresolved or duplicate name(s)"
  | topology errors => toString errors.length ++ " loop topology violation(s)"
  | rules conflicts unresolved =>
    toString conflicts.length ++ " measure conflict(s), " ++ toString unresolved.length ++
      " unresolved schedule day(s)"

/-- One diagnostic for everything found. -/
def diagnostics : CompileError → List Diagnostic
  | parse issues => issues.map .ofIssue
  | resolve errors => errors.map .ofResolveError
  | topology errors => errors.map .ofTopologyError
  | rules conflicts unresolved => conflicts.map .ofConflict ++ unresolved.map .ofUnresolved

end CompileError

/-- A model and the warnings about it. -/
structure Compiled where
  model : Model
  warnings : List Diagnostic

namespace Compiled

/-- The warnings about the inert rules of a schedule. -/
def inertWarnings (s : CompiledSchedule) : List Diagnostic := s.inertRules.map (.inertRule s.key)

/-- The model of a document and the results of its stages. -/
def assemble (d : Document) (applied : Measure.Applied) (schedules : List CompiledSchedule) :
    Compiled :=
  let skeleton := applied.skeleton
  { model :=
      { components := skeleton.components
        systems := skeleton.systems
        schedules := schedules
        constructionSets := d.constructionSets
        spaceTypes := d.spaceTypes
        building := ⟨skeleton.building.spaceType, skeleton.building.constructionSet,
          skeleton.building.hvacSystem, d.buildingInfo.geometry⟩
        runInfo := d.runInfo }
    warnings := applied.unstaged.map .unstagedMeasure ++ schedules.flatMap inertWarnings }

end Compiled

/-- Compile a document with the measure categories of each stage. -/
def Document.compile (d : Document) (stages : List (List MeasureCategory)) :
    Except CompileError Compiled :=
  match d.resolve with
  | .error errors => .error (.resolve errors)
  | .ok skeleton =>
    match skeleton.topologyErrors with
    | [] =>
      match skeleton.applyMeasures d.measures stages,
        Schedule.compileAll (d.schedules.zip skeleton.schedules) with
      | .ok applied, .ok schedules => .ok (.assemble d applied schedules)
      | .ok _, .error unresolved => .error (.rules [] unresolved)
      | .error conflicts, .ok _ => .error (.rules conflicts [])
      | .error conflicts, .error unresolved => .error (.rules conflicts unresolved)
    | errors => .error (.topology errors)

/-- Read a raw value and compile it. -/
def Value.compile (value : Value) (stages : List (List MeasureCategory)) :
    Except CompileError Compiled :=
  match Document.read value with
  | .ok document => document.compile stages
  | .error issues => .error (.parse issues)

end HvacModel
