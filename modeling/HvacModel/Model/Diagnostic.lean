import HvacModel.Document.Issue
import HvacModel.Skeleton.Resolve
import HvacModel.Skeleton.LoopShape
import HvacModel.Measure.Apply
import HvacModel.Schedule.Compile

/-! # Diagnostics

A `Diagnostic` is one finding of any stage in a common form: how severe it is, of what kind, what
it is about, and a message.  Every error of a stage becomes one diagnostic of severity `error`;
warnings come from a compilation that succeeds. -/

namespace HvacModel

inductive Severity where
  | warning | error
deriving DecidableEq, Repr

def Severity.name : Severity → String
  | warning => "warning"
  | error => "error"

inductive DiagnosticKind where
  | parse | duplicateName | danglingReference | topology | measureConflict | unresolvedSchedule
  | inertScheduleRule | unstagedMeasure
deriving DecidableEq, Repr

def DiagnosticKind.name : DiagnosticKind → String
  | parse => "parse"
  | duplicateName => "duplicate_name"
  | danglingReference => "dangling_reference"
  | topology => "topology"
  | measureConflict => "measure_conflict"
  | unresolvedSchedule => "unresolved_schedule"
  | inertScheduleRule => "inert_schedule_rule"
  | unstagedMeasure => "unstaged_measure"

/-- One finding. -/
structure Diagnostic where
  severity : Severity
  kind : DiagnosticKind
  entity : String
  field : Option String
  message : String
deriving DecidableEq, Repr

namespace Diagnostic

/-- The finding in words. -/
def render (d : Diagnostic) : String := d.severity.name ++ ": " ++ d.message

/-- The finding with what it is about, as it is listed for a user. -/
def listing (d : Diagnostic) : String :=
  match d.field with
  | some field => d.render ++ " [" ++ d.entity ++ " / " ++ field ++ "]"
  | none => d.render ++ " [" ++ d.entity ++ "]"

def isError (d : Diagnostic) : Bool := d.severity = .error

/-- An issue of the document. -/
def ofIssue (issue : Document.Issue) : Diagnostic :=
  ⟨.error, .parse, issue.path.render, none, issue.message⟩

def ofResolveError (e : ResolveError) : Diagnostic :=
  match e with
  | .duplicate d => ⟨.error, .duplicateName, d.scope, none, e.message⟩
  | .dangling site _ => ⟨.error, .danglingReference, site.entity, some site.field, e.message⟩

def ofTopologyError (e : TopologyError) : Diagnostic :=
  ⟨.error, .topology, "loop '" ++ e.loop ++ "'", none, e.message⟩

def ofConflict (c : Measure.Conflict) : Diagnostic :=
  ⟨.error, .measureConflict, c.entity, some c.first.place.name, c.message⟩

def ofUnresolved (u : UnresolvedWeekday) : Diagnostic :=
  ⟨.error, .unresolvedSchedule, "schedule '" ++ u.schedule ++ "'", none, u.message⟩

/-- A rule that got no weekday. -/
def inertRule (schedule rule : String) : Diagnostic :=
  ⟨.warning, .inertScheduleRule, "schedule '" ++ schedule ++ "'", some ("schedule_rules." ++ rule),
    "rule '" ++ rule ++ "' applies to no weekday"⟩

/-- A measure category that no stage applies. -/
def unstagedMeasure (category : MeasureCategory) : Diagnostic :=
  ⟨.warning, .unstagedMeasure, "measures." ++ category.name, none,
    "measure category '" ++ category.name ++ "' is in no pipeline stage; not applied"⟩

def encode (d : Diagnostic) : Value :=
  .object ([("severity", .string d.severity.name), ("kind", .string d.kind.name),
    ("entity", .string d.entity)] ++ d.field.toList.map (fun f => ("field", .string f)) ++
    [("message", .string d.message)])

/-- A list of findings, one a line. -/
def renderAll (list : List Diagnostic) : String :=
  list.foldr (fun d text => d.render ++ "\n" ++ text) ""

/-- The greatest severity in a list. -/
def maxSeverity? (list : List Diagnostic) : Option Severity :=
  if list.any isError then some .error
  else if list.isEmpty then none
  else some .warning

end Diagnostic

end HvacModel
