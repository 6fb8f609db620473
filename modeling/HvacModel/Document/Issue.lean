import HvacModel.Document.Basic

/-! # Issues of a configuration

An `Issue` says what is wrong at one place.  The place is a `Path` from the root: keys of objects
and positions in arrays.  `Path.render` joins the keys by points and puts positions in brackets;
`Value.at?` follows a path. -/

namespace HvacModel

/-- One step into a value. -/
inductive Path.Step where
  | key (name : String)
  | index (i : Nat)
deriving DecidableEq, Repr

/-- A place in a value. -/
abbrev Path := List Path.Step

namespace Path

/-- The place of an entry. -/
def child (path : Path) (key : String) : Path := path ++ [.key key]

/-- The place of an item. -/
def item (path : Path) (i : Nat) : Path := path ++ [.index i]

/-- A key after a text: a point stands between two texts that are not empty at the left. -/
def join (text key : String) : String := if text.isEmpty then key else text ++ "." ++ key

/-- A text extended by a step. -/
def extend (text : String) : Step → String
  | .key name => join text name
  | .index i => text ++ "[" ++ toString i ++ "]"

/-- The text of a path. -/
def render (path : Path) : String := path.foldl extend ""

end Path

/-- The value at a place. -/
def Value.at? (value : Value) : Path → Option Value
  | [] => some value
  | .key name :: rest =>
    match value with
    | .object fields => (Value.field? fields name).bind fun v => v.at? rest
    | _ => none
  | .index i :: rest =>
    match value with
    | .array items => items[i]?.bind fun v => v.at? rest
    | _ => none

namespace Document

/-- What a place asks for. -/
inductive Expectation where
  | object | string | number | integer | boolean | nameList | scalar | daySchedule
deriving DecidableEq, Repr

def Expectation.describe : Expectation → String
  | object => "object"
  | string => "string"
  | number => "number"
  | integer => "integer"
  | boolean => "boolean"
  | nameList => "string or array of strings"
  | scalar => "number, string or boolean"
  | daySchedule => "day schedule object or day-type name"

/-- What a declared kind of attribute asks for. -/
def Expectation.ofKind : AttributeKind → Expectation
  | .number => number
  | .text => string
  | .flag => boolean

/-- Why a time key is refused. -/
inductive TimeKeyFault where
  | unreadable (fault : TimeOfDay.Fault)
  | endOfDay
deriving DecidableEq, Repr

def TimeKeyFault.reason : TimeKeyFault → String
  | unreadable fault => fault.reason
  | endOfDay => "24:00 ends the day and cannot start a step"

/-- What is wrong. -/
inductive IssueKind where
  | unknownSection (name : String)
  | unknownField (name : String)
  | missingField (name : String)
  | typeMismatch (expected : Expectation) (found : Value.Kind)
  | unknownObjectType (name : String)
  | dottedComponentName (name : String)
  | unknownAttribute (type : ObjectType) (name : String)
  | unknownMeasureCategory (name : String)
  | unknownMeasureKey (category : MeasureCategory) (name : String)
  | invalidLoopKind (text : String)
  | invalidTimeKey (text : String) (fault : TimeKeyFault)
  | timeKeysNotIncreasing (previous key : TimeOfDay)
  | dayMustStartAtMidnight (first : TimeOfDay)
  | emptyDay
deriving DecidableEq, Repr

namespace IssueKind

/-- The name of a kind of issue. -/
def name : IssueKind → String
  | unknownSection _ => "UnknownSection"
  | unknownField _ => "UnknownField"
  | missingField _ => "MissingField"
  | typeMismatch _ _ => "TypeMismatch"
  | unknownObjectType _ => "UnknownObjectType"
  | dottedComponentName _ => "DottedComponentName"
  | unknownAttribute _ _ => "UnknownAttribute"
  | unknownMeasureCategory _ => "UnknownMeasureCategory"
  | unknownMeasureKey _ _ => "UnknownMeasureKey"
  | invalidLoopKind _ => "InvalidLoopKind"
  | invalidTimeKey _ _ => "InvalidTimeKey"
  | timeKeysNotIncreasing _ _ => "TimeKeysNotIncreasing"
  | dayMustStartAtMidnight _ => "DayMustStartAtMidnight"
  | emptyDay => "EmptyDay"

/-- The issue in words. -/
def describe : IssueKind → String
  | unknownSection name => "unknown section '" ++ name ++ "'"
  | unknownField name => "unknown field '" ++ name ++ "'"
  | missingField name => "missing required field '" ++ name ++ "'"
  | typeMismatch expected found =>
    "expected " ++ expected.describe ++ ", found " ++ found.name
  | unknownObjectType name => "unknown object type '" ++ name ++ "'"
  | dottedComponentName name =>
    "component name '" ++ name ++ "' contains '.', reserved for owner.sub references"
  | unknownAttribute type name =>
    "attribute '" ++ name ++ "' is not defined for " ++ type.name
  | unknownMeasureCategory name => "unknown measure category '" ++ name ++ "'"
  | unknownMeasureKey category name =>
    "measure category '" ++ category.name ++ "' has no target for '" ++ name ++ "'"
  | invalidLoopKind text =>
    "invalid loop kind '" ++ text ++ "' (expected hot_water, chilled_water or condenser_water)"
  | invalidTimeKey text fault => "invalid time key '" ++ text ++ "': " ++ fault.reason
  | timeKeysNotIncreasing previous key =>
    "time key " ++ key.render ++ " does not follow " ++ previous.render
  | dayMustStartAtMidnight first =>
    "day profile starts at " ++ first.render ++ " instead of 00:00"
  | emptyDay => "day profile has no values"

end IssueKind

/-- One violation of the grammar. -/
structure Issue where
  path : Path
  kind : IssueKind
deriving DecidableEq, Repr

/-- The issue with its place in front, unless that is the root. -/
def Issue.message (issue : Issue) : String :=
  if issue.path.render.isEmpty then issue.kind.describe
  else issue.path.render ++ ": " ++ issue.kind.describe

/-- The message about all issues of a document. -/
def issuesMessage (issues : List Issue) : String :=
  "configuration has " ++ toString issues.length ++ " parse issue(s); first: " ++
    (match issues with
      | first :: _ => first.message
      | [] => "")

end Document

end HvacModel
