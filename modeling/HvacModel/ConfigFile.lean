import HvacModel.Json.Reader
import HvacModel.Yaml.Reader
import HvacModel.Yaml.Printer
import HvacModel.Model.Compile

/-! # Configuration files

The name of a file decides its format: what follows the last point of its last segment.  A segment
that starts with its only point has no such ending.  The functions here take the contents of a file
as bytes and give the text to write; reading and writing itself is left to a caller.  A name is
looked at before the contents, so a file of no known format is refused unread. -/

namespace HvacModel

/-- The formats of configuration files. -/
inductive ConfigFormat where
  | yaml | json
deriving DecidableEq, Repr

/-- Why the text of a file has no value. -/
inductive TextFault where
  | yaml
  /-- The text is YAML with a key that no object can have. -/
  | yamlKey
  | json
deriving DecidableEq, Repr

def TextFault.message : TextFault → String
  | yaml => "YAML error"
  | yamlKey => "JSON error"
  | json => "Failed to parse config JSON"

/-- Why a file does not serve. -/
inductive ConfigFileError where
  | unsupported (path : String)
  | unreadable (path : String)
  | unwritable (path : String)
  | text (fault : TextFault)
  | compile (error : CompileError)

def ConfigFileError.message : ConfigFileError → String
  | unsupported path =>
    "Unsupported config format: " ++ path ++ " (expected .yaml, .yml or .json)"
  | unreadable path => "Failed to read config file: " ++ path
  | unwritable path => "Failed to write file: " ++ path
  | text fault => "Config syntax error: " ++ fault.message
  | compile error => "Compilation failed: " ++ error.message

namespace ConfigFile

/-! ### Names -/

/-- The last segment of a path; slashes at its end and segments of one point do not count. -/
def lastSegment (path : String) : List Char :=
  ((path.toList.splitOn '/').filter fun s => s ≠ [] && s ≠ ['.']).getLast?.getD []

/-- What follows the last point of a segment, unless that point starts the segment. -/
def ending? (segment : List Char) : Option (List Char) :=
  match segment.reverse.dropWhile (· ≠ '.') with
  | '.' :: _ :: _ =>
    if segment = ['.', '.'] then none else some (segment.reverse.takeWhile (· ≠ '.')).reverse
  | _ => none

/-- The ending of the name of a file. -/
def extension? (path : String) : Option String := (ending? (lastSegment path)).map String.ofList

/-- The format that a name stands for. -/
def format? (path : String) : Option ConfigFormat :=
  match extension? path with
  | some "yaml" | some "yml" => some .yaml
  | some "json" => some .json
  | _ => none

/-! ### Reading -/

/-- The value of a text in a format. -/
def valueOf (format : ConfigFormat) (text : String) : Except TextFault Value :=
  match format with
  | .yaml =>
    match Yaml.read text with
    | .ok value => .ok value
    | .error .malformed => .error .yaml
    | .error .key => .error .yamlKey
  | .json =>
    match Json.read? Json.configDepth text with
    | some value => .ok value
    | none => .error .json

/-- The raw value of a file, given its contents if there are any; the name is looked at before
them. -/
def readValue (path : String) (contents : Option ByteArray) : Except ConfigFileError Value :=
  match format? path with
  | none => .error (.unsupported path)
  | some format =>
    match contents.bind String.fromUTF8? with
    | none => .error (.unreadable path)
    | some text =>
      match valueOf format text with
      | .ok value => .ok value
      | .error fault => .error (.text fault)

/-- The document of a file. -/
def readDocument (path : String) (contents : Option ByteArray) :
    Except ConfigFileError Document := do
  let value ← readValue path contents
  match Document.read value with
  | .ok document => .ok document
  | .error issues => .error (.compile (.parse issues))

/-- Compile a file. -/
def compile (path : String) (contents : Option ByteArray) (stages : List (List MeasureCategory)) :
    Except ConfigFileError Compiled := do
  let value ← readValue path contents
  match value.compile stages with
  | .ok compiled => .ok compiled
  | .error error => .error (.compile error)

/-! ### Writing -/

/-- The text that a file of a name holds for a value. -/
def textFor (path : String) (value : Value) : Except ConfigFileError String :=
  match format? path with
  | some .yaml => .ok (Yaml.render value)
  | some .json => .ok (Json.pretty value)
  | none => .error (.unsupported path)

end ConfigFile

end HvacModel
