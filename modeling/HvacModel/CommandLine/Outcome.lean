import HvacModel.CommandLine.Command
import HvacModel.Archetype.Config
import HvacModel.ConfigFile

/-! # Outcomes of commands

A command reads at most one file and writes at most one.  `Command.input?` names the file to read,
and `Command.outcome` gives what the command shows and how it ends, from the contents of that file.
When it ends with a file to write, `Outcome.written` and `Outcome.refused` say what follows.

The diagnostics of a compilation are shown whether it succeeds or fails, and before anything is
looked at that could go wrong afterwards. -/

namespace HvacModel.CommandLine

/-- Why a command failed. -/
inductive CommandError where
  | file (error : ConfigFileError)
  | archetype (fault : ArchetypeFault)
  | query (error : QueryError)

def CommandError.message : CommandError → String
  | file error => error.message
  | archetype fault => fault.message
  | query error => error.message

/-- How a command ends. -/
inductive Ending where
  | done
  | failed (error : CommandError)
  /-- With a text to write to a file, and what to show once it is written. -/
  | write (path text confirmation : String)

/-- What a command shows, and how it ends. -/
structure Outcome where
  printed : String
  diagnostics : List Diagnostic
  ending : Ending

namespace Outcome

/-- A command that shows a text. -/
def succeed (text : String) (diagnostics : List Diagnostic) : Outcome := ⟨text, diagnostics, .done⟩

def fail (error : CommandError) (diagnostics : List Diagnostic) : Outcome :=
  ⟨"", diagnostics, .failed error⟩

/-- Put a text before everything shown. -/
def after (text : String) (o : Outcome) : Outcome := { o with printed := text ++ o.printed }

/-- The lines of the diagnostics. -/
def listing (o : Outcome) : String :=
  o.diagnostics.foldr (fun d text => "  " ++ d.listing ++ "\n" ++ text) ""

/-- What is shown after the file of the ending is written. -/
def written (o : Outcome) : Outcome :=
  match o.ending with
  | .write _ _ confirmation => { o with printed := o.printed ++ confirmation, ending := .done }
  | _ => o

/-- What is shown when the file of the ending cannot be written. -/
def refused (o : Outcome) : Outcome :=
  match o.ending with
  | .write path _ _ => { o with ending := .failed (.file (.unwritable path)) }
  | _ => o

end Outcome

namespace Command

/-- The file that a command reads. -/
def input? : Command → Option String
  | validate path | compile path _ | schedule path _ _ _ => some path
  | archetype .. => none

/-- Compile a file, show the diagnostics, and go on with what was compiled. -/
def compiling (path : String) (contents : Option ByteArray) (next : Compiled → Outcome) :
    Outcome :=
  match ConfigFile.compile path contents Measure.defaultStages with
  | .ok compiled => next compiled
  | .error (.compile error) => .fail (.file (.compile error)) error.diagnostics
  | .error error => .fail (.file error) []

/-- Write a value to a file in the format of its name. -/
def writing (path : String) (value : Value) (diagnostics : List Diagnostic)
    (confirmation : String) : Outcome :=
  match ConfigFile.textFor path value with
  | .ok text => ⟨"", diagnostics, .write path text confirmation⟩
  | .error error => .fail (.file error) diagnostics

/-- The lines about a valid configuration. -/
def summaryText (s : Summary) : String :=
  let loopLine := fun (l : LoopSummary) =>
    "  Loop " ++ l.name ++ " (" ++ l.kind.name ++ "): " ++ toString l.componentCount ++
      " components\n"
  "✓ Config is valid\n" ++
  "  Systems: " ++ toString s.systemCount ++ "\n" ++
  "  Components: " ++ toString s.componentCount ++ " (+" ++ toString s.subComponentCount ++
    " sub-components)\n" ++
  String.join (s.loops.map loopLine) ++
  "  Schedules: " ++ toString s.scheduleCount ++ "\n" ++
  "  Fingerprint: " ++ s.fingerprint ++ "\n"

/-- The line about the value of a schedule. -/
def scheduleText (key : String) (d : Weekday) (time : TimeOfDay) (x : Float) : String :=
  key ++ " " ++ d.short ++ " " ++ time.render ++ ": " ++ Decimal.Layout.plain.render x ++ "\n"

/-- What a command shows and how it ends, from the contents of the file that it reads. -/
def outcome (contents : Option ByteArray) : Command → Outcome
  | validate path =>
    .after ("Validating config: " ++ path ++ "\n") <|
      compiling path contents fun c => .succeed (summaryText (.ofModel c.model)) c.warnings
  | compile path output =>
    compiling path contents fun c =>
      match output with
      | some target =>
        writing target c.model.encode c.warnings ("✓ Model written to " ++ target ++ "\n")
      | none => .succeed (Json.pretty c.model.encode ++ "\n") c.warnings
  | archetype system params output =>
    match system.config params, output with
    | .error fault, _ => .fail (.archetype fault) []
    | .ok value, some target =>
      writing target value [] ("✓ " ++ system.name ++ " config written to " ++ target ++ "\n")
    | .ok value, none => .succeed (Yaml.render value) []
  | schedule path key d time =>
    compiling path contents fun c =>
      match c.model.query key d time with
      | .ok x => .succeed (scheduleText key d time x) c.warnings
      | .error error => .fail (.query error) c.warnings

end Command

end HvacModel.CommandLine
