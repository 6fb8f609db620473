import HvacModel.CommandLine.Arguments
import HvacModel.Archetype.Params
import HvacModel.Decimal.Text
import HvacModel.TimeOfDay
import HvacModel.Weekday

/-! # Commands

`Command.read` gives the command that the words of a command line stand for, or says what is wrong
with them.  Numbers, names, weekdays and times are read here, so a command holds none that makes no
sense; whether a file is there and an archetype's parameters fit together shows when it runs.

A request for help takes the place of the command.  Every value in front of it still has to be one
that the command accepts, but nothing needs to be complete. -/

namespace HvacModel.CommandLine

/-- What the program can be asked to do. -/
inductive Command where
  /-- Check a configuration file through every stage. -/
  | validate (path : String)
  /-- Compile a configuration file and show or write the model. -/
  | compile (path : String) (output : Option String)
  /-- Show or write a generated configuration. -/
  | archetype (system : SystemArchetype) (params : ArchetypeParams) (output : Option String)
  /-- Show the value of a schedule at a time of a weekday. -/
  | schedule (path key : String) (weekday : Weekday) (time : TimeOfDay)

/-- What the words of a command line ask for when they are no command. -/
inductive Refusal where
  | help
  | fault (fault : UsageFault)
deriving DecidableEq, Repr

/-- How the program is called. -/
def usage : String :=
  String.intercalate "\n"
    ["HVAC configuration compiler",
     "",
     "Usage: hc <COMMAND>",
     "",
     "Commands:",
     "  validate <CONFIG_PATH>                  Check a config file through every stage",
     "  compile <CONFIG_PATH> [-o <OUTPUT>]     Compile a config file into a model",
     "  archetype <SYSTEM> [OPTIONS]            Generate a config file for a system archetype",
     "  schedule <CONFIG_PATH> <SCHEDULE> <WEEKDAY> <TIME>",
     "                                          Query a compiled schedule",
     "  help [COMMAND]                          Show this text",
     "",
     "Options of archetype:",
     "  --start-hour <HOUR>       Occupied weekday start hour [default: 6]",
     "  --end-hour <HOUR>         Occupied weekday end hour [default: 18]",
     "  --weekend-occupancy       Keep the weekday pattern on weekends",
     "  --dcv                     Enable demand-controlled ventilation",
     "  --building-type <TYPE>    Office, Retail, School, Hospital, Hotel, Restaurant, Warehouse",
     "                            or Apartment [default: Office]",
     "  --area <AREA>             Total floor area in m² [default: 10000]",
     "  --floors <FLOORS>         Number of floors [default: 10]",
     "  --shape <SHAPE>           Footprint shape: Rectangle, L, H, T or U [default: Rectangle]",
     "  --wwr <RATIO>             Window-to-wall ratio [default: 0.33]",
     "  -o, --output <OUTPUT>     Output file path",
     ""]

namespace Command

/-! ### Values -/

/-- A value that a reader accepts. -/
def accept {α : Type} (argument value : String) (result : Option α) : Except Refusal α :=
  match result with
  | some a => .ok a
  | none => .error (.fault (.invalidValue argument value))

/-- The arguments of a command. -/
def arguments (forms : List OptionForm) (bound : Nat) (words : List String) :
    Except Refusal Arguments :=
  (Arguments.read forms bound .empty words).mapError .fault

/-- The value of the operand at a position, if it is given. -/
def operand? {α : Type} (a : Arguments) (position : Nat) (name : String)
    (read? : String → Option α) : Except Refusal (Option α) :=
  match a.operands[position]? with
  | some word => (accept name word (read? word)).map some
  | none => .ok none

/-- A value that a command needs unless help is asked for. -/
def required {α : Type} (a : Arguments) (name : String) (given : Option α) : Except Refusal α :=
  if a.help then .error .help
  else match given with
    | some value => .ok value
    | none => .error (.fault (.missingOperand name))

/-- A path that is not empty. -/
def path? (text : String) : Option String := if text.isEmpty then none else some text

/-- A whole number below a bound, with an optional sign. -/
def below? (bound : Nat) (text : String) : Option Nat :=
  match Decimal.signed? text.toList with
  | some i => if 0 ≤ i ∧ i < bound then some i.toNat else none
  | none => none

/-- The value of an option, or what holds without it. -/
def optional {α : Type} (a : Arguments) (name : String) (read? : String → Option α) (absent : α) :
    Except Refusal α :=
  match a.value? name with
  | some value => accept ("--" ++ name) value (read? value)
  | none => .ok absent

/-- The path of the configuration, if it is given. -/
def configPath? (a : Arguments) : Except Refusal (Option String) := operand? a 0 "CONFIG_PATH" path?

def output (a : Arguments) : Except Refusal (Option String) :=
  optional a "output" (fun text => (path? text).map some) none

/-! ### Commands -/

/-- The option that names the file to write. -/
def outputForm : OptionForm := .valued "output" (some 'o')

/-- The options of a generated configuration. -/
def archetypeForms : List OptionForm :=
  [.valued "start-hour" none, .valued "end-hour" none, .switch "weekend-occupancy", .switch "dcv",
   .valued "building-type" none, .valued "area" none, .valued "floors" none, .valued "shape" none,
   .valued "wwr" none, outputForm]

/-- The parameters of a generated configuration. -/
def archetypeParams (a : Arguments) : Except Refusal ArchetypeParams := do
  let p := ArchetypeParams.default
  let hour := fun text => (below? UInt8.size text).map UInt8.ofNat
  let start ← optional a "start-hour" hour p.weekdayStartHour
  let finish ← optional a "end-hour" hour p.weekdayEndHour
  let buildingType ←
    optional a "building-type" (fun text => (BuildingType.read text).toOption) p.buildingType
  let area ← optional a "area" Decimal.float? p.buildingArea
  let floors ←
    optional a "floors" (fun text => (below? UInt32.size text).map UInt32.ofNat) p.numberOfFloors
  let shape ← optional a "shape" (fun text => (BuildingShape.read text).toOption) p.buildingShape
  let ratio ← optional a "wwr" Decimal.float? p.windowToWallRatio
  return { p with
    weekdayStartHour := start
    weekdayEndHour := finish
    hasWeekendOccupancy := a.has "weekend-occupancy"
    hasDemandControl := a.has "dcv"
    buildingType := buildingType
    buildingArea := area
    numberOfFloors := floors
    buildingShape := shape
    windowToWallRatio := ratio }

def readValidate (words : List String) : Except Refusal Command := do
  let a ← arguments [] 1 words
  let path ← configPath? a
  return .validate (← required a "CONFIG_PATH" path)

def readCompile (words : List String) : Except Refusal Command := do
  let a ← arguments [outputForm] 1 words
  let path ← configPath? a
  let target ← output a
  return .compile (← required a "CONFIG_PATH" path) target

def readArchetype (words : List String) : Except Refusal Command := do
  let a ← arguments archetypeForms 1 words
  let system ← operand? a 0 "SYSTEM" fun text => (SystemArchetype.read text).toOption
  let params ← archetypeParams a
  let target ← output a
  return .archetype (← required a "SYSTEM" system) params target

def readSchedule (words : List String) : Except Refusal Command := do
  let a ← arguments [] 4 words
  let path ← configPath? a
  let key ← operand? a 1 "SCHEDULE" some
  let day ← operand? a 2 "WEEKDAY" Weekday.ofName?
  let time ← operand? a 3 "TIME" fun text => (TimeOfDay.read text).toOption
  return .schedule (← required a "CONFIG_PATH" path) (← required a "SCHEDULE" key)
    (← required a "WEEKDAY" day) (← required a "TIME" time)

/-- The first words of command lines. -/
def names : List String := ["validate", "compile", "archetype", "schedule", "help"]

/-- Help on a command, or on all of them where none is named. -/
def readHelp : List String → Refusal
  | [] => .help
  | [name] => if name ∈ names then .help else .fault (.unknownCommand name)
  | _ :: word :: _ => .fault (.surplusOperand word)

/-- A first word that names no command. -/
def readOther (word : String) : Refusal :=
  match Role.ofWord [] word with
  | .ok .help => .help
  | .error fault => .fault fault
  | .ok _ => .fault (.unknownCommand word)

/-- The command of a command line, which the first word names. -/
def read : List String → Except Refusal Command
  | [] => .error (.fault .noCommand)
  | "validate" :: words => readValidate words
  | "compile" :: words => readCompile words
  | "archetype" :: words => readArchetype words
  | "schedule" :: words => readSchedule words
  | "help" :: words => .error (readHelp words)
  | word :: _ => .error (readOther word)

end Command

end HvacModel.CommandLine
