/-! # Arguments of a command

The words after the name of a command are operands, which count by their order, and options, which
count by their name.  `Arguments.read` sorts them by the options that a command has:

* `--name value` and `--name=value` give an option its value, `-x value`, `-xvalue` and `-x=value`
  do so by its letter;
* a word on its own that starts with a hyphen is never a value, except the lone hyphen;
* no option stands twice, and a switch has no value;
* all words after `--` are operands;
* `--help` and `-h` ask for help, and no word after them counts. -/

namespace HvacModel.CommandLine

/-- The options of commands. -/
inductive OptionForm where
  /-- Present or absent. -/
  | switch (name : String)
  /-- With a value, and with a letter that stands for the name. -/
  | valued (name : String) (letter : Option Char)
deriving DecidableEq, Repr

def OptionForm.name : OptionForm → String
  | switch name | valued name _ => name

/-- Whether a letter stands for the option. -/
def OptionForm.hasLetter (c : Char) : OptionForm → Bool
  | switch _ => false
  | valued _ letter => letter = some c

/-- Why words are no command. -/
inductive UsageFault where
  | noCommand
  | unknownCommand (word : String)
  | unknownOption (word : String)
  | missingValue (option : String)
  | needlessValue (option : String)
  | repeatedOption (option : String)
  | missingOperand (operand : String)
  | surplusOperand (word : String)
  | invalidValue (argument value : String)
deriving DecidableEq, Repr

def UsageFault.message : UsageFault → String
  | noCommand => "a command is required"
  | unknownCommand word => "unknown command '" ++ word ++ "'"
  | unknownOption word => "unexpected argument '" ++ word ++ "'"
  | missingValue option => "a value is required for '--" ++ option ++ "'"
  | needlessValue option => "'--" ++ option ++ "' takes no value"
  | repeatedOption option => "'--" ++ option ++ "' is given more than once"
  | missingOperand operand => "missing argument <" ++ operand ++ ">"
  | surplusOperand word => "unexpected argument '" ++ word ++ "'"
  | invalidValue argument value => "invalid value '" ++ value ++ "' for '" ++ argument ++ "'"

/-! ### Words -/

/-- The forms of a word. -/
inductive Word where
  | operand (text : String)
  /-- An option by its name, with what follows an equals sign. -/
  | long (name : String) (value : Option String)
  /-- An option by its letter, with the rest of the word. -/
  | short (letter : Char) (rest : List Char)
  /-- Ends the options. -/
  | divider
deriving DecidableEq, Repr

def Word.ofText (text : String) : Word :=
  match text.toList with
  | ['-', '-'] => .divider
  | '-' :: '-' :: cs =>
    .long (String.ofList (cs.takeWhile (· ≠ '=')))
      ((cs.dropWhile (· ≠ '=')).tail?.map String.ofList)
  | '-' :: letter :: rest => .short letter rest
  | _ => .operand text

/-- What follows the letter of an option in one word, an equals sign left out. -/
def attachedValue? : List Char → Option String
  | [] => none
  | '=' :: value | value => some (String.ofList value)

/-- Whether a word can be the value of the option before it. -/
def isValue (word : String) : Bool :=
  match Word.ofText word with
  | .operand _ => true
  | _ => false

/-- What a word does among the arguments of a command. -/
inductive Role where
  | operand (text : String)
  /-- An option with its value; a switch has an empty one. -/
  | option (name value : String)
  /-- An option whose value is the next word. -/
  | awaiting (name : String)
  /-- Ends the options. -/
  | divider
  /-- Asks for help. -/
  | help
deriving DecidableEq, Repr

namespace Role

/-- An option with a value that may stand in the same word. -/
def valued (name : String) (attached : Option String) : Role :=
  match attached with
  | some value => .option name value
  | none => .awaiting name

/-- An option by its letter; `h` asks for help. -/
def ofLetter (forms : List OptionForm) (word : String) (letter : Char) (rest : List Char) :
    Except UsageFault Role :=
  if letter = 'h' then .ok .help
  else match forms.find? (OptionForm.hasLetter letter) with
    | some form => .ok (valued form.name (attachedValue? rest))
    | none => .error (.unknownOption word)

/-- An option by its name; every command has `help`. -/
def ofName (forms : List OptionForm) (word name : String) (attached : Option String) :
    Except UsageFault Role :=
  match (OptionForm.switch "help" :: forms).find? (fun form => form.name = name), attached with
  | some (.valued name _), _ => .ok (valued name attached)
  | some (.switch name), none => .ok (if name = "help" then .help else .option name "")
  | some (.switch name), some _ => .error (.needlessValue name)
  | none, _ => .error (.unknownOption word)

/-- The role of a word among the options of a command. -/
def ofWord (forms : List OptionForm) (word : String) : Except UsageFault Role :=
  match Word.ofText word with
  | .operand text => .ok (.operand text)
  | .long name attached => ofName forms word name attached
  | .short letter rest => ofLetter forms word letter rest
  | .divider => .ok .divider

end Role

/-! ### Arguments -/

/-- The operands and the options of a command; a switch has an empty value. -/
structure Arguments where
  operands : List String
  options : List (String × String)
  /-- Whether the words end with a request for help. -/
  help : Bool
deriving DecidableEq, Repr

namespace Arguments

def empty : Arguments := ⟨[], [], false⟩

/-- The value of an option. -/
def value? (a : Arguments) (name : String) : Option String :=
  (a.options.find? fun o => o.1 = name).map Prod.snd

def has (a : Arguments) (name : String) : Bool := (a.value? name).isSome

/-- Add an operand to fewer than `bound`. -/
def addOperand (bound : Nat) (a : Arguments) (word : String) : Except UsageFault Arguments :=
  if a.operands.length < bound then .ok { a with operands := a.operands ++ [word] }
  else .error (.surplusOperand word)

/-- Add an option that is not there yet. -/
def addOption (a : Arguments) (name value : String) : Except UsageFault Arguments :=
  if a.has name then .error (.repeatedOption name)
  else .ok { a with options := a.options ++ [(name, value)] }

/-- Sort words, up to a request for help, into at most `bound` operands and the options of a
command. -/
def read (forms : List OptionForm) (bound : Nat) (a : Arguments) :
    List String → Except UsageFault Arguments
  | [] => .ok a
  | word :: rest =>
    match Role.ofWord forms word with
    | .error fault => .error fault
    | .ok (.operand text) => do read forms bound (← a.addOperand bound text) rest
    | .ok (.option name value) => do read forms bound (← a.addOption name value) rest
    | .ok (.awaiting name) =>
      match rest with
      | value :: rest =>
        if isValue value then do read forms bound (← a.addOption name value) rest
        else .error (.missingValue name)
      | [] => .error (.missingValue name)
    | .ok .divider => rest.foldlM (addOperand bound) a
    | .ok .help => .ok { a with help := true }

end Arguments

end HvacModel.CommandLine
