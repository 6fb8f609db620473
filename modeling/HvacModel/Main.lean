import HvacModel.CommandLine.Outcome

/-! # The program

Reads the file that a command names, runs the command, writes the file that it ends with, and shows
the rest.  The exit code is 1 for a command that fails and 2 for words that are no command. -/

open HvacModel.CommandLine

/-- The bytes of a file that can be read. -/
def readContents (path : String) : IO (Option ByteArray) := do
  try return some (← IO.FS.readBinFile path)
  catch _ => return none

/-- Write the file that an outcome ends with. -/
def finish (o : Outcome) : IO Outcome := do
  match o.ending with
  | .write path text _ =>
    try
      IO.FS.writeFile path text
      return o.written
    catch _ => return o.refused
  | _ => return o

def main (args : List String) : IO UInt32 := do
  match Command.read args with
  | .error .help =>
    IO.print usage
    return 0
  | .error (.fault fault) =>
    IO.eprintln ("error: " ++ fault.message)
    return 2
  | .ok command =>
    let contents ← match command.input? with
      | some path => readContents path
      | none => pure none
    let o ← finish (command.outcome contents)
    IO.print o.printed
    IO.eprint o.listing
    match o.ending with
    | .failed error =>
      IO.eprintln ("Error: " ++ error.message)
      return 1
    | _ => return 0
