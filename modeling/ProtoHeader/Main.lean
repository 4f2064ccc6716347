import ProtoHeader.Command.Arguments

/-!
# Command line tool

Runs the command that the command line names. A fault ends it with code one, and a command line
that is not understood with code two.
-/

namespace ProtoHeader.Command

/-- The files and the screen of the machine. -/
def machine : FileAccess IO where
  read path := do
    try return some (← IO.FS.readFile path) catch _ => return none
  write path text := do
    try
      IO.FS.writeFile path text
      return true
    catch _ => return false
  print text := IO.print text

end ProtoHeader.Command

open ProtoHeader in
def main (args : List String) : IO UInt32 := do
  match Command.ofArguments args with
  | .error .help =>
    IO.print Command.usage
    return 0
  | .error .misuse =>
    IO.eprint Command.usage
    return 2
  | .ok command =>
    match ← (command.run Command.machine).run with
    | .ok () => return 0
    | .error fault =>
      IO.eprintln ("Error: " ++ fault.diagnosis)
      return 1
