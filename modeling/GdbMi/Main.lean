import GdbMi.CommandLine.Program

/-!
# Command line

Reads the transcript from the input that the options name and prints the outcome of the program.
-/

namespace GdbMi.CommandLine
set_option autoImplicit false

/-- How the program is called. -/
def usage : String :=
  "usage: gdbmi [-h] [--strict] [--format FORMAT] [--log-level LEVEL] [input]"

/-- The bytes of the input. Those of standard input are taken as they come, and the program decodes
them and splits them into lines as it does those of a file. -/
def readInput (input : String) : IO ByteArray := do
  if input = standardInput then (← IO.getStdin).readBinToEnd
  else IO.FS.readBinFile input

end GdbMi.CommandLine

open GdbMi.CommandLine in
/-- Parses a transcript, one record a line. -/
def main (args : List String) : IO UInt32 := do
  match Options.ofArguments args with
  | .error .help =>
    IO.println usage
    return 0
  | .error .usage =>
    IO.eprintln usage
    return 2
  | .ok options =>
    let outcome := program options (← readInput options.input).toList
    IO.print (written outcome.stdout)
    IO.eprint (written outcome.stderr)
    match outcome.exit with
    | .ok code => return UInt32.ofNat code
    | .error e =>
      IO.eprintln e.message
      return 1
