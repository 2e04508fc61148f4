import GdbMi.CommandLine.Options
import GdbMi.Record.Response
import GdbMi.Record.Writer
import GdbMi.Text.Lines
import GdbMi.Text.Utf8

/-!
# The program

The program reads a transcript as bytes, prints one line for each record, and writes notes and the
error that ends a strict run to the error output. It is a function from options and bytes to an
outcome; reading and printing are left to the command line. Printing a record may fail: such a
failure ends the run, as does a token that is too long.

`program` is `main` once its arguments are read, and `printed` is `_render`. A file is decoded as
UTF-8 with its stray bytes kept, and all three line ends end its lines (`_open_input`). Standard
input is handed out as it was opened; that it is decoded and split into lines in the same way is an
assumption.
-/

namespace GdbMi.CommandLine
set_option autoImplicit false

/-- What ends the program before its time. -/
inductive Failure where
  | record (e : RecordError)
  | render (e : RenderError)
  /-- A line to print holds a stray byte. -/
  | strayByte
  /-- No severity is given for the notes that are shown. -/
  | noLevel

/-- The wording of a failure. -/
def Failure.message : Failure → String
  | record e => e.message
  | render e => e.message
  | strayByte => "the record holds a byte that is not text"
  | noLevel => "Level not an integer or a valid string: []"

/-- What the program leaves behind: an exit code or a failure, and the lines of both outputs. -/
structure Outcome where
  exit : Except Failure Nat
  stdout : List String := []
  stderr : List String := []

/-- Lines as they are written, each with its end. -/
def written (lines : List String) : String := String.join (lines.map (· ++ "\n"))

/-- The line printed for a record. -/
def printed (format : Format) (r : Record) : Except Failure String :=
  match format with
  | .json => .ok r.toResponse.toJson.write
  | .mi =>
    match r.render with
    | .error e => .error (.render e)
    | .ok t =>
      match t.toString? with
      | some line => .ok line
      | none => .error .strayByte

/-- The name that notes are logged under. -/
def logName : String := "mi_parser.records"

/-- The line logged for a note. -/
def logLine (n : Note) : String :=
  n.severity.name ++ " " ++ logName ++ ": " ++ n.message.escaped

/-- The lines logged for a note, if its severity is high enough. -/
def logged (level : Severity) (n : Note) : List String :=
  if level.rank ≤ n.severity.rank then [logLine n] else []

/-- The outcome of a run that has come to its end. -/
def ending : Option RecordError → Outcome
  | none => { exit := .ok 0 }
  | some (.malformed e) => { exit := .ok 1, stderr := ["Malformed MI record: " ++ e.message] }
  | some e => { exit := .error (.record e) }

/-- The outcome of the events of a run and its failure, with the format of the records and the least
severity of the notes. -/
def report (format : Format) (level : Severity) (failure : Option RecordError) :
    List Transcript.Event → Outcome
  | [] => ending failure
  | .note n :: events =>
    let later := report format level failure events
    { later with stderr := logged level n ++ later.stderr }
  | .record r :: events =>
    match printed format r with
    | .error e => { exit := .error e }
    | .ok line =>
      let later := report format level failure events
      { later with stdout := line :: later.stdout }

/-- The outcome of the program on a transcript, given as the bytes of the input that the options
name. The name itself, `o.input`, is not looked at: standard input is assumed to be decoded and
split into lines as a file is. -/
def program (o : Options) (transcript : List UInt8) : Outcome :=
  match o.logLevel with
  | none => { exit := .error .noLevel }
  | some level =>
    let run := Transcript.run o.strict (Utf8.decode transcript).lines
    report o.format level run.failure run.events

end GdbMi.CommandLine
