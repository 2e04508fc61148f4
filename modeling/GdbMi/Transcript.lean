import GdbMi.Record.Reader

/-!
# Transcripts

The records of a sequence of lines. Blank lines are skipped. A malformed line ends a strict run and
is dropped with a warning by a lenient one; a token that is too long ends both. What happens is a
list of events in order, up to the failure that ends the run, if there is one. `Transcript.run` is
`parse_records`, and notes are what it and `parse_record` log.
-/

namespace GdbMi
set_option autoImplicit false

/-- What is noted about a line. -/
inductive Note where
  /-- A result or asynchronous record of the class was read. -/
  | parsed (kind : Kind) (recordClass : Text)
  /-- The line was dropped. -/
  | dropped (line : Text) (e : ParseError)
deriving DecidableEq, Repr

/-- How much a note matters. -/
inductive Severity where
  | debug
  | info
  | warning
  | error
deriving DecidableEq, Repr

namespace Severity

/-- All severities, the least first. -/
def all : List Severity := [debug, info, warning, error]

/-- The name of the severity. -/
def name : Severity → String
  | debug => "DEBUG"
  | info => "INFO"
  | warning => "WARNING"
  | error => "ERROR"

/-- The severity with the name. -/
def ofName? (name : String) : Option Severity := all.find? (·.name == name)

/-- The place among the severities. -/
def rank : Severity → Nat
  | debug => 0
  | info => 1
  | warning => 2
  | error => 3

end Severity

namespace Note

/-- The severity of a note. -/
def severity : Note → Severity
  | parsed _ _ => .debug
  | dropped _ _ => .warning

/-- The wording of a note. -/
def message : Note → Text
  | parsed kind recordClass =>
    Text.ofString ("Parsed " ++ kind.name ++ " record ") ++ recordClass
  | dropped line e =>
    Text.ofString ("Dropping malformed MI record " ++ (chomp line).display ++ ": " ++ e.message)

end Note

namespace Transcript

/-- What happens in a run. -/
inductive Event where
  | note (n : Note)
  | record (r : Record)

/-- A run over lines: what happened, and the failure that ended it before the last line. -/
structure Run where
  events : List Event := []
  failure : Option RecordError := none

namespace Run

/-- The records, in order. -/
def records (run : Run) : List Record :=
  run.events.filterMap fun
    | .record r => some r
    | .note _ => none

/-- The notes, in order. -/
def notes (run : Run) : List Note :=
  run.events.filterMap fun
    | .note n => some n
    | .record _ => none

/-- A run that goes on with another one, unless a failure has ended it. -/
def append (run next : Run) : Run :=
  match run.failure with
  | some e => { events := run.events, failure := some e }
  | none => { events := run.events ++ next.events, failure := next.failure }

end Run

/-- What is noted about a record that was read. -/
def noteOf (r : Record) : List Event :=
  match r.recordClass with
  | some recordClass => [.note (.parsed r.kind recordClass)]
  | none => []

/-- The run over one line. -/
def readLine (strict : Bool) (line : Text) : Run :=
  if line.all Glyph.isBlank then {}
  else match Record.read line with
    | .ok r => { events := noteOf r ++ [.record r] }
    | .error (.malformed e) =>
      if strict then { failure := some (.malformed e) }
      else { events := [.note (.dropped line e)] }
    | .error e => { failure := some e }

/-- The run over lines. -/
def run (strict : Bool) : List Text → Run
  | [] => {}
  | line :: lines => (readLine strict line).append (run strict lines)

theorem run_append (strict : Bool) (xs ys : List Text) :
    run strict (xs ++ ys) = (run strict xs).append (run strict ys) := by
  have assoc (a b c : Run) : (a.append b).append c = a.append (b.append c) := by
    obtain ⟨ea, fa⟩ := a
    obtain ⟨eb, fb⟩ := b
    cases fa <;> cases fb <;> simp [Run.append]
  induction xs with
  | nil => rfl
  | cons x xs ih => simp only [List.cons_append, run, ih, assoc]

end Transcript

end GdbMi
