import GdbMi.Proofs.CommandLine.Report
import GdbMi.Proofs.Text.LineEnds

/-!
# Line ends do not matter

The ends of lines may be of any kind: what is lost or won between a transcript and another one with
the same lines is blank lines, which a run passes over (`Transcript.run_visible`). Nor does it
matter whether lines keep their ends: a line is read without them, it is blank without them, and a
warning shows it without them (`Transcript.chomped_run`). Main statement: the program gives the same
outcome (`outcome_of_any_line_ends`).
-/

namespace GdbMi
set_option autoImplicit false

/-- The second line is the first one with line ends at its back. -/
def EndedBy (line kept : Text) : Prop :=
  ∃ ends, (∀ g ∈ ends, g.isLineEnd = true) ∧ kept = line ++ ends

theorem EndedBy.read_eq {line kept : Text} (h : EndedBy line kept) :
    Record.read kept = Record.read line := by
  obtain ⟨ends, lineEnds, rfl⟩ := h
  rw [Record.read, Record.read, chomp_append line lineEnds]

theorem EndedBy.blank_eq {line kept : Text} (h : EndedBy line kept) :
    kept.all Glyph.isBlank = line.all Glyph.isBlank := by
  obtain ⟨ends, lineEnds, rfl⟩ := h
  have blank : ends.all Glyph.isBlank = true :=
    List.all_eq_true.2 fun g hg => Glyph.isBlank_of_isLineEnd (lineEnds g hg)
  rw [List.all_append, blank, Bool.and_true]

namespace Transcript

/-! ## Blank lines -/

theorem append_empty (run : Run) : Run.append {} run = run := rfl

/-- A run passes over blank lines. -/
theorem run_visible (strict : Bool) (lines : List Text) :
    run strict (visible lines) = run strict lines := by
  induction lines with
  | nil => rfl
  | cons line lines ih =>
    cases blank : line.all Glyph.isBlank with
    | true =>
      have skipped : visible (line :: lines) = visible lines := by simp [visible, blank]
      have nothing : readLine strict line = {} := by simp [readLine, blank]
      rw [skipped, run, nothing, append_empty, ih]
    | false =>
      have shown : visible (line :: lines) = line :: visible lines := by simp [visible, blank]
      rw [shown, run, run, ih]

theorem visible_of_terminated {ls : List Text} {t : Text} (h : Terminated LineEnd.glyphs ls t)
    (unbroken : ∀ l ∈ ls, l.Unbroken) : visible t.lines = visible ls :=
  lines_of_terminated rfl h unbroken

/-! ## Lines with their ends -/

/-- The event with the line that it tells of without its ends. -/
def Event.chomped : Event → Event
  | note (.dropped line e) => note (.dropped (chomp line) e)
  | event => event

/-- The run with the lines that it tells of without their ends. -/
def Run.chomped (run : Run) : Run := { run with events := run.events.map Event.chomped }

theorem Run.failure_chomped (run : Run) : run.chomped.failure = run.failure := rfl

theorem Run.events_chomped (run : Run) : run.chomped.events = run.events.map Event.chomped := rfl

theorem chomped_append (run next : Run) :
    (run.append next).chomped = run.chomped.append next.chomped := by
  obtain ⟨events, failure⟩ := run
  cases failure with
  | none => simp [Run.append, Run.chomped]
  | some e => rfl

theorem chomped_readLine (strict : Bool) {line kept : Text} (h : EndedBy line kept) :
    (readLine strict kept).chomped = (readLine strict line).chomped := by
  obtain ⟨ends, lineEnds, same⟩ := id h
  simp only [readLine, h.blank_eq, h.read_eq]
  split
  · rfl
  split
  · rfl
  · next e _ =>
    cases strict with
    | true => rfl
    | false => simp [Run.chomped, Event.chomped, same, chomp_append line lineEnds]
  · rfl

/-- Up to line ends in warnings, a run over lines with their ends is the run over the lines. -/
theorem chomped_run (strict : Bool) {lines kept : List Text} (h : List.Forall₂ EndedBy lines kept) :
    (run strict kept).chomped = (run strict lines).chomped := by
  induction h with
  | nil => rfl
  | cons ended _ ih =>
    rw [run, run, chomped_append, chomped_append, chomped_readLine strict ended, ih]

end Transcript

namespace CommandLine

open Transcript

/-- Warnings show lines without their ends. -/
theorem report_chomped (format : Format) (level : Severity) (failure : Option RecordError)
    (events : List Event) :
    report format level failure (events.map Event.chomped)
      = report format level failure events := by
  induction events with
  | nil => rfl
  | cons event events ih =>
    rw [List.map_cons]
    cases event with
    | record r => simp only [Event.chomped, report, ih]
    | note n =>
      cases n with
      | parsed kind recordClass => simp only [Event.chomped, report, ih]
      | dropped line e =>
        have shown : logged level (.dropped (chomp line) e) = logged level (.dropped line e) := by
          rw [logged, logged, logLine, logLine, Note.message, Note.message, chomp_chomp]
          rfl
        simp only [Event.chomped, report, ih, shown]

theorem report_of_ended (format : Format) (level : Severity) (strict : Bool)
    {lines kept : List Text} (h : List.Forall₂ EndedBy lines kept) :
    report format level (run strict kept).failure (run strict kept).events
      = report format level (run strict lines).failure (run strict lines).events := by
  have same := chomped_run strict h
  have failure : (run strict kept).failure = (run strict lines).failure := by
    rw [← Run.failure_chomped, same, Run.failure_chomped]
  have events : (run strict kept).events.map Event.chomped
      = (run strict lines).events.map Event.chomped := by
    rw [← Run.events_chomped, same, Run.events_chomped]
  rw [failure, ← report_chomped, events, report_chomped]

theorem runOf_of_terminated (o : Options) {lines : List (List UInt8)}
    (unbroken : ∀ line ∈ lines, UnbrokenBytes line) {t : List UInt8}
    (h : Terminated LineEnd.bytes lines t) :
    runOf o t = run o.strict (lines.map Utf8.decode) := by
  have decoded : ∀ l ∈ lines.map Utf8.decode, l.Unbroken :=
    List.forall_mem_map.2 fun line mem => (unbroken line mem).decode
  rw [runOf, ← run_visible, visible_of_terminated (terminated_decode h) decoded, run_visible]

/-- **Line ends do not matter.** Transcripts of the same lines, each line ended by a line feed, a
carriage return or both, and the last one perhaps by nothing, have the same outcome, whatever the
options are. The program does as it would do if it kept any line ends at the back of the lines. And
a line is read as the same record, or with the same error, with any line ends after it. -/
theorem outcome_of_any_line_ends :
    (∀ (lines : List (List UInt8)) (t t' : List UInt8), (∀ line ∈ lines, UnbrokenBytes line) →
      Terminated LineEnd.bytes lines t → Terminated LineEnd.bytes lines t' →
        ∀ o, program o t = program o t') ∧
      (∀ (o : Options) (level : Severity) (t : List UInt8) (kept : List Text),
        o.logLevel = some level → List.Forall₂ EndedBy (Utf8.decode t).lines kept →
          program o t
            = report o.format level (run o.strict kept).failure (run o.strict kept).events) ∧
      ∀ line ends : Text, (∀ g ∈ ends, g.isLineEnd = true) →
        Record.read (line ++ ends) = Record.read line := by
  refine ⟨?kinds, ?kept, ?record⟩
  case kinds =>
    intro lines t t' unbroken h h' o
    cases hl : o.logLevel with
    | none => simp only [program, hl]
    | some level =>
      rw [program_eq_report hl, program_eq_report hl, runOf_of_terminated o unbroken h,
        runOf_of_terminated o unbroken h']
  case kept =>
    intro o level t kept hl ended
    rw [program_eq_report hl, report_of_ended o.format level o.strict ended, runOf]
  case record =>
    intro line ends lineEnds
    exact EndedBy.read_eq ⟨ends, lineEnds, rfl⟩

/-- The line feed of the empty line belongs to the carriage return before it, so the first of the
two transcripts has a line less. -/
theorem outcome_of_any_line_ends_merged :
    (∀ o, program o (Text.ofString "a\r\nx").bytes
        = program o (Text.ofString "a\n\nx\r\n").bytes) ∧
      (Text.ofString "a\r\nx").lines.length = 2 ∧
      (Text.ofString "a\n\nx\r\n").lines.length = 3 ∧
      program {} (Text.ofString "*a,\r\nx").bytes
        = report .json .warning none
            (run false [Text.ofString "*a,\n", Text.ofString "x\r"]).events ∧
      Record.read (Text.ofString "(gdb)\r\n\r") = .ok { kind := .prompt } := by
  obtain ⟨kinds, kept, record⟩ := outcome_of_any_line_ends
  refine ⟨?_, rfl, rfl, ?_, ?_⟩
  · let lines : List (List UInt8) := [(Text.ofString "a").bytes, [], (Text.ofString "x").bytes]
    have unbroken : ∀ line ∈ lines, UnbrokenBytes line := by
      simp only [lines, UnbrokenBytes]
      decide
    have merged : Terminated LineEnd.bytes lines (Text.ofString "a\r\nx").bytes :=
      .line (Text.ofString "a").bytes .ret (.line [] .feed (.last (Text.ofString "x").bytes))
    have apart : Terminated LineEnd.bytes lines (Text.ofString "a\n\nx\r\n").bytes :=
      .line (Text.ofString "a").bytes .feed
        (.line [] .feed (.line (Text.ofString "x").bytes .both .nil))
    exact kinds lines _ _ unbroken merged apart
  · have lines : (Utf8.decode (Text.ofString "*a,\r\nx").bytes).lines
        = [Text.ofString "*a,", Text.ofString "x"] := by
      rw [Utf8.decode_bytes]
      rfl
    have ended : List.Forall₂ EndedBy (Utf8.decode (Text.ofString "*a,\r\nx").bytes).lines
        [Text.ofString "*a,\n", Text.ofString "x\r"] := by
      rw [lines]
      exact .cons ⟨[Glyph.char '\n'], by decide, rfl⟩
        (.cons ⟨[Glyph.char '\r'], by decide, rfl⟩ .nil)
    exact kept {} .warning _ _ rfl ended
  · exact (record (Text.ofString "(gdb)") (Text.ofString "\r\n\r") (by decide)).trans rfl

end CommandLine

end GdbMi
