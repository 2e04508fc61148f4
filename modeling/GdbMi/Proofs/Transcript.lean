import Mathlib.Data.List.Forall2
import Mathlib.Data.List.TakeWhile
import GdbMi.Transcript

/-!
# Runs over transcripts

What each line alone is read as says all about a run: a line gives a record, or it is malformed, or
its token is too long, and blank lines are passed over. A run takes the lines up to the first one
that ends it (`run_follows`). So every record of a run is read from a line that is not blank
(`exists_line_of_mem_records`), a lenient run is ended by nothing but a token that is too long
(`failure_of_lenient`), and a run over lines that are all read has exactly their records
(`records_of_read`).
-/

namespace GdbMi
set_option autoImplicit false

/-- The line is not blank and is read as the record. -/
structure ReadAs (line : Text) (r : Record) : Prop where
  visible : line.all Glyph.isBlank = false
  read : Record.read line = .ok r

theorem ReadAs.exists_not_blank {line : Text} {r : Record} (h : ReadAs line r) :
    ∃ g ∈ line, g.isBlank = false := by
  obtain ⟨g, hg, visible⟩ := List.all_eq_false.1 h.visible
  exact ⟨g, hg, by simpa using visible⟩

namespace Transcript

/-! ## Events -/

/-- The warnings among the notes of a run, in order. -/
def Run.warnings (run : Run) : List Note := run.notes.filter fun n => n.severity = .warning

theorem Run.records_record (events : List Event) (failure : Option RecordError) (r : Record) :
    records { events := .record r :: events, failure } = r :: records { events, failure } := rfl

theorem Run.append_of_no_failure {run : Run} (h : run.failure = none) (next : Run) :
    (run.append next).records = run.records ++ next.records ∧
      (run.append next).failure = next.failure := by
  obtain ⟨events, failure⟩ := run
  cases h
  exact ⟨List.filterMap_append, rfl⟩

theorem Run.warnings_append {run : Run} (h : run.failure = none) (next : Run) :
    (run.append next).warnings = run.warnings ++ next.warnings := by
  obtain ⟨events, failure⟩ := run
  cases h
  rw [append, warnings, notes, List.filterMap_append, List.filter_append]
  rfl

theorem records_noteOf (r : Record) :
    Run.records { events := noteOf r ++ [.record r] } = [r] := by
  unfold noteOf
  split <;> rfl

theorem warnings_noteOf (r : Record) :
    Run.warnings { events := noteOf r ++ [.record r] } = [] := by
  unfold noteOf
  split <;> rfl

/-! ## What one line does -/

/-- The lines that are not blank. -/
def visible (lines : List Text) : List Text := lines.filter fun line => !line.all Glyph.isBlank

/-- The record that the line is read as. -/
def record? (line : Text) : Option Record := (Record.read line).toOption

/-- The warning that tells that the line was dropped, if it is malformed. -/
def warning? (line : Text) : Option Note :=
  match Record.read line with
  | .error (.malformed e) => some (.dropped line e)
  | _ => none

/-- Whether a run goes no further than the error. -/
def isFinal (strict : Bool) : RecordError → Bool
  | .malformed _ => strict
  | .longToken _ => true

/-- The error of the line, if the run goes no further than the line. -/
def ending? (strict : Bool) (line : Text) : Option RecordError :=
  match Record.read line with
  | .ok _ => none
  | .error e => if isFinal strict e then some e else none

theorem record?_eq_some_iff {line : Text} {r : Record} :
    record? line = some r ↔ Record.read line = .ok r := by
  cases read : Record.read line <;> simp [record?, read, Except.toOption]

theorem readLine_of_ending {strict : Bool} {line : Text} {e : RecordError}
    (shown : line.all Glyph.isBlank = false) (h : ending? strict line = some e) :
    readLine strict line = { failure := some e } := by
  unfold ending? at h
  split at h
  · cases h
  · next e' read =>
    cases e' with
    | malformed e' =>
      cases strict <;> cases h
      simp [readLine, shown, read]
    | longToken n =>
      cases h
      simp [readLine, shown, read]

theorem readLine_of_no_ending {strict : Bool} {line : Text}
    (shown : line.all Glyph.isBlank = false) (h : ending? strict line = none) :
    (readLine strict line).failure = none ∧
      (readLine strict line).records = (record? line).toList ∧
      (readLine strict line).warnings = (warning? line).toList := by
  cases read : Record.read line with
  | ok r =>
    have run : readLine strict line = { events := noteOf r ++ [.record r] } := by
      simp [readLine, shown, read]
    have record := record?_eq_some_iff.2 read
    have warning : warning? line = none := by simp [warning?, read]
    rw [run, record, warning]
    exact ⟨rfl, records_noteOf r, warnings_noteOf r⟩
  | error e =>
    have goesOn : isFinal strict e = false := by simpa [ending?, read] using h
    cases e with
    | longToken n => cases goesOn
    | malformed e =>
      obtain rfl : strict = false := goesOn
      have run : readLine false line = { events := [.note (.dropped line e)] } := by
        simp [readLine, shown, read]
      have record : record? line = none := by simp [record?, read, Except.toOption]
      have warning : warning? line = some (.dropped line e) := by simp [warning?, read]
      rw [run, record, warning]
      exact ⟨rfl, rfl, rfl⟩

/-! ## What a run does -/

/-- The lines that are not blank and come before the one that ends the run. -/
def reached (strict : Bool) (lines : List Text) : List Text :=
  (visible lines).takeWhile fun line => (ending? strict line).isNone

/-- The run yields the records of the lines that it reaches, warns of those that are malformed, and
ends with the first line that ends it. -/
structure Follows (strict : Bool) (lines : List Text) (run : Run) : Prop where
  records : run.records = (reached strict lines).filterMap record?
  warnings : run.warnings = (reached strict lines).filterMap warning?
  failure : run.failure = (visible lines).findSome? (ending? strict)

/-- A blank line changes nothing. -/
theorem Follows.blank {strict : Bool} {line : Text} {lines : List Text} {run : Run}
    (blank : line.all Glyph.isBlank = true) (h : Follows strict lines run) :
    Follows strict (line :: lines) ((readLine strict line).append run) := by
  have skipped : visible (line :: lines) = visible lines := by simp [visible, blank]
  have empty : readLine strict line = {} := by simp [readLine, blank]
  have same : (readLine strict line).append run = run := by rw [empty, Run.append]; rfl
  rw [same]
  exact ⟨by rw [reached, skipped]; exact h.records, by rw [reached, skipped]; exact h.warnings,
    by rw [skipped]; exact h.failure⟩

/-- A line that ends the run is the last one that matters. -/
theorem Follows.ending {strict : Bool} {line : Text} (lines : List Text)
    (shown : line.all Glyph.isBlank = false) {e : RecordError} (h : ending? strict line = some e)
    (next : Run) : Follows strict (line :: lines) ((readLine strict line).append next) := by
  have first : visible (line :: lines) = line :: visible lines := by simp [visible, shown]
  have none : reached strict (line :: lines) = [] := by
    rw [reached, first, List.takeWhile_cons_of_neg (by simp [h])]
  rw [readLine_of_ending shown h]
  refine ⟨by rw [none]; rfl, by rw [none]; rfl, ?_⟩
  rw [first, List.findSome?_cons_of_isSome (by simp [h]), h]
  rfl

/-- A line that does not end the run adds its record or its warning. -/
theorem Follows.cons {strict : Bool} {line : Text} {lines : List Text} {run : Run}
    (shown : line.all Glyph.isBlank = false) (h : ending? strict line = none)
    (next : Follows strict lines run) :
    Follows strict (line :: lines) ((readLine strict line).append run) := by
  have first : visible (line :: lines) = line :: visible lines := by simp [visible, shown]
  have more : reached strict (line :: lines) = line :: reached strict lines := by
    rw [reached, first, List.takeWhile_cons_of_pos (by simp [h]), reached]
  obtain ⟨failure, records, warnings⟩ := readLine_of_no_ending shown h
  obtain ⟨bothRecords, bothFailure⟩ := Run.append_of_no_failure failure run
  refine ⟨?_, ?_, ?_⟩
  · rw [bothRecords, records, next.records, more, List.filterMap_cons]
    cases record? line <;> rfl
  · rw [Run.warnings_append failure, warnings, next.warnings, more, List.filterMap_cons]
    cases warning? line <;> rfl
  · rw [bothFailure, next.failure, first, List.findSome?_cons_of_isNone (by simp [h])]

/-- A run follows from what its lines are read as. -/
theorem run_follows (strict : Bool) (lines : List Text) :
    Follows strict lines (run strict lines) := by
  induction lines with
  | nil => exact ⟨rfl, rfl, rfl⟩
  | cons line lines ih =>
    rw [run]
    cases shown : line.all Glyph.isBlank with
    | true => exact ih.blank shown
    | false =>
      cases h : ending? strict line with
      | none => exact ih.cons shown h
      | some e => exact .ending lines shown h _

/-! ## Records and failures of a run -/

/-- Every record of a run is read from one of the lines, which is not blank. -/
theorem exists_line_of_mem_records {strict : Bool} {lines : List Text} {r : Record}
    (h : r ∈ (run strict lines).records) : ∃ line ∈ lines, ReadAs line r := by
  rw [(run_follows strict lines).records] at h
  obtain ⟨line, hl, record⟩ := List.mem_filterMap.1 h
  have shown : line ∈ visible lines := (List.takeWhile_prefix _).subset hl
  obtain ⟨mem, notBlank⟩ := List.mem_filter.1 shown
  exact ⟨line, mem, by simpa using notBlank, record?_eq_some_iff.1 record⟩

/-- Malformed lines do not end a lenient run. -/
theorem failure_of_lenient {lines : List Text} {e : RecordError}
    (h : (run false lines).failure = some e) : ∃ digits, e = .longToken digits := by
  rw [(run_follows false lines).failure] at h
  obtain ⟨line, -, ends⟩ := List.exists_of_findSome?_eq_some h
  unfold ending? at ends
  split at ends
  · cases ends
  · next e' read =>
    cases e' with
    | malformed e' => cases ends
    | longToken digits =>
      cases ends
      exact ⟨digits, rfl⟩

/-- Lines that are all read are the records of the run over them, which comes to its end. -/
theorem records_of_read (strict : Bool) {lines : List Text} {records : List Record}
    (h : List.Forall₂ ReadAs lines records) :
    (run strict lines).records = records ∧ (run strict lines).failure = none := by
  induction h with
  | nil => exact ⟨rfl, rfl⟩
  | @cons line r lines records first _ ih =>
    have goesOn : ending? strict line = none := by rw [ending?, first.read]
    obtain ⟨failure, record, -⟩ := readLine_of_no_ending first.visible goesOn
    obtain ⟨both, end_⟩ := Run.append_of_no_failure failure (run strict lines)
    rw [run, both, end_, record, record?_eq_some_iff.2 first.read, ih.1, ih.2]
    exact ⟨rfl, rfl⟩

end Transcript

end GdbMi
