import GdbMi.CommandLine.Program
import GdbMi.Proofs.Record.Line
import GdbMi.Proofs.Transcript

/-!
# What the program prints

The program prints the records of a run in order and stops at the first one that cannot be printed
(`report_cases`, `report_of_printed`). As JSON every record can be printed; as a line one that has a
canonical line without stray bytes. Where the transcript is text, a record that was read keeps the
program from going on only if a bare field list inside it starts with an entry without an identifier
(`printed_unless_unkeyed`).
-/

namespace GdbMi.CommandLine
set_option autoImplicit false

/-! ## Lines for records -/

/-- The lines are those printed for the records, one for each. -/
def PrintedAs (format : Format) (records : List Record) (lines : List String) : Prop :=
  List.Forall₂ (fun r line => printed format r = .ok line) records lines

theorem printed_mi_eq_ok_iff {r : Record} {line : String} :
    printed .mi r = .ok line ↔ r.render = .ok (Text.ofString line) := by
  cases rendered : r.render with
  | error e => simp [printed, rendered]
  | ok t =>
    simp only [printed, rendered, Except.ok.injEq, ← Text.toString?_eq_some_iff]
    cases t.toString? <;> simp

/-- Every record can be printed as JSON. -/
theorem printedAs_json (records : List Record) :
    PrintedAs .json records (records.map fun r => r.toResponse.toJson.write) :=
  List.forall₂_map_right_iff.2 (List.forall₂_same.2 fun _ _ => rfl)

/-! ## Reports -/

/-- A run whose records can be printed is reported to its end. -/
theorem report_of_printed (level : Severity) {format : Format} {run : Transcript.Run}
    {lines : List String} (h : PrintedAs format run.records lines) :
    (report format level run.failure run.events).exit = (ending run.failure).exit ∧
      (report format level run.failure run.events).stdout = lines := by
  obtain ⟨events, failure⟩ := run
  induction events generalizing lines with
  | nil =>
    cases h
    rcases failure with _ | e
    · exact ⟨rfl, rfl⟩
    · cases e <;> exact ⟨rfl, rfl⟩
  | cons event events ih =>
    cases event with
    | note n => exact ih h
    | record r =>
      cases h with
      | cons first rest =>
        obtain ⟨exit, stdout⟩ := ih rest
        simp only [report, first, exit, stdout, and_self]

/-- Either all records of a run can be printed, or one that cannot ends the program. -/
theorem report_cases (format : Format) (level : Severity) (run : Transcript.Run) :
    (∃ lines, PrintedAs format run.records lines) ∨
      ∃ r ∈ run.records, ∃ e, printed format r = .error e ∧
        (report format level run.failure run.events).exit = .error e := by
  obtain ⟨events, failure⟩ := run
  induction events with
  | nil => exact .inl ⟨[], .nil⟩
  | cons event events ih =>
    cases event with
    | note n => exact ih
    | record r =>
      rw [Transcript.Run.records_record]
      cases first : printed format r with
      | error e =>
        refine .inr ⟨r, List.mem_cons_self, e, first, ?_⟩
        simp only [report, first]
      | ok line =>
        rcases ih with ⟨lines, rest⟩ | ⟨r', mem, e, refused, exit⟩
        · exact .inl ⟨line :: lines, .cons first rest⟩
        · refine .inr ⟨r', List.mem_cons_of_mem _ mem, e, refused, ?_⟩
          simp only [report, first]
          exact exit

/-! ## The program -/

/-- The run that the program reports. -/
def runOf (o : Options) (transcript : List UInt8) : Transcript.Run :=
  Transcript.run o.strict (Utf8.decode transcript).lines

theorem program_eq_report {o : Options} {level : Severity} (h : o.logLevel = some level)
    (transcript : List UInt8) :
    program o transcript
      = report o.format level (runOf o transcript).failure (runOf o transcript).events := by
  rw [program, h]
  rfl

/-- Lines that are all read are the records of the program's run. -/
theorem runOf_of_read (o : Options) {x : String} {lines : List Text} {records : List Record}
    (hl : (Text.ofString x).lines = lines) (h : List.Forall₂ ReadAs lines records) :
    (runOf o (Text.ofString x).bytes).records = records ∧
      (runOf o (Text.ofString x).bytes).failure = none := by
  rw [runOf, Utf8.decode_bytes, hl]
  exact Transcript.records_of_read o.strict h

/-- The program ends with an exit code only after it has printed all records of the run. -/
theorem printedAs_of_exit {o : Options} {transcript : List UInt8} {code : Nat}
    (h : (program o transcript).exit = .ok code) :
    PrintedAs o.format (runOf o transcript).records (program o transcript).stdout ∧
      (ending (runOf o transcript).failure).exit = .ok code := by
  cases hl : o.logLevel with
  | none =>
    rw [program, hl] at h
    cases h
  | some level =>
    rw [program_eq_report hl] at h ⊢
    rcases report_cases o.format level (runOf o transcript) with ⟨lines, all⟩ |
        ⟨r, -, e, -, exit⟩
    · obtain ⟨exit, stdout⟩ := report_of_printed level all
      rw [stdout]
      rw [exit] at h
      exact ⟨all, h⟩
    · rw [exit] at h
      cases h

/-! ## Records in the way -/

theorem visible_render {text : Text} {r : Record} (h : ReadAs text r) {s : Text}
    (rendered : r.render = .ok s) : Record.Visible text s :=
  Record.visible_render h.exists_not_blank h.read rendered

/-- A record that was read from text can be printed, unless a bare field list inside it starts with
an entry without an identifier. -/
theorem printed_mi_cases {text : Text} {r : Record} (h : ReadAs text r)
    (chars : ∀ g ∈ text, ∃ c, g = Glyph.char c) :
    (∃ line, printed .mi r = .ok line) ∧ (∀ entries, ¬ r.HoldsUnkeyed entries) ∨
      ∃ entries, r.HoldsUnkeyed entries ∧
        printed .mi r = .error (.render (.startsUnkeyed { entries })) := by
  rcases Record.writtenUnless h.read with ⟨⟨s, rendered⟩, none⟩ | ⟨entries, held, refused⟩
  · have eachChar : ∀ g ∈ s, ∃ c, g = Glyph.char c := by
      intro g hg
      rcases (visible_render h rendered).kept g hg with mem | ascii
      · exact chars g mem
      · exact ascii.exists_char
    obtain ⟨line, rfl⟩ := Text.exists_eq_ofString eachChar
    exact .inl ⟨⟨line, printed_mi_eq_ok_iff.2 rendered⟩, none⟩
  · refine .inr ⟨entries, held, ?_⟩
    simp only [printed, refused]

theorem char_of_mem_lines {t line : Text} (ht : ∃ x, t = Text.ofString x) (h : line ∈ t.lines) :
    ∀ g ∈ line, ∃ c, g = Glyph.char c := by
  obtain ⟨x, rfl⟩ := ht
  intro g hg
  obtain ⟨c, -, eq⟩ := List.mem_map.1 (Text.mem_of_mem_lines h hg)
  exact ⟨c, eq.symm⟩

/-- **Which records can be printed.** A record that was read has a canonical line, unless a bare
field list inside its fields starts with an entry without an identifier, and then there is an error
that names such a field list. So on a transcript that is text the program prints a line for every
record of the run and ends as the run did, unless a record holds such a field list, and then it ends
with that error. Values may be nested to any depth here: a limit on nested calls is left out. -/
theorem printed_unless_unkeyed :
    (∀ line r, Record.read line = .ok r →
      (∃ s, r.render = .ok s) ∧ (∀ entries, ¬ r.HoldsUnkeyed entries) ∨
        ∃ entries, r.HoldsUnkeyed entries ∧ r.render = .error (.startsUnkeyed { entries })) ∧
      ∀ (o : Options) (transcript : List UInt8), o.format = .mi → o.logLevel ≠ none →
        (∃ x, Utf8.decode transcript = Text.ofString x) →
          (∀ r ∈ (runOf o transcript).records, ∀ entries, ¬ r.HoldsUnkeyed entries) ∧
              PrintedAs .mi (runOf o transcript).records (program o transcript).stdout ∧
              (program o transcript).exit = (ending (runOf o transcript).failure).exit ∨
            ∃ r ∈ (runOf o transcript).records, ∃ entries, r.HoldsUnkeyed entries ∧
              (program o transcript).exit = .error (.render (.startsUnkeyed { entries })) := by
  refine ⟨fun line r => Record.writtenUnless, ?_⟩
  intro o transcript mi leveled text
  obtain ⟨level, hl⟩ := Option.ne_none_iff_exists'.1 leveled
  have cases_of_mem {r : Record} (hr : r ∈ (runOf o transcript).records) :=
    have ⟨line, mem, readAs⟩ := Transcript.exists_line_of_mem_records hr
    printed_mi_cases readAs (char_of_mem_lines text mem)
  rw [program_eq_report hl, mi]
  rcases report_cases .mi level (runOf o transcript) with ⟨lines, all⟩ | ⟨r, mem, e, refused, exit⟩
  · left
    obtain ⟨exit, stdout⟩ := report_of_printed level all
    rw [stdout]
    refine ⟨?_, all, exit⟩
    intro r hr
    obtain ⟨line, -, printed⟩ := exists_mem_of_forall₂ (List.Forall₂.flip all) hr
    rcases cases_of_mem hr with ⟨-, none⟩ | ⟨entries, -, refused⟩
    · exact none
    · rw [refused] at printed
      cases printed
  · right
    rcases cases_of_mem mem with ⟨⟨line, printed⟩, -⟩ | ⟨entries, held, refused'⟩
    · rw [printed] at refused
      cases refused
    · rw [refused'] at refused
      cases refused
      exact ⟨r, mem, entries, held, exit⟩

/-- A result with a string is written and printed. -/
theorem printed_unless_unkeyed_result :
    (∃ r s, Record.read (Text.ofString "^done,a=\"x\"") = .ok r ∧ r.render = .ok s) ∧
      (program { format := .mi } (Text.ofString "^done,a=\"x\"\n").bytes).exit = .ok 0 := by
  let r : Record :=
    { kind := .result
      recordClass := some (Text.ofString "done")
      payload := .data { entries := [(.named "a", .text "x")] } }
  have read : Record.read (Text.ofString "^done,a=\"x\"") = .ok r := rfl
  have lines : (Text.ofString "^done,a=\"x\"\n").lines = [Text.ofString "^done,a=\"x\""] := rfl
  obtain ⟨records, failure⟩ := runOf_of_read { format := .mi } lines (.cons ⟨rfl, read⟩ .nil)
  have keyed : ∀ entries, ¬ r.HoldsUnkeyed entries := by
    rintro entries ⟨f, eq, e, he, held⟩
    cases eq
    cases List.mem_singleton.1 he
    exact Value.holdsUnkeyed_text_iff.1 held
  constructor
  · rcases printed_unless_unkeyed.1 _ r read with ⟨⟨s, rendered⟩, -⟩ | ⟨entries, held, -⟩
    · exact ⟨r, s, read, rendered⟩
    · exact absurd held (keyed entries)
  · have text : ∃ x, Utf8.decode (Text.ofString "^done,a=\"x\"\n").bytes = Text.ofString x :=
      ⟨_, Utf8.decode_bytes _⟩
    rcases printed_unless_unkeyed.2 { format := .mi } _ rfl nofun text with
      ⟨-, -, exit⟩ | ⟨r', mem, entries, held, -⟩
    · rw [exit, failure]
      rfl
    · rw [records] at mem
      cases List.mem_singleton.1 mem
      exact absurd held (keyed entries)

/-- A list after an equals sign may begin with a comma, and then hold an entry without an
identifier. -/
theorem exists_read_not_render :
    ∃ r, Record.read (Text.ofString "^done,a=,\"x\"") = .ok r ∧ (∀ s, r.render ≠ .ok s) ∧
      ∀ code, (program { format := .mi } (Text.ofString "^done,a=,\"x\"\n").bytes).exit
        ≠ .ok code := by
  let r : Record :=
    { kind := .result
      recordClass := some (Text.ofString "done")
      payload := .data { entries := [(.named "a", .fields false [(.bare, .text "x")])] } }
  have read : Record.read (Text.ofString "^done,a=,\"x\"") = .ok r := rfl
  have refused : ∀ s, r.render ≠ .ok s := nofun
  have lines : (Text.ofString "^done,a=,\"x\"\n").lines = [Text.ofString "^done,a=,\"x\""] := rfl
  refine ⟨r, read, refused, ?_⟩
  intro code exit
  obtain ⟨printed, -⟩ := printedAs_of_exit exit
  rw [(runOf_of_read { format := .mi } lines (.cons ⟨rfl, read⟩ .nil)).1] at printed
  obtain ⟨line, -, first⟩ :=
    exists_mem_of_forall₂ (List.Forall₂.flip printed) (List.mem_singleton_self r)
  exact refused _ (printed_mi_eq_ok_iff.1 first)

end GdbMi.CommandLine
