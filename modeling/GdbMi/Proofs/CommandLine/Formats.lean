import GdbMi.Proofs.CommandLine.Report

/-!
# The two formats agree

The lines that the program prints are a transcript themselves. Each of them is one line, not blank,
and read as the record that it was printed for, with normal field values (`Reprinted`). So a strict
run over them prints the same lines again, and as JSON what the first run would have printed
(`formats_agree`).
-/

namespace GdbMi.CommandLine
set_option autoImplicit false

/-! ## Written lines -/

theorem ofString_written (lines : List String) :
    Text.ofString (written lines)
      = (lines.map Text.ofString).flatMap (· ++ [Glyph.char '\n']) := by
  induction lines with
  | nil => rfl
  | cons line lines ih =>
    have first : written (line :: lines) = line ++ "\n" ++ written lines := by
      rw [written, List.map_cons, String.join_cons, written]
    rw [first, Text.ofString_append, Text.ofString_append, ih]
    rfl

/-- Lines without line ends in them are read back. -/
theorem lines_written {lines : List String} (h : ∀ line ∈ lines, (Text.ofString line).Unbroken) :
    (Text.ofString (written lines)).lines = lines.map Text.ofString := by
  rw [ofString_written]
  exact Text.lines_flatMap_newline (List.forall_mem_map.2 h)

/-! ## Lines that were printed -/

/-- The line is a line and is read as the record with normal field values, for which it is printed
again. -/
structure Reprinted (r : Record) (line : String) : Prop where
  unbroken : (Text.ofString line).Unbroken
  readAs : ReadAs (Text.ofString line) r.normal
  render : r.normal.render = .ok (Text.ofString line)

theorem reprinted {text : Text} (unbroken : text.Unbroken) {r : Record} (h : ReadAs text r)
    {line : String} (printed : printed .mi r = .ok line) : Reprinted r line := by
  have rendered := printed_mi_eq_ok_iff.1 printed
  obtain ⟨read, again⟩ := Record.read_render h.read rendered
  have visible := visible_render h rendered
  obtain ⟨g, hg, notBlank⟩ := visible.visible
  have shown : (Text.ofString line).all Glyph.isBlank = false :=
    List.all_eq_false.2 ⟨g, hg, by simp [notBlank]⟩
  exact ⟨visible.unbroken unbroken, ⟨shown, read⟩, again⟩

/-- What the program prints for the records of a run. -/
theorem reprinted_of_printedAs {strict : Bool} {t : Text} {lines : List String}
    (h : PrintedAs .mi (Transcript.run strict t.lines).records lines) :
    List.Forall₂ Reprinted (Transcript.run strict t.lines).records lines := by
  have read : ∀ r ∈ (Transcript.run strict t.lines).records, ∃ text ∈ t.lines, ReadAs text r :=
    fun r => Transcript.exists_line_of_mem_records
  refine List.Forall₂.imp ?_ ((List.forall₂_and_left _ _).2 ⟨read, h⟩)
  rintro r line ⟨⟨text, mem, readAs⟩, printed⟩
  exact reprinted (Text.unbroken_of_mem_lines mem) readAs printed

/-! ## The second run -/

theorem unbroken_of_reprinted {records : List Record} {lines : List String}
    (h : List.Forall₂ Reprinted records lines) : ∀ line ∈ lines, (Text.ofString line).Unbroken := by
  intro line mem
  obtain ⟨r, -, printed⟩ := exists_mem_of_forall₂ h mem
  exact printed.unbroken

/-- Printed lines are the transcript of the records with normal field values, and nothing ends the
run over them. -/
theorem runOf_written (o : Options) {records : List Record} {lines : List String}
    (h : List.Forall₂ Reprinted records lines) :
    (runOf o (Text.ofString (written lines)).bytes).records = records.map Record.normal ∧
      (runOf o (Text.ofString (written lines)).bytes).failure = none := by
  refine runOf_of_read o (lines_written (unbroken_of_reprinted h)) ?_
  rw [List.forall₂_map_left_iff, List.forall₂_map_right_iff]
  exact (h.imp fun _ _ printed => printed.readAs).flip

/-- A program whose records can all be printed prints them and ends well. -/
theorem program_of_printed (o : Options) (leveled : o.logLevel ≠ none) {transcript : List UInt8}
    (ended : (runOf o transcript).failure = none) {lines : List String}
    (h : PrintedAs o.format (runOf o transcript).records lines) :
    (program o transcript).exit = .ok 0 ∧ (program o transcript).stdout = lines := by
  obtain ⟨level, hl⟩ := Option.ne_none_iff_exists'.1 leveled
  obtain ⟨exit, stdout⟩ := report_of_printed level h
  rw [program_eq_report hl, exit, stdout, ended]
  exact ⟨rfl, rfl⟩

theorem program_json (o : Options) (leveled : o.logLevel ≠ none) (json : o.format = .json)
    {transcript : List UInt8} (ended : (runOf o transcript).failure = none) :
    (program o transcript).exit = .ok 0 ∧
      (program o transcript).stdout
        = (runOf o transcript).records.map fun r => r.toResponse.toJson.write := by
  apply program_of_printed o leveled ended
  rw [json]
  exact printedAs_json _

/-- Printed lines are printed again, unchanged. -/
theorem program_mi_written (o : Options) (leveled : o.logLevel ≠ none) (mi : o.format = .mi)
    {records : List Record} {lines : List String} (h : List.Forall₂ Reprinted records lines) :
    (program o (Text.ofString (written lines)).bytes).exit = .ok 0 ∧
      (program o (Text.ofString (written lines)).bytes).stdout = lines := by
  obtain ⟨normal, ended⟩ := runOf_written o h
  apply program_of_printed o leveled ended
  rw [normal, mi]
  rw [PrintedAs, List.forall₂_map_left_iff]
  exact h.imp fun _ _ printed => printed_mi_eq_ok_iff.2 printed.render

/-- As JSON they are printed like the records that they were printed for. -/
theorem program_json_written (o : Options) (leveled : o.logLevel ≠ none) (json : o.format = .json)
    {records : List Record} {lines : List String} (h : List.Forall₂ Reprinted records lines) :
    (program o (Text.ofString (written lines)).bytes).exit = .ok 0 ∧
      (program o (Text.ofString (written lines)).bytes).stdout
        = records.map fun r => r.toResponse.toJson.write := by
  obtain ⟨normal, ended⟩ := runOf_written o h
  obtain ⟨exit, stdout⟩ := program_json o leveled json ended
  refine ⟨exit, ?_⟩
  rw [stdout, normal, List.map_map]
  refine List.map_congr_left ?_
  intro r _
  rw [Function.comp_apply, Record.toResponse_normal]

theorem failure_eq_none_of_exit {lines : List Text} {code : Nat}
    (h : (ending (Transcript.run false lines).failure).exit = .ok code) :
    (Transcript.run false lines).failure = none := by
  cases failed : (Transcript.run false lines).failure with
  | none => rfl
  | some e =>
    obtain ⟨digits, rfl⟩ := Transcript.failure_of_lenient failed
    rw [failed] at h
    cases h

/-- **The two formats agree.** Where a lenient run prints lines and ends well, there is one line for
each record, and none is blank. As a transcript they are printed again, unchanged, by a strict run,
and as JSON like the records of the first run. -/
theorem formats_agree (o : Options) (transcript : List UInt8) (code : Nat)
    (lenient : o.strict = false) (mi : o.format = .mi)
    (h : (program o transcript).exit = .ok code) :
    let out := (program o transcript).stdout
    let again := (Text.ofString (written out)).bytes
    (Utf8.decode again).lines = out.map Text.ofString ∧
      List.Forall₂ (fun r line => r.render = .ok (Text.ofString line))
        (Transcript.run false (Utf8.decode transcript).lines).records out ∧
      (∀ line ∈ out, (Text.ofString line).all Glyph.isBlank = false) ∧
      ((program { o with strict := true } again).exit = .ok 0 ∧
        (program { o with strict := true } again).stdout = out) ∧
      (program { o with strict := true, format := .json } again).exit = .ok 0 ∧
      (program { o with format := .json } transcript).exit = .ok 0 ∧
      (program { o with strict := true, format := .json } again).stdout
        = (program { o with format := .json } transcript).stdout := by
  intro out again
  obtain ⟨printed, ended⟩ := printedAs_of_exit h
  have leveled : o.logLevel ≠ none := by
    intro none
    rw [program, none] at h
    cases h
  have first : runOf o transcript = Transcript.run false (Utf8.decode transcript).lines := by
    rw [runOf, lenient]
  rw [first] at ended printed
  rw [mi] at printed
  have each := reprinted_of_printedAs printed
  -- the format does not matter to the run
  have same : runOf { o with format := .json } transcript
      = Transcript.run false (Utf8.decode transcript).lines := first
  have failure : (runOf { o with format := .json } transcript).failure = none := by
    rw [same, failure_eq_none_of_exit ended]
  obtain ⟨exit, json⟩ := program_json { o with format := .json } leveled rfl failure
  obtain ⟨againExit, againJson⟩ :=
    program_json_written { o with strict := true, format := .json } leveled rfl each
  refine ⟨?_, printed.imp fun _ _ => printed_mi_eq_ok_iff.1, ?_, ?_, againExit, exit, ?_⟩
  · rw [Utf8.decode_bytes]
    exact lines_written (unbroken_of_reprinted each)
  · intro line mem
    obtain ⟨r, -, line⟩ := exists_mem_of_forall₂ each mem
    exact line.readAs.visible
  · exact program_mi_written { o with strict := true } leveled mi each
  · rw [againJson, json, same]

/-- The options of the second run, as they are asked for. -/
example : Options.ofArguments ["--strict", "--format", "mi", "log.txt"]
    = .ok { input := "log.txt", strict := true, format := .mi } := by rfl

/-- A transcript with a blank line and a malformed one is printed as two lines, which a strict run
prints again. -/
theorem formats_agree_two_lines :
    (program { strict := true, format := .mi }
      (Text.ofString "1^done,a=[\"x\",[]]\n(gdb)\n").bytes).stdout
        = ["1^done,a=[\"x\",[]]", "(gdb)"] := by
  let o : Options := { format := .mi }
  let transcript := (Text.ofString "01^done,a=[\"x\",]\n \n*stopped,(\n(gdb) \n").bytes
  let records : List Record :=
    [{ kind := .result
       recordClass := some (Text.ofString "done")
       token := some 1
       payload := .data { entries := [(.named "a", .list [.text "x", .fields false []])] } },
      { kind := .prompt }]
  let lines := ["1^done,a=[\"x\",[]]", "(gdb)"]
  have printed : PrintedAs .mi records lines := .cons rfl (.cons rfl .nil)
  have run : (runOf o transcript).records = records ∧ (runOf o transcript).failure = none := by
    rw [runOf, Utf8.decode_bytes]
    exact ⟨rfl, rfl⟩
  obtain ⟨exit, stdout⟩ := program_of_printed o (by decide) run.2 (run.1 ▸ printed)
  obtain ⟨-, -, -, ⟨-, again⟩, -⟩ := formats_agree o transcript 0 rfl rfl exit
  rw [stdout] at again
  exact again

end GdbMi.CommandLine
