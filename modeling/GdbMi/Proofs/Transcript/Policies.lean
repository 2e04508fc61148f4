import GdbMi.Proofs.Record.Classification
import GdbMi.Proofs.Record.Line
import GdbMi.Proofs.Transcript

/-!
# Strict runs and lenient ones

Malformed lines end strict runs only, so a strict run is the beginning of the lenient one, and runs
over lines of which none ends them are the same (`run_line_by_line`). A lenient run is ended by a
token that is too long and by nothing else (`lenient_run_ends_or_long_token`).
-/

namespace GdbMi.Transcript
set_option autoImplicit false

/-! ## Strict runs and lenient ones -/

theorem ending?_strict_eq_none_iff {line : Text} :
    ending? true line = none ↔ ∃ r, Record.read line = .ok r := by
  cases read : Record.read line with
  | ok r => simp [ending?, read]
  | error e => cases e <;> simp [ending?, read, isFinal]

/-- A line that does not end a strict run ends no run, and there is nothing to warn of. -/
theorem of_ending?_strict_eq_none {line : Text} (h : ending? true line = none) :
    ending? false line = none ∧ warning? line = none := by
  obtain ⟨r, read⟩ := ending?_strict_eq_none_iff.1 h
  simp [ending?, warning?, read]

theorem reached_strict_prefix_lenient (lines : List Text) :
    reached true lines <+: reached false lines := by
  have both : reached true lines
      = (reached false lines).takeWhile fun line => (ending? true line).isNone := by
    rw [reached, reached, List.takeWhile_takeWhile]
    congr 1
    funext line
    cases h : ending? true line with
    | some e => rfl
    | none => simp [(of_ending?_strict_eq_none h).1]
  rw [both]
  exact List.takeWhile_prefix _

theorem warnings_strict (lines : List Text) : (run true lines).warnings = [] := by
  rw [(run_follows true lines).warnings, List.filterMap_eq_nil_iff]
  intro line hl
  have goesOn := List.mem_takeWhile_imp hl
  exact (of_ending?_strict_eq_none (Option.isNone_iff_eq_none.1 goesOn)).2

/-- A run that comes to its end has reached every line. -/
theorem reached_of_no_failure {strict : Bool} {lines : List Text}
    (h : (run strict lines).failure = none) : reached strict lines = visible lines := by
  rw [(run_follows strict lines).failure, List.findSome?_eq_none_iff] at h
  rw [reached, List.takeWhile_eq_self_iff]
  intro line hl
  rw [h line hl]
  rfl

theorem lenient_of_no_strict_failure {lines : List Text} (h : (run true lines).failure = none) :
    (run false lines).failure = none ∧ (run false lines).records = (run true lines).records ∧
      (run false lines).warnings = [] := by
  have strict := reached_of_no_failure h
  rw [(run_follows true lines).failure, List.findSome?_eq_none_iff] at h
  have failure : (run false lines).failure = none := by
    rw [(run_follows false lines).failure, List.findSome?_eq_none_iff]
    exact fun line hl => (of_ending?_strict_eq_none (h line hl)).1
  have lenient := reached_of_no_failure failure
  refine ⟨failure, ?_, ?_⟩
  · rw [(run_follows false lines).records, (run_follows true lines).records, lenient, strict]
  · rw [(run_follows false lines).warnings, lenient, List.filterMap_eq_nil_iff]
    exact fun line hl => (of_ending?_strict_eq_none (h line hl)).2

/-- A run that has come to its end goes on with more lines as if they were all there are. -/
theorem run_append_of_no_failure {strict : Bool} {lines : List Text}
    (h : (run strict lines).failure = none) (more : List Text) :
    run strict (lines ++ more)
      = { events := (run strict lines).events ++ (run strict more).events
          failure := (run strict more).failure } := by
  rw [run_append, Run.append, h]

/-- **Runs, line by line.** A run, strict or not, yields the records of the lines that are not blank
up to the first one that ends it, warns of every malformed line among them and of no other one, and
fails with the error of the line that ends it. Any error ends a strict run, and a lenient one goes
on after malformed lines. So a strict run warns of nothing and yields the first of the records that
the lenient run yields; if it does not fail, it yields all of them, and the lenient run warns of
nothing either. A run that does not fail goes on with more lines as if they were all there are. -/
theorem run_line_by_line (lines : List Text) :
    (∀ strict, Follows strict lines (run strict lines)) ∧
      (run true lines).warnings = [] ∧
      (run true lines).records <+: (run false lines).records ∧
      ((run true lines).failure = none →
        (run false lines).failure = none ∧ (run false lines).records = (run true lines).records ∧
          (run false lines).warnings = []) ∧
      ∀ strict more, (run strict lines).failure = none →
        (run strict (lines ++ more)).records
            = (run strict lines).records ++ (run strict more).records ∧
          (run strict (lines ++ more)).notes = (run strict lines).notes ++ (run strict more).notes ∧
          (run strict (lines ++ more)).failure = (run strict more).failure := by
  refine ⟨fun strict => run_follows strict lines, warnings_strict lines, ?_,
    lenient_of_no_strict_failure, ?_⟩
  · rw [(run_follows true lines).records, (run_follows false lines).records]
    exact (reached_strict_prefix_lenient lines).filterMap record?
  · intro strict more h
    rw [run_append_of_no_failure h more]
    exact ⟨List.filterMap_append, List.filterMap_append, rfl⟩

/-- A result and a blank line, and then a line whose field has no value. -/
theorem run_line_by_line_result :
    (run false [Text.ofString "^done\n", Text.ofString " \n"]).warnings = [] ∧
      (run false ([Text.ofString "^done\n", Text.ofString " \n"]
        ++ [Text.ofString "^done,a="])).records.length = 1 ∧
      (run true ([Text.ofString "^done\n", Text.ofString " \n"]
        ++ [Text.ofString "^done,a="])).failure = some (.malformed Reader.exhausted) := by
  obtain ⟨-, -, -, clean, more⟩ :=
    run_line_by_line [Text.ofString "^done\n", Text.ofString " \n"]
  refine ⟨(clean rfl).2.2, ?_, ?_⟩
  · rw [(more false [Text.ofString "^done,a="] rfl).1]
    rfl
  · rw [(more true [Text.ofString "^done,a="] rfl).2.2]
    rfl

/-! ## What ends a lenient run -/

/-- The line has a head with so many digits, which are too many for a token. -/
def LongToken (line : Text) (digits : Nat) : Prop :=
  ∃ h, Marked (chomp line) (.head h) ∧ h.digits.length = digits ∧ 4300 < digits

theorem read_eq_longToken_iff {line : Text} {digits : Nat} :
    Record.read line = .error (.longToken digits) ↔ LongToken line digits := by
  obtain ⟨f, hf, -⟩ := existsUnique_hasForm (chomp line)
  constructor
  · intro h
    rw [Record.read_eq_outcome hf] at h
    cases f with
    | prompt => cases h
    | output => cases h
    | stream kind literal =>
      cases parsed : Literal.parse literal <;> simp [Form.outcome, parsed] at h
    | head head =>
      have marked : Marked (chomp line) (.head head) := by
        cases hf
        assumption
      by_cases long : 4300 < head.digits.length
      · simp only [Form.outcome, if_pos long] at h
        cases h
        exact ⟨head, marked, rfl, long⟩
      · rw [Form.outcome, if_neg long] at h
        split at h <;> cases h
  · rintro ⟨head, marked, rfl, long⟩
    rw [Record.read_eq_outcome (.marked marked), Form.outcome, if_pos long]

theorem ending?_lenient_eq_some_iff {line : Text} {e : RecordError} :
    ending? false line = some e ↔ ∃ digits, LongToken line digits ∧ e = .longToken digits := by
  simp only [← read_eq_longToken_iff]
  cases read : Record.read line with
  | ok r => simp [ending?, read]
  | error e' => cases e' <;> simp [ending?, read, isFinal, eq_comm]

/-- A line with a head is not blank, because its sigil is not. -/
theorem LongToken.not_blank {line : Text} {digits : Nat} (h : LongToken line digits) :
    line.all Glyph.isBlank = false := by
  obtain ⟨head, marked, -, -⟩ := h
  obtain ⟨-, sigil, hs, spelled⟩ := Record.head?_eq_some_iff.1 (marked_head_iff.1 marked)
  have mem : Glyph.char sigil ∈ chomp line := by
    rw [spelled]
    exact List.mem_append_right _ List.mem_cons_self
  rw [List.all_eq_false]
  refine ⟨_, Record.mem_of_mem_chomp mem, ?_⟩
  simp [(Record.printableAscii_sigil hs).2]

theorem run_of_longToken {line : Text} {digits : Nat} (h : LongToken line digits)
    (after : List Text) :
    run false (line :: after) = { failure := some (.longToken digits) } := by
  have ends : ending? false line = some (.longToken digits) :=
    ending?_lenient_eq_some_iff.2 ⟨digits, h, rfl⟩
  rw [run, readLine_of_ending h.not_blank ends, Run.append]

theorem failure_of_no_ending {lines : List Text} (h : ∀ line ∈ lines, ending? false line = none) :
    (run false lines).failure = none := by
  rw [(run_follows false lines).failure, List.findSome?_eq_none_iff]
  exact fun line hl => h line (List.mem_filter.1 hl).1

/-- A line that does not end a lenient run is read, or there is a warning that it was dropped. -/
theorem record_or_warning {line : Text} (h : ending? false line = none) :
    (∃ r, record? line = some r ∧ warning? line = none) ∨
      ∃ n, record? line = none ∧ warning? line = some n := by
  cases read : Record.read line with
  | ok r => exact .inl ⟨r, record?_eq_some_iff.2 read, by simp [warning?, read]⟩
  | error e =>
    cases e with
    | longToken n => simp [ending?, read, isFinal] at h
    | malformed e =>
      exact .inr ⟨.dropped line e, by simp [record?, warning?, read, Except.toOption]⟩

/-- **What ends a lenient run.** Either no line has too many digits for a token, and then the run
comes to its end and every line that is not blank gives a record or is dropped with a warning. Or
the first such line ends the run with the error of its token, after what the lines before it
give. A limit on nested calls, at which an interpreter would give up a line, is left out. -/
theorem lenient_run_ends_or_long_token (lines : List Text) :
    ((∀ line ∈ lines, ∀ n, ¬ LongToken line n) ∧ (run false lines).failure = none ∧
        (run false lines).records = (visible lines).filterMap record? ∧
        (run false lines).warnings = (visible lines).filterMap warning? ∧
        ∀ line ∈ visible lines, (∃ r, record? line = some r ∧ warning? line = none) ∨
          ∃ n, record? line = none ∧ warning? line = some n) ∨
      ∃ before line after n, lines = before ++ line :: after ∧
        (∀ line ∈ before, ∀ n, ¬ LongToken line n) ∧ LongToken line n ∧
        run false lines = { run false before with failure := some (.longToken n) } := by
  have short {lines : List Text} (h : ∀ line ∈ lines, ending? false line = none) :
      ∀ line ∈ lines, ∀ n, ¬ LongToken line n := by
    intro line hl n long
    have none := h line hl
    rw [ending?_lenient_eq_some_iff.2 ⟨n, long, rfl⟩] at none
    cases none
  cases first : lines.findSome? (ending? false) with
  | none =>
    left
    rw [List.findSome?_eq_none_iff] at first
    have failure := failure_of_no_ending first
    have all := reached_of_no_failure failure
    refine ⟨short first, failure, ?_, ?_, ?_⟩
    · rw [(run_follows false lines).records, all]
    · rw [(run_follows false lines).warnings, all]
    · exact fun line hl => record_or_warning (first line (List.mem_filter.1 hl).1)
  | some e =>
    right
    obtain ⟨before, line, after, rfl, ends, earlier⟩ := List.findSome?_eq_some_iff.1 first
    obtain ⟨n, long, rfl⟩ := ending?_lenient_eq_some_iff.1 ends
    refine ⟨before, line, after, n, rfl, short earlier, long, ?_⟩
    rw [run_append_of_no_failure (failure_of_no_ending earlier), run_of_longToken long]
    simp

/-- Digits and a result without fields after them. -/
theorem longToken_result {digits : Text} (all : ∀ g ∈ digits, g.isDigit = true)
    (long : 4300 < digits.length) :
    LongToken (digits ++ Text.ofString "^done") digits.length := by
  let head : Record.Head :=
    { digits, kind := .result, recordClass := Text.ofString "done", body := none }
  have spelled : Text.ofString "^done"
      = Glyph.char '^' :: (Text.ofString "done" ++ Record.bodyText none) := rfl
  have settled : Settled (Text.ofString "^done") := ⟨Text.ofString "^don", 'e', rfl, rfl⟩
  refine ⟨head, ?_, rfl, long⟩
  rw [(settled.append digits).chomp_eq, spelled]
  exact .head all .result (by decide) (by decide)

/-- A token of 4301 digits ends a lenient run. -/
theorem not_forall_lenient_run_ends : ¬ ∀ lines, (run false lines).failure = none := by
  have all : ∀ g ∈ List.replicate 4301 (Glyph.char '1'), g.isDigit = true := by
    intro g hg
    rw [List.eq_of_mem_replicate hg]
    rfl
  have length : (List.replicate 4301 (Glyph.char '1')).length = 4301 := List.length_replicate
  have long := longToken_result all (by rw [length]; decide)
  intro ends
  have failure := ends [List.replicate 4301 (Glyph.char '1') ++ Text.ofString "^done"]
  rw [run_of_longToken long []] at failure
  cases failure

end GdbMi.Transcript
