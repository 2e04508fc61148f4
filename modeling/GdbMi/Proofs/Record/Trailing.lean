import GdbMi.Proofs.Record.RoundTrip
import GdbMi.Proofs.Value.Ending

/-!
# Spacing after values

Where a value ends with the text, in a list or in bare fields, spacing after the text is an error,
since it promises more. Fields at the top always end with the text, so spacing after them is never
allowed, and a line with fields that blanks follow is malformed.
-/

namespace GdbMi
set_option autoImplicit false

open Reader

/-! ## Fields and values -/

theorem skipSpacing_append {r w : Text} (hr : skipSpacing r = []) (hw : IsSpacingRun w) :
    skipSpacing (r ++ w) = [] := by
  have spacing : ∀ g ∈ r, g.isSpacing = true := List.dropWhile_eq_nil_iff.1 hr
  rw [skipSpacing, List.dropWhile_append_of_pos spacing]
  exact List.dropWhile_eq_nil_iff.2 hw.spacing

/-- Bare fields at the top end with the text, so spacing may not follow them. -/
theorem FieldList.parse_append_eq_exhausted {t : Text} {f : FieldList}
    (h : FieldList.parse t = .ok f) {w : Text} (hw : IsSpacingRun w) :
    FieldList.parse (t ++ w) = .error exhausted := by
  rw [FieldList.parse, read_bare] at h
  obtain ⟨v, whole, rfl⟩ := Reading.whole_map_eq_ok_iff.1 h
  obtain ⟨r, ran, left⟩ := Reading.whole_eq_ok_iff.1 whole
  rcases run_eq_ok_cases ran with ⟨u, rfl, closed⟩ | stopped | ⟨rfl, ends⟩
  · -- nothing closes such fields: one more comma would have to be allowed
    have more := read_bare (u ++ [Glyph.char ','])
    rw [closed] at more
    obtain ⟨ended, -⟩ : Phrase.Reads (.fields v.entries) _ _ :=
      reads_of_derives (FieldList.read_eq_ok_iff.1 more).2
    rcases ended with nil | ⟨g, u, eq, hg⟩
    · cases nil
    · cases eq
      rcases hg with hg | hg <;> cases hg
  · exact absurd stopped (not_stopped_of_skipSpacing left)
  · rw [FieldList.parse, read_bare, ends w hw]
    rfl

/-- Spacing may follow a value exactly if a front of the text spells the value, whatever comes after
it. -/
theorem Value.parse_append_spacing_cases {t : Text} {v : Value} (h : Value.parse t = .ok v)
    {w : Text} (hw : IsSpacingRun w) :
    Value.parse (t ++ w) = .ok v ∧ (∃ u, u <+: t ∧ v.SpelledBy u) ∨
      Value.parse (t ++ w) = .error exhausted ∧ ¬ ∃ u, u <+: t ∧ v.SpelledBy u := by
  have tolerant {u r : Text} (spelled : v.SpelledBy u) (left : skipSpacing r = []) :
      Value.parse (u ++ r ++ w) = .ok v := by
    rw [List.append_assoc, Value.parse_eq_ok_iff]
    exact ⟨r ++ w, spelled _, skipSpacing_append left hw⟩
  obtain ⟨r, ran, left⟩ := Reading.whole_eq_ok_iff.1 h
  rcases run_eq_ok_cases ran with ⟨u, rfl, closed⟩ | stopped | ⟨rfl, ends⟩
  · have spelled : v.SpelledBy u := fun z => Value.read_eq_ok_iff.1 (closed z)
    exact .inl ⟨tolerant spelled left, u, List.prefix_append u r, spelled⟩
  · exact absurd stopped (not_stopped_of_skipSpacing left)
  · have refused : Value.parse (t ++ w) = .error exhausted := by
      rw [Value.parse, Value.read, ends w hw]
      rfl
    refine .inr ⟨refused, ?_⟩
    rintro ⟨u, ⟨r, rfl⟩, spelled⟩
    have whole := Value.read_eq_ok_iff.2 (spelled r)
    rw [ran] at whole
    cases whole
    rw [tolerant spelled left] at refused
    cases refused

/-! ## Records -/

theorem Glyph.isSpacing_of_isLineEnd {g : Glyph} (h : g.isLineEnd = true) :
    g.isSpacing = true := by
  simp only [Glyph.isLineEnd, Bool.or_eq_true, decide_eq_true_eq] at h
  rcases h with rfl | rfl <;> rfl

/-- Blanks after a text keep it from ending in a line end. -/
theorem settled_of_blanks {w : Text} (hw : w ≠ []) (blank : ∀ g ∈ w, g = ' ' ∨ g = '\t') :
    Settled w := by
  obtain ⟨u, g, eq⟩ := (List.eq_nil_or_concat w).resolve_left hw
  rw [List.concat_eq_append] at eq
  have last : g = ' ' ∨ g = '\t' := by
    apply blank
    rw [eq]
    exact List.mem_append_right _ List.mem_cons_self
  refine ⟨u, g, eq, ?_⟩
  rcases last with rfl | rfl <;> rfl

namespace Record

/-- A head whose body does not parse is malformed, unless its token is too long. -/
theorem ofHead_of_parse_error {h : Head} {token : Option Int} (htoken : token? h.digits = .ok token)
    {body : Text} (hbody : h.body = some body) {e : ParseError}
    (failed : FieldList.parse body = .error e) : ofHead h = .error (.malformed e) := by
  simp [ofHead, htoken, hbody, fields?, failed, bind, Except.bind, Except.mapError, Except.map]

/-- What follows a line with a body is part of the body, and so are the ends of the line. -/
theorem read_append_of_head {line : Text} {head : Head} (found : head? (chomp line) = some head)
    {body : Text} (hbody : head.body = some body) {w : Text} (settled : Settled w) :
    ∃ ends, (∀ g ∈ ends, g.isLineEnd = true) ∧
      read (line ++ w) = ofHead { head with body := some (body ++ (ends ++ w)) } := by
  obtain ⟨valid, sigil, hs, spelled⟩ := line_of_head? found
  refine ⟨line.rtakeWhile Glyph.isLineEnd, fun g => List.mem_rtakeWhile_imp, ?_⟩
  have longer : Head.Valid
      { head with body := some (body ++ (line.rtakeWhile Glyph.isLineEnd ++ w)) } :=
    ⟨valid.digits, valid.noStream, valid.classNonempty, valid.inClass⟩
  apply read_of_head (settled.append line).chomp_eq
  rw [head?_eq_some_iff]
  refine ⟨longer, sigil, hs, ?_⟩
  conv_lhs => rw [← chomp_append_lineEnds line, spelled]
  simp [Head.line, hbody, bodyText]

/-- A line with fields that blanks follow is malformed. -/
theorem read_append_blanks {line : Text} {r : Record} (h : read line = .ok r) {f : FieldList}
    (fields : r.payload = .data f) {w : Text} (hw : w ≠ [])
    (blank : ∀ g ∈ w, g = ' ' ∨ g = '\t') : read (line ++ w) = .error (.malformed exhausted) := by
  rcases read_eq_ok_cases h with rfl | ⟨head, found, converted⟩ | ⟨kind, _, x, -, -, rfl⟩ | ⟨rfl, -⟩
  · cases fields
  · obtain ⟨token, payload, htoken, hfields, rfl⟩ := ofHead_eq_ok_iff.1 converted
    rcases fields?_eq_ok_cases hfields with ⟨-, rfl⟩ | ⟨body, f, hbody, parsed, -⟩
    · cases fields
    · obtain ⟨ends, lineEnds, read⟩ := read_append_of_head found hbody (settled_of_blanks hw blank)
      have trailing : IsSpacingRun (ends ++ w) := by
        refine ⟨List.append_ne_nil_of_right_ne_nil _ hw, ?_⟩
        rw [List.forall_mem_append]
        constructor
        · intro g hg
          exact Glyph.isSpacing_of_isLineEnd (lineEnds g hg)
        · intro g hg
          rcases blank g hg with rfl | rfl <;> rfl
      have numbered : token? { head with body := some (body ++ (ends ++ w)) }.digits = .ok token :=
        htoken
      rw [read]
      exact ofHead_of_parse_error numbered rfl (FieldList.parse_append_eq_exhausted parsed trailing)
  · cases fields
  · cases fields

end Record

/-- **Spacing after a text.** A text of fields with spacing after it is refused, and so is a line
with fields that blanks follow. A text of a value may have spacing after it exactly if a front of
the text spells the value, whatever comes after it, and the value is then the same. -/
theorem parse_append_spacing (w : Text) (hw : w ≠ []) (spacing : ∀ g ∈ w, g.isSpacing = true) :
    (∀ t f, FieldList.parse t = .ok f → FieldList.parse (t ++ w) = .error exhausted) ∧
      (∀ t v, Value.parse t = .ok v →
        Value.parse (t ++ w) = .ok v ∧ (∃ u, u <+: t ∧ v.SpelledBy u) ∨
          Value.parse (t ++ w) = .error exhausted ∧ ¬ ∃ u, u <+: t ∧ v.SpelledBy u) ∧
      ∀ line r f, Record.read line = .ok r → r.payload = .data f →
        (∀ g ∈ w, g = ' ' ∨ g = '\t') →
          Record.read (line ++ w) = .error (.malformed exhausted) := by
  refine ⟨?_, ?_, ?_⟩
  · intro t f parsed
    exact FieldList.parse_append_eq_exhausted parsed ⟨hw, spacing⟩
  · intro t v parsed
    exact Value.parse_append_spacing_cases parsed ⟨hw, spacing⟩
  · intro line r f read fields blank
    exact Record.read_append_blanks read fields hw blank

/-- A blank after `a="1"`, alone and in a record, and after the string `"1"`. -/
theorem parse_append_spacing_blank :
    FieldList.parse (Text.ofString "a=\"1\" ") = .error exhausted ∧
      Value.parse (Text.ofString "\"1\" ") = .ok (.text "1") ∧
      Record.read (Text.ofString "^done,a=\"1\" ") = .error (.malformed exhausted) := by
  obtain ⟨fields, values, records⟩ :=
    parse_append_spacing (Text.ofString " ") (by decide) (by decide)
  refine ⟨fields (Text.ofString "a=\"1\"") _ rfl, ?_, ?_⟩
  · rcases values (Text.ofString "\"1\"") (.text "1") rfl with ⟨tolerated, -⟩ | ⟨-, early⟩
    · exact tolerated
    · exact absurd ⟨_, List.prefix_rfl, fun r => .literal (Literal.read_quote_append "1" r)⟩ early
  · exact records (Text.ofString "^done,a=\"1\"") _ _ rfl rfl (by decide)

/-- Fields may be read, and not with a blank after them. -/
theorem not_forall_parse_append_spacing :
    ¬ ∀ t f w, FieldList.parse t = .ok f → (∀ g ∈ w, g.isSpacing = true) →
      FieldList.parse (t ++ w) = .ok f := by
  intro tolerant
  have blank := tolerant (Text.ofString "a=\"1\"") _ (Text.ofString " ") rfl (by decide)
  cases blank

end GdbMi
