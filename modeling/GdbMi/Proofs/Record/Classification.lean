import GdbMi.Proofs.Record.Head

/-!
# The forms of lines

A line without its end has exactly one form (`existsUnique_hasForm`). Three forms have marks: the
prompt, a head with its parts, and the sigil of a stream with a quote after it. A line has at most
one mark and can be split into the parts of the mark in one way only (`Marked.unique`), so it does
not matter in which order the marks are looked for. What has no mark is program output. The form
decides what the line is read as, and whether reading fails (`read_by_unique_form`).
-/

namespace GdbMi
set_option autoImplicit false

/-- The sigils of results and of asynchronous records. -/
inductive HeadSigil : Char → Kind → Prop where
  | result : HeadSigil '^' .result
  | exec : HeadSigil '*' .exec
  | status : HeadSigil '+' .status
  | notify : HeadSigil '=' .notify

/-- The sigils of streams. -/
inductive StreamSigil : Char → Kind → Prop where
  | console : StreamSigil '~' .console
  | target : StreamSigil '@' .target
  | log : StreamSigil '&' .log

/-- What a line without its end may be, with the parts that it is converted from. -/
inductive Form where
  | prompt
  | head (h : Record.Head)
  | stream (kind : Kind) (literal : Text)
  | output

/-- The line has the mark of the form. -/
inductive Marked : Text → Form → Prop where
  | prompt {blanks : Text} :
      (∀ g ∈ blanks, g.isBlank = true) → Marked (Text.ofString "(gdb)" ++ blanks) .prompt
  | head {digits recordClass : Text} {sigil : Char} {kind : Kind} {body : Option Text} :
      (∀ g ∈ digits, g.isDigit = true) → HeadSigil sigil kind → recordClass ≠ [] →
      (∀ g ∈ recordClass, g ≠ ',' ∧ g.isBlank = false) →
      Marked (digits ++ Glyph.char sigil :: (recordClass ++ Record.bodyText body))
        (.head { digits, kind, recordClass, body })
  | stream {sigil : Char} {kind : Kind} {rest : Text} :
      StreamSigil sigil kind →
      Marked (Glyph.char sigil :: Glyph.char '"' :: rest) (.stream kind (Glyph.char '"' :: rest))

/-- A line has the form that it has the mark of. Without a mark it is program output. -/
inductive HasForm (line : Text) : Form → Prop where
  | marked {f : Form} : Marked line f → HasForm line f
  | unmarked : (∀ f, ¬ Marked line f) → HasForm line .output

/-- The record of a head, with its payload. The token is the number that the digits denote. -/
def Record.Head.record (h : Head) (payload : Content FieldList) : Record where
  kind := h.kind
  recordClass := some h.recordClass
  token := if h.digits = [] then none else some (decimalValue h.digits)
  payload := payload

/-- What a line of the form is read as. -/
def Form.outcome (line : Text) : Form → Except RecordError Record
  | prompt => .ok { kind := .prompt }
  | head h =>
    if 4300 < h.digits.length then .error (.longToken h.digits.length)
    else
      match h.body.map FieldList.parse with
      | none => .ok (h.record .absent)
      | some (.ok f) => .ok (h.record (.data f))
      | some (.error e) => .error (.malformed e)
  | stream kind literal =>
    match Literal.parse literal with
    | .ok s => .ok { kind, payload := .text (Text.ofString s) }
    | .error e => .error (.malformed e)
  | output => .ok { kind := .output, payload := .text line }

/-- The parts of the form cannot be converted: there are too many digits for a token, or the body or
the literal does not parse. -/
def Form.Refused : Form → Prop
  | prompt => False
  | head h =>
    4300 < h.digits.length ∨ ∃ body e, h.body = some body ∧ FieldList.parse body = .error e
  | stream _ literal => ∃ e, Literal.parse literal = .error e
  | output => False

/-! ## Sigils -/

theorem headSigil_iff {sigil : Char} {kind : Kind} :
    HeadSigil sigil kind ↔ kind.isStream = false ∧ kind.sigil? = some sigil := by
  constructor
  · intro h
    cases h <;> exact ⟨rfl, rfl⟩
  · rintro ⟨noStream, hs⟩
    cases kind <;> cases noStream <;> cases hs <;> constructor

theorem streamSigil_iff {sigil : Char} {kind : Kind} :
    StreamSigil sigil kind ↔ kind.isStream = true ∧ kind.sigil? = some sigil := by
  constructor
  · intro h
    cases h <;> exact ⟨rfl, rfl⟩
  · rintro ⟨stream, hs⟩
    cases kind <;> cases stream <;> cases hs <;> constructor

/-! ## Marks -/

theorem marked_prompt_iff {line : Text} :
    Marked line .prompt ↔ Record.isPrompt line = true := by
  constructor
  · intro h
    cases h with
    | @prompt blanks all =>
      have found : Record.promptText.isPrefixOf? (Text.ofString "(gdb)" ++ blanks) = some blanks :=
        List.isPrefixOf?_eq_some_iff_append_eq.2 rfl
      rw [Record.isPrompt, found]
      exact List.all_eq_true.2 all
  · intro h
    rw [Record.isPrompt] at h
    cases found : Record.promptText.isPrefixOf? line with
    | none =>
      rw [found] at h
      cases h
    | some blanks =>
      rw [found] at h
      rw [← List.isPrefixOf?_eq_some_iff_append_eq.1 found]
      exact .prompt (List.all_eq_true.1 h)

theorem Record.inClass_iff {g : Glyph} : inClass g = true ↔ g ≠ ',' ∧ g.isBlank = false := by
  simp [inClass]

theorem marked_head_iff {line : Text} {h : Record.Head} :
    Marked line (.head h) ↔ Record.head? line = some h := by
  rw [Record.head?_eq_some_iff]
  constructor
  · intro marked
    cases marked with
    | head digits hs nonempty inClass =>
      obtain ⟨noStream, hs⟩ := headSigil_iff.1 hs
      exact ⟨⟨digits, noStream, nonempty, fun g hg => Record.inClass_iff.2 (inClass g hg)⟩,
        _, hs, rfl⟩
  · rintro ⟨valid, sigil, hs, rfl⟩
    exact .head valid.digits (headSigil_iff.2 ⟨valid.noStream, hs⟩) valid.classNonempty
      fun g hg => Record.inClass_iff.1 (valid.inClass g hg)

theorem marked_stream_iff {line : Text} {kind : Kind} {literal : Text} :
    Marked line (.stream kind literal) ↔ Record.stream? line = some (kind, literal) := by
  rw [Record.stream?_eq_some_iff]
  constructor
  · intro marked
    cases marked with
    | stream hs =>
      obtain ⟨stream, hs⟩ := streamSigil_iff.1 hs
      exact ⟨stream, ⟨_, rfl⟩, _, hs, rfl⟩
  · rintro ⟨stream, ⟨rest, rfl⟩, sigil, hs, rfl⟩
    exact .stream (streamSigil_iff.2 ⟨stream, hs⟩)

/-- The mark of the line, looked for in the order in which lines are read. -/
def mark? (line : Text) : Option Form :=
  if Record.isPrompt line then some .prompt
  else
    match Record.head? line with
    | some h => some (.head h)
    | none => (Record.stream? line).map fun (kind, literal) => .stream kind literal

/-- The order does not matter: digits, the sigils of heads, the sigils of streams and the
parenthesis of the prompt are different glyphs. -/
theorem marked_iff {line : Text} {f : Form} : Marked line f ↔ mark? line = some f := by
  constructor
  · intro h
    cases f with
    | prompt => simp [mark?, marked_prompt_iff.1 h]
    | head =>
      have found := marked_head_iff.1 h
      simp [mark?, Record.not_isPrompt_of_head found, found]
    | stream =>
      have found := marked_stream_iff.1 h
      simp [mark?, Record.not_isPrompt_of_stream found, Record.head?_of_stream found, found]
    | output => cases h
  · intro h
    unfold mark? at h
    split at h
    · next prompt =>
      cases h
      exact marked_prompt_iff.2 prompt
    · split at h
      · next head found =>
        cases h
        exact marked_head_iff.2 found
      · obtain ⟨⟨kind, literal⟩, found, rfl⟩ := Option.map_eq_some_iff.1 h
        exact marked_stream_iff.2 found

/-- A line has one mark at most, and one way to be split into the parts of the mark. -/
theorem Marked.unique {line : Text} {f f' : Form} (h : Marked line f) (h' : Marked line f') :
    f = f' := by
  rw [marked_iff] at h h'
  rw [h] at h'
  exact Option.some.inj h'

/-! ## Forms -/

theorem hasForm_iff {line : Text} {f : Form} : HasForm line f ↔ (mark? line).getD .output = f := by
  constructor
  · intro h
    cases h with
    | marked h => rw [marked_iff.1 h, Option.getD_some]
    | unmarked none =>
      cases found : mark? line with
      | none => rfl
      | some f => exact absurd (marked_iff.2 found) (none f)
  · rintro rfl
    cases found : mark? line with
    | none =>
      refine .unmarked fun f h => ?_
      rw [marked_iff, found] at h
      cases h
    | some f => exact .marked (marked_iff.2 found)

theorem existsUnique_hasForm (line : Text) : ∃! f, HasForm line f :=
  ⟨(mark? line).getD .output, hasForm_iff.2 rfl, fun _ h => (hasForm_iff.1 h).symm⟩

/-! ## What forms are read as -/

theorem Record.token?_eq_error {digits : Text} (long : 4300 < digits.length) :
    token? digits = .error (.longToken digits.length) := by
  have some_digit : digits.isEmpty = false := by
    cases digits with
    | nil => exact absurd long (by decide)
    | cons g digits => rfl
  simp [token?, some_digit, maxTokenDigits, long]

theorem Record.token?_eq_ok {digits : Text} (short : ¬ 4300 < digits.length) :
    token? digits = .ok (if digits = [] then none else some (decimalValue digits)) := by
  cases digits with
  | nil => rfl
  | cons g digits =>
    rw [token?, if_neg (by simp), maxTokenDigits, if_neg short, if_neg (by simp)]

theorem Record.ofHead_eq_outcome (line : Text) (h : Head) :
    ofHead h = (Form.head h).outcome line := by
  obtain ⟨digits, kind, recordClass, body⟩ := h
  by_cases long : 4300 < digits.length
  · simp [ofHead, Form.outcome, token?_eq_error long, long, bind, Except.bind]
  · rw [ofHead, token?_eq_ok long, Form.outcome, if_neg long]
    cases body with
    | none => rfl
    | some body => cases parsed : FieldList.parse body <;> simp [fields?, parsed] <;> rfl

/-- A line is read as its form says. -/
theorem Record.read_eq_outcome {line : Text} {f : Form} (h : HasForm (chomp line) f) :
    read line = f.outcome (chomp line) := by
  obtain rfl := hasForm_iff.1 h
  unfold read mark?
  dsimp only
  split
  · rfl
  · cases head : head? (chomp line) with
    | some h => exact ofHead_eq_outcome (chomp line) h
    | none =>
      cases stream : stream? (chomp line) with
      | none => rfl
      | some parts =>
        obtain ⟨kind, literal⟩ := parts
        cases parsed : Literal.parse literal <;>
          simp [Form.outcome, parsed, Except.mapError, Except.map]

theorem Form.exists_outcome_eq_error_iff (line : Text) (f : Form) :
    (∃ e, f.outcome line = .error e) ↔ f.Refused := by
  cases f with
  | prompt => simp [outcome, Refused]
  | output => simp [outcome, Refused]
  | stream kind literal => cases parsed : Literal.parse literal <;> simp [outcome, Refused, parsed]
  | head h =>
    obtain ⟨digits, kind, recordClass, body⟩ := h
    by_cases long : 4300 < digits.length
    · simp [outcome, Refused, long]
    · cases body with
      | none => simp [outcome, Refused, long]
      | some body =>
        cases parsed : FieldList.parse body <;> simp [outcome, Refused, long, parsed]

/-- **The forms of lines.** A line without its end has exactly one form: the prompt, the parts of a
head, the parts of a stream record, or none of these. The form alone decides the record that the
line is read as. Reading fails exactly where the digits of a head are too many for a token, or its
body or the literal of a stream record does not parse, and so never on the prompt and on program
output. -/
theorem read_by_unique_form (line : Text) :
    (∃! f, HasForm (chomp line) f) ∧
      ∃ f, HasForm (chomp line) f ∧ Record.read line = f.outcome (chomp line) ∧
        ((∃ e, Record.read line = .error e) ↔ f.Refused) := by
  obtain ⟨f, hf, unique⟩ := existsUnique_hasForm (chomp line)
  have read := Record.read_eq_outcome hf
  refine ⟨⟨f, hf, unique⟩, f, hf, read, ?_⟩
  rw [read]
  exact f.exists_outcome_eq_error_iff (chomp line)

/-- All line ends at the back are taken off. The token is 42: it has a zero in front, and its second
digit is the four of another script. -/
example : Record.read (Text.ofString "0\u06642^done,a=\"1\"\r\n\r") = .ok
    { kind := .result, recordClass := some (Text.ofString "done"), token := some 42,
      payload := .data { entries := [(.named "a", .text "1")] } } := by
  rfl

end GdbMi
