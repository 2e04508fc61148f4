import GdbMi.Proofs.Record.Head
import GdbMi.Proofs.Text.Numeral
import GdbMi.Proofs.Value.RoundTrip
import GdbMi.Record.Response
import GdbMi.Record.Writer

/-!
# Reading canonical lines

The canonical line of a record that was read is read as the same record with normal field values,
which front ends cannot tell from it. The line is no longer than it has to be: its token is a
numeral, which may have lost zeros and other scripts, and it has no line end.
-/

namespace GdbMi
set_option autoImplicit false

/-! ## The last glyph of a canonical line -/

theorem Literal.settled_quote (t : Text) : Settled (Literal.quote t) :=
  ⟨Glyph.char '"' :: Literal.spellAll t.bytes, Glyph.char '"', rfl, rfl⟩

theorem Value.settled_of_render {v : Value} {s : Text} (h : v.render = .ok s) : Settled s := by
  obtain ⟨left, right, inner, rfl, -, hr⟩ := Value.delimited_of_render h
  refine ⟨left :: inner, right, rfl, ?_⟩
  rcases hr with rfl | rfl | rfl <;> rfl

theorem settled_entryText {key : Key} {s : Text} (h : Settled s) : Settled (entryText key s) := by
  cases key with
  | named name => exact (h.cons _).append _
  | bare => exact h
  | unnamed => exact h

theorem settled_of_mem_renderEntries {entries : List (Key × Value)} {parts : List Text}
    (h : Value.renderEntries entries = .ok parts) : ∀ part ∈ parts, Settled part := by
  intro part hpart
  obtain ⟨e, -, s, hs, rfl⟩ := Value.exists_of_mem_renderEntries h part hpart
  exact settled_entryText (Value.settled_of_render hs)

/-- Settled parts leave the text that they are added to settled. -/
theorem Settled.append_afterCommas {t : Text} (h : Settled t) {parts : List Text}
    (each : ∀ part ∈ parts, Settled part) : Settled (t ++ afterCommas parts) := by
  induction parts generalizing t with
  | nil =>
    rw [afterCommas, List.flatMap_nil, List.append_nil]
    exact h
  | cons part parts ih =>
    rw [List.forall_mem_cons] at each
    have next := ih ((each.1.cons (Glyph.char ',')).append t) each.2
    rw [List.append_assoc] at next
    exact next

/-- A field list after a comma leaves the line settled, even if it is empty. -/
theorem FieldList.settled_of_render {f : FieldList} {s : Text} (h : f.render = .ok s) :
    Settled (Glyph.char ',' :: s) := by
  obtain ⟨parts, hp, rfl⟩ := FieldList.render_eq_ok_iff.1 h
  cases parts with
  | nil => exact ⟨[], Glyph.char ',', rfl, rfl⟩
  | cons part parts =>
    have each := settled_of_mem_renderEntries hp
    rw [List.forall_mem_cons] at each
    rw [separated_cons]
    exact (each.1.append_afterCommas each.2).cons _

namespace Record

/-! ## Heads -/

/-- How a token is written. -/
def tokenText (token : Option Int) : Text := Text.ofString ((token.map toString).getD "")

/-- What digits were read as is read from its numeral, which consists of digits. -/
theorem token?_tokenText {digits : Text} {token : Option Int} (h : token? digits = .ok token) :
    token? (tokenText token) = .ok token ∧ ∀ g ∈ tokenText token, g.isDigit = true := by
  unfold token? at h
  by_cases empty : digits.isEmpty
  · rw [if_pos empty] at h
    cases h
    exact ⟨rfl, nofun⟩
  · rw [if_neg empty] at h
    by_cases long : maxTokenDigits < digits.length
    · rw [if_pos long] at h
      cases h
    · rw [if_neg long] at h
      cases h
      have text : tokenText (some (decimalValue digits : Int))
          = Text.ofString (toString (decimalValue digits)) := rfl
      have present : digits ≠ [] := by simpa using empty
      have shorter := length_toString_decimalValue_le present
      have nonempty := Text.ofString_toString_ne_nil (decimalValue digits)
      rw [text]
      constructor
      · rw [token?, if_neg (by simpa using nonempty), if_neg (by omega), decimalValue_toString]
      · intro g
        exact isDigit_of_mem_toString

/-- The record of a head: its token and its fields are converted, the rest is kept. -/
theorem ofHead_eq_ok_iff {h : Head} {r : Record} :
    ofHead h = .ok r ↔ ∃ token payload, token? h.digits = .ok token ∧ fields? h.body = .ok payload ∧
      r = { kind := h.kind, recordClass := some h.recordClass, token, payload } := by
  unfold ofHead
  cases token? h.digits with
  | error e => simp [bind, Except.bind]
  | ok token =>
    cases fields? h.body with
    | error e => simp [bind, Except.bind]
    | ok payload => simp [bind, Except.bind, pure, Except.pure, eq_comm]

theorem fields?_eq_ok_cases {body : Option Text} {payload : Content FieldList}
    (h : fields? body = .ok payload) :
    body = none ∧ payload = .absent ∨
      ∃ t f, body = some t ∧ FieldList.parse t = .ok f ∧ payload = .data f := by
  cases body with
  | none =>
    cases h
    exact .inl ⟨rfl, rfl⟩
  | some t =>
    right
    cases parsed : FieldList.parse t with
    | ok f =>
      simp only [fields?, parsed] at h
      cases h
      exact ⟨t, f, rfl, parsed, rfl⟩
    | error e =>
      simp only [fields?, parsed] at h
      cases h

/-- A record with normal field values. -/
def normal (r : Record) : Record := { r with payload := r.payload.map FieldList.normal }

theorem toResponse_normal (r : Record) : r.normal.toResponse = r.toResponse := by
  cases r with
  | mk kind recordClass token payload =>
    cases payload with
    | absent => rfl
    | text t => rfl
    | data f => simp [toResponse, normal, Content.map, FieldList.toPayload_normal]

/-- The fields of a record are written as the body, if there is one. -/
inductive Written : Content FieldList → Option Text → Prop where
  | absent : Written .absent none
  | data {f : FieldList} {body : Text} : f.render = .ok body → Written (.data f) (some body)

theorem Written.normal {payload : Content FieldList} {body : Option Text}
    (h : Written payload body) : Written (payload.map FieldList.normal) body := by
  cases h with
  | absent => exact .absent
  | data rendered => exact .data (FieldList.render_normal rendered)

/-- Fields that were read are read from the body that they are written as. -/
theorem Written.fields? {payload : Content FieldList} {body before : Option Text}
    (h : Written payload body) (read : fields? before = .ok payload) :
    fields? body = .ok (payload.map FieldList.normal) := by
  rcases fields?_eq_ok_cases read with ⟨rfl, rfl⟩ | ⟨t, f, rfl, parsed, rfl⟩
  · cases h
    rfl
  · cases h with
    | data rendered =>
      have bare : f.enclosed = false := (FieldList.parse_eq_ok_iff.1 parsed).1
      have again := FieldList.parse_render bare (FieldList.shaped_of_parse parsed) rendered
      simp only [Record.fields?, again]
      rfl

/-- Nothing after a class keeps the line settled, and neither does a body unsettle it. -/
theorem Written.settled {payload : Content FieldList} {body : Option Text}
    (h : Written payload body) {recordClass : Text} (hc : Settled recordClass) :
    Settled (recordClass ++ bodyText body) := by
  cases h with
  | absent =>
    rw [bodyText, List.append_nil]
    exact hc
  | data rendered => exact (FieldList.settled_of_render rendered).append recordClass

/-- Fields that were read and have a line are written as some body. -/
theorem exists_written {before : Option Text} {r : Record} (read : fields? before = .ok r.payload)
    {sigil : Char} (hs : r.kind.sigil? = some sigil) {s : Text} (rendered : r.render = .ok s) :
    ∃ body, Written r.payload body := by
  rcases fields?_eq_ok_cases read with ⟨-, absent⟩ | ⟨-, f, -, -, data⟩
  · rw [absent]
    exact ⟨none, .absent⟩
  · simp only [render, hs, data] at rendered
    obtain ⟨body, hbody, -⟩ := bind_eq_ok_iff.1 rendered
    rw [data]
    exact ⟨some body, .data hbody⟩

/-- The line of a record with a class is what its head spells, with the token as a numeral. -/
theorem Written.render {kind : Kind} {sigil : Char} (hs : kind.sigil? = some sigil)
    (recordClass : Text) (token : Option Int) {payload : Content FieldList} {body : Option Text}
    (h : Written payload body) :
    render { kind, recordClass := some recordClass, token, payload }
      = .ok (Head.line { digits := tokenText token, kind, recordClass, body } sigil) := by
  cases h with
  | absent => simp [Record.render, hs, headText, Head.line, tokenText, bodyText]
  | data rendered =>
    simp [Record.render, hs, headText, Head.line, tokenText, bodyText, rendered, bind, Except.bind,
      pure, Except.pure]

/-- The line of a record with a class is read as that record with normal field values. -/
theorem read_render_of_head {head : Head} (valid : head.Valid) {sigil : Char}
    (hs : head.kind.sigil? = some sigil) {r : Record} (h : ofHead head = .ok r) {s : Text}
    (rendered : r.render = .ok s) : read s = .ok r.normal ∧ r.normal.render = .ok s := by
  obtain ⟨token, payload, htoken, hfields, rfl⟩ := ofHead_eq_ok_iff.1 h
  obtain ⟨numeral, digits⟩ := token?_tokenText htoken
  obtain ⟨body, written⟩ := exists_written hfields hs rendered
  rw [written.render hs] at rendered
  cases rendered
  constructor
  · have spelled : Head.Valid { head with digits := tokenText token, body } :=
      ⟨digits, valid.noStream, valid.classNonempty, valid.inClass⟩
    have settled : Settled (Head.line { head with digits := tokenText token, body } sigil) :=
      ((written.settled valid.settled_class).cons _).append _
    rw [read_of_head settled.chomp_eq (head?_line spelled hs)]
    exact ofHead_eq_ok_iff.2 ⟨token, _, numeral, written.fields? hfields, rfl⟩
  · exact written.normal.render hs _ _

end Record

namespace Record

/-- The line of a stream record is read as that record. -/
theorem read_render_of_stream {kind : Kind} (stream : kind.isStream = true) {sigil : Char}
    (hs : kind.sigil? = some sigil) (x : String) {s : Text}
    (rendered : render { kind, payload := .text (Text.ofString x) } = .ok s) :
    read s = .ok { kind, payload := .text (Text.ofString x) } := by
  simp only [render, hs] at rendered
  cases rendered
  have settled := (Literal.settled_quote (Text.ofString x)).cons (Glyph.char sigil)
  have found : stream? (Glyph.char sigil :: Literal.quote (Text.ofString x))
      = some (kind, Literal.quote (Text.ofString x)) :=
    stream?_eq_some_iff.2 ⟨stream, ⟨_, rfl⟩, sigil, hs, rfl⟩
  exact read_of_stream settled.chomp_eq found (Literal.parse_quote x)

/-- The canonical line of a record that was read is read as the record with normal field values,
and it is the canonical line of that record too. -/
theorem read_render {line : Text} {r : Record} (h : read line = .ok r) {s : Text}
    (rendered : r.render = .ok s) : read s = .ok r.normal ∧ r.normal.render = .ok s := by
  rcases read_eq_ok_cases h with rfl | ⟨head, found, converted⟩ |
      ⟨kind, literal, x, found, -, rfl⟩ | ⟨rfl, again⟩
  · cases rendered
    exact ⟨rfl, rfl⟩
  · obtain ⟨valid, sigil, hs, -⟩ := head?_eq_some_iff.1 found
    exact read_render_of_head valid hs converted rendered
  · obtain ⟨stream, -, sigil, hs, -⟩ := stream?_eq_some_iff.1 found
    exact ⟨read_render_of_stream stream hs x rendered, rendered⟩
  · cases rendered
    exact ⟨again, rfl⟩

/-- **Records survive their lines.** The canonical line of a record that was read is read as a
record of the same kind, class and token, with the same response and the same canonical line. -/
theorem same_response_of_render (line : Text) (r : Record) (h : read line = .ok r) (s : Text)
    (rendered : r.render = .ok s) :
    ∃ again, read s = .ok again ∧ again.kind = r.kind ∧ again.recordClass = r.recordClass ∧
      again.token = r.token ∧ again.toResponse = r.toResponse ∧ again.render = .ok s := by
  obtain ⟨read, again⟩ := read_render h rendered
  exact ⟨r.normal, read, rfl, rfl, rfl, toResponse_normal r, again⟩

/-- A token loses its zeros and its script, and a list gets brackets for its empty last item. -/
theorem same_response_of_render_token :
    ∃ again, read (Text.ofString "307^done,a=[\"x\",[]]") = .ok again ∧ again.kind = .result ∧
      again.recordClass = some (Text.ofString "done") ∧ again.token = some 307 := by
  have parsed : read (Text.ofString "0٣07^done,a=[\"x\",]\n")
      = .ok
          { kind := .result
            recordClass := some (Text.ofString "done")
            token := some 307
            payload := .data { entries := [(.named "a", .list [.text "x", .fields false []])] } } :=
    rfl
  obtain ⟨again, read, kind, recordClass, token, -⟩ :=
    same_response_of_render _ _ parsed (Text.ofString "307^done,a=[\"x\",[]]") rfl
  exact ⟨again, read, kind, recordClass, token⟩

end Record

end GdbMi
