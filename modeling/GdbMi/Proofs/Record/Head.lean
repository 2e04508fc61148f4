import Mathlib.Data.List.DropRight
import GdbMi.Proofs.Grammar
import GdbMi.Record.Reader

/-!
# Heads of records

A line has at most one head, and the head spells the line (`head?_eq_some_iff`). The prompt, heads
and stream records exclude each other, because digits, the sigils of heads, the sigils of streams
and the parenthesis of the prompt are different glyphs. So the order in which `Record.read` tries
them does not matter: a line that is one of them is read as that one (`read_of_head`,
`read_of_stream`).
-/

namespace GdbMi
set_option autoImplicit false

/-! ## Line ends -/

/-- The text ends in a glyph that belongs to no line end. -/
def Settled (t : Text) : Prop := ∃ u g, t = u ++ [g] ∧ g.isLineEnd = false

theorem Settled.append {t : Text} (h : Settled t) (before : Text) : Settled (before ++ t) := by
  obtain ⟨u, g, rfl, hg⟩ := h
  exact ⟨before ++ u, g, (List.append_assoc _ _ _).symm, hg⟩

theorem Settled.cons {t : Text} (h : Settled t) (g : Glyph) : Settled (g :: t) :=
  h.append [g]

theorem Settled.chomp_eq {t : Text} (h : Settled t) : chomp t = t := by
  obtain ⟨u, g, rfl, hg⟩ := h
  exact List.rdropWhile_concat_neg _ u g (by simp [hg])

/-- A line without its end has none. -/
theorem chomp_chomp (line : Text) : chomp (chomp line) = chomp line :=
  List.rdropWhile_idempotent _ line

/-- Line ends after a line are cut off with its own. -/
theorem chomp_append (line : Text) {ends : Text} (h : ∀ g ∈ ends, g.isLineEnd = true) :
    chomp (line ++ ends) = chomp line := by
  have reversed : ∀ g ∈ ends.reverse, g.isLineEnd = true := fun g hg => h g (List.mem_reverse.1 hg)
  rw [chomp, chomp, List.reverse_append, List.dropWhile_append_of_pos reversed]

/-- A line is what is left without its line ends, and its line ends. -/
theorem chomp_append_lineEnds (line : Text) :
    chomp line ++ line.rtakeWhile Glyph.isLineEnd = line :=
  List.rdropWhile_append_rtakeWhile

theorem Glyph.isBlank_of_isLineEnd {g : Glyph} (h : g.isLineEnd = true) : g.isBlank = true := by
  simp only [Glyph.isLineEnd, Bool.or_eq_true, decide_eq_true_eq] at h
  rcases h with rfl | rfl <;> rfl

theorem Glyph.isLineEnd_of_not_isBlank {g : Glyph} (h : g.isBlank = false) :
    g.isLineEnd = false := by
  cases eq : g.isLineEnd with
  | false => rfl
  | true =>
    rw [isBlank_of_isLineEnd eq] at h
    cases h

namespace Record

/-! ## What a head spells -/

/-- The text after a class. -/
def bodyText : Option Text → Text
  | none => []
  | some body => Glyph.char ',' :: body

theorem body?_eq_some_iff {t : Text} {body : Option Text} :
    body? t = some body ↔ t = bodyText body := by
  cases t with
  | nil => cases body <;> simp [body?, bodyText]
  | cons g t =>
    by_cases comma : g = ','
    · cases body <;> simp [body?, bodyText, comma]
    · cases body <;> simp [body?, bodyText, comma]

/-- The parts of a head are what they are called. -/
structure Head.Valid (h : Head) : Prop where
  digits : ∀ g ∈ h.digits, g.isDigit = true
  noStream : h.kind.isStream = false
  classNonempty : h.recordClass ≠ []
  inClass : ∀ g ∈ h.recordClass, inClass g = true

/-- The line that a head with the given sigil spells. -/
def Head.line (h : Head) (sigil : Char) : Text :=
  h.digits ++ Glyph.char sigil :: (h.recordClass ++ bodyText h.body)

theorem Head.Valid.settled_class {h : Head} (valid : h.Valid) : Settled h.recordClass := by
  obtain ⟨u, g, eq⟩ := (List.eq_nil_or_concat h.recordClass).resolve_left valid.classNonempty
  rw [List.concat_eq_append] at eq
  have last : Record.inClass g = true := by
    apply valid.inClass
    rw [eq]
    exact List.mem_append_right _ List.mem_cons_self
  simp only [Record.inClass, Bool.and_eq_true, Bool.not_eq_true'] at last
  exact ⟨u, g, eq, Glyph.isLineEnd_of_not_isBlank last.2⟩

end Record

theorem Kind.not_isDigit_sigil {kind : Kind} {sigil : Char} (h : kind.sigil? = some sigil) :
    (Glyph.char sigil).isDigit = false := by
  cases kind <;> cases h <;> rfl

namespace Record

theorem sigil?_eq_some_iff {t : Text} {kind : Kind} {rest : Text} :
    sigil? t = some (kind, rest) ↔
      kind.isStream = false ∧ ∃ sigil, kind.sigil? = some sigil ∧ t = Glyph.char sigil :: rest := by
  cases t with
  | nil => simp [sigil?]
  | cons g t =>
    simp only [sigil?, Option.bind_eq_bind, Option.bind_eq_some_iff, Kind.ofSigil?_eq_some_iff,
      Option.map_eq_some_iff, List.cons.injEq]
    constructor
    · rintro ⟨k, ⟨sigil, hk, rfl⟩, h⟩
      by_cases stream : k.isStream
      · rw [if_pos stream] at h
        cases h
      · rw [if_neg stream] at h
        cases h
        exact ⟨by simpa using stream, sigil, hk, rfl, rfl⟩
    · rintro ⟨noStream, sigil, hk, rfl, rfl⟩
      refine ⟨kind, ⟨sigil, hk, rfl⟩, ?_⟩
      rw [if_neg (by simp [noStream])]

/-- A class ends where the text after it begins. -/
theorem inClass_bodyText (body : Option Text) : ∀ g ∈ (bodyText body).head?, inClass g = false := by
  cases body with
  | none => nofun
  | some b =>
    rintro g ⟨⟩
    rfl

/-- A line has the head that spells it. -/
theorem head?_line {h : Head} (valid : h.Valid) {sigil : Char} (hs : h.kind.sigil? = some sigil) :
    head? (h.line sigil) = some h := by
  have noDigit : ∀ g ∈ (Glyph.char sigil :: (h.recordClass ++ bodyText h.body)).head?,
      g.isDigit = false := by
    rintro g ⟨⟩
    exact Kind.not_isDigit_sigil hs
  obtain ⟨digits, after⟩ := span_append valid.digits noDigit
  obtain ⟨recordClass, behind⟩ := span_append valid.inClass (inClass_bodyText h.body)
  have marked : sigil? (Glyph.char sigil :: (h.recordClass ++ bodyText h.body))
      = some (h.kind, h.recordClass ++ bodyText h.body) :=
    sigil?_eq_some_iff.2 ⟨valid.noStream, sigil, hs, rfl⟩
  have body : body? (bodyText h.body) = some h.body := body?_eq_some_iff.2 rfl
  have nonempty : h.recordClass.isEmpty = false := by
    rw [List.isEmpty_eq_false_iff]
    exact valid.classNonempty
  unfold Head.line head?
  simp only [digits, after, marked, recordClass, behind, body, nonempty, Option.bind_eq_bind,
    Option.bind_some, Bool.false_eq_true, if_false]

/-- The head of a line spells it. -/
theorem line_of_head? {line : Text} {h : Head} (found : head? line = some h) :
    h.Valid ∧ ∃ sigil, h.kind.sigil? = some sigil ∧ line = h.line sigil := by
  unfold head? at found
  simp only [Option.bind_eq_bind, Option.bind_eq_some_iff, Prod.exists] at found
  obtain ⟨kind, rest, marked, body, hbody, found⟩ := found
  obtain ⟨noStream, sigil, hs, after⟩ := sigil?_eq_some_iff.1 marked
  by_cases empty : (rest.takeWhile inClass).isEmpty
  · rw [if_pos empty] at found
    cases found
  · rw [if_neg empty] at found
    cases found
    refine ⟨⟨?_, noStream, ?_, ?_⟩, sigil, hs, ?_⟩
    · exact fun g hg => List.all_eq_true.1 List.all_takeWhile g hg
    · simpa using empty
    · exact fun g hg => List.all_eq_true.1 List.all_takeWhile g hg
    · unfold Head.line
      rw [← body?_eq_some_iff.1 hbody, List.takeWhile_append_dropWhile, ← after,
        List.takeWhile_append_dropWhile]

/-- A line has at most one head, which spells it. -/
theorem head?_eq_some_iff {line : Text} {h : Head} :
    head? line = some h ↔
      h.Valid ∧ ∃ sigil, h.kind.sigil? = some sigil ∧ line = h.line sigil := by
  constructor
  · exact line_of_head?
  · rintro ⟨valid, sigil, hs, rfl⟩
    exact head?_line valid hs

/-! ## One kind of line at a time -/

theorem stream?_eq_some_iff {line : Text} {kind : Kind} {literal : Text} :
    stream? line = some (kind, literal) ↔
      kind.isStream = true ∧ (∃ rest, literal = Glyph.char '"' :: rest) ∧
        ∃ sigil, kind.sigil? = some sigil ∧ line = Glyph.char sigil :: literal := by
  match line with
  | [] => simp [stream?]
  | [g] =>
    constructor
    · nofun
    · rintro ⟨-, ⟨rest, rfl⟩, sigil, -, h⟩
      cases h
  | g :: q :: rest =>
    simp only [stream?, Option.bind_eq_bind, Option.bind_eq_some_iff, Kind.ofSigil?_eq_some_iff,
      Option.map_eq_some_iff, List.cons.injEq]
    constructor
    · rintro ⟨k, ⟨sigil, hk, rfl⟩, h⟩
      by_cases stream : k.isStream = true ∧ q = Glyph.char '"'
      · rw [if_pos stream] at h
        cases h
        exact ⟨stream.1, ⟨rest, by rw [stream.2]⟩, sigil, hk, rfl, rfl⟩
      · rw [if_neg stream] at h
        cases h
    · rintro ⟨stream, ⟨rest', rfl⟩, sigil, hk, rfl, eq⟩
      cases eq
      refine ⟨kind, ⟨sigil, hk, rfl⟩, ?_⟩
      rw [if_pos ⟨stream, rfl⟩]

/-- The prompt begins with a parenthesis, unlike heads and stream records. -/
theorem not_isPrompt_of_start {g : Glyph} (h : g ≠ '(') (line : Text) :
    isPrompt (g :: line) = false := by
  unfold isPrompt
  cases found : promptText.isPrefixOf? (g :: line) with
  | none => rfl
  | some rest =>
    have eq := List.isPrefixOf?_eq_some_iff_append_eq.1 found
    exact absurd (List.cons.inj eq).1.symm h

theorem not_isPrompt_of_head {line : Text} {h : Head} (found : head? line = some h) :
    isPrompt line = false := by
  match line with
  | [] => rfl
  | g :: line =>
    apply not_isPrompt_of_start
    rintro rfl
    cases found

theorem not_isPrompt_of_stream {line : Text} {kind : Kind} {literal : Text}
    (found : stream? line = some (kind, literal)) : isPrompt line = false := by
  obtain ⟨-, -, sigil, hs, rfl⟩ := stream?_eq_some_iff.1 found
  apply not_isPrompt_of_start
  cases kind <;> cases hs <;> decide

theorem head?_of_stream {line : Text} {kind : Kind} {literal : Text}
    (found : stream? line = some (kind, literal)) : head? line = none := by
  obtain ⟨stream, -, sigil, hs, rfl⟩ := stream?_eq_some_iff.1 found
  cases kind <;> cases stream <;> cases hs <;> rfl

/-- A line with a head is read as the head says. -/
theorem read_of_head {line : Text} (chomped : chomp line = line) {h : Head}
    (found : head? line = some h) : read line = ofHead h := by
  simp [read, chomped, not_isPrompt_of_head found, found]

/-- A sigil of a stream and a literal are read as the text of the literal. -/
theorem read_of_stream {line : Text} (chomped : chomp line = line) {kind : Kind} {literal : Text}
    (found : stream? line = some (kind, literal)) {s : String}
    (parsed : Literal.parse literal = .ok s) :
    read line = .ok { kind, payload := .text (Text.ofString s) } := by
  simp [read, chomped, not_isPrompt_of_stream found, head?_of_stream found, found, parsed,
    Except.mapError, Except.map]

/-- What a line that is read is: the prompt, a head, a stream record, or program output. -/
theorem read_eq_ok_cases {line : Text} {r : Record} (h : read line = .ok r) :
    r = { kind := .prompt } ∨
      (∃ head, head? (chomp line) = some head ∧ ofHead head = .ok r) ∨
      (∃ kind literal s, stream? (chomp line) = some (kind, literal) ∧
        Literal.parse literal = .ok s ∧ r = { kind, payload := .text (Text.ofString s) }) ∨
      r = { kind := .output, payload := .text (chomp line) } ∧ read (chomp line) = .ok r := by
  have again : read (chomp line) = .ok r := by
    rw [← h, read, read, chomp_chomp]
  rw [read] at h
  by_cases prompt : isPrompt (chomp line)
  · rw [if_pos prompt] at h
    cases h
    exact .inl rfl
  · rw [if_neg prompt] at h
    right
    cases found : head? (chomp line) with
    | some head =>
      simp only [found] at h
      exact .inl ⟨head, rfl, h⟩
    | none =>
      right
      simp only [found] at h
      match stream : stream? (chomp line) with
      | some (kind, literal) =>
        simp only [stream] at h
        cases parsed : Literal.parse literal with
        | ok s =>
          rw [parsed] at h
          cases h
          exact .inl ⟨kind, literal, s, rfl, parsed, rfl⟩
        | error e =>
          rw [parsed] at h
          cases h
      | none =>
        simp only [stream] at h
        cases h
        exact .inr ⟨rfl, again⟩

end Record

end GdbMi
