import GdbMi.Proofs.Literal.Language

/-!
# Canonical literals

Every byte has one canonical element (`exists_canonical`), and canonical elements are what `quote`
writes (`quote_eq_quoted`). Since elements can be told apart, a literal is written as it was read
exactly if its elements are canonical and its bytes are the UTF-8 of some characters: else decoding
has put replacement characters in, whose bytes are others.
-/

namespace GdbMi
set_option autoImplicit false

/-- The bytes are the UTF-8 of some characters. -/
def Utf8.Valid (bytes : List UInt8) : Prop :=
  ∃ chars : List Char, bytes = chars.flatMap String.utf8EncodeChar

theorem Text.bytes_ofString (s : String) :
    (ofString s).bytes = s.toList.flatMap String.utf8EncodeChar := by
  rw [bytes, ofString, List.flatMap_map]
  rfl

end GdbMi

namespace GdbMi.Literal
set_option autoImplicit false

/-- The byte is a printable character of ASCII. -/
def Printable (b : UInt8) : Prop := 0x20 ≤ b.toNat ∧ b.toNat ≤ 0x7E

instance (b : UInt8) : Decidable (Printable b) :=
  inferInstanceAs (Decidable (0x20 ≤ b.toNat ∧ b.toNat ≤ 0x7E))

/-- The canonical spelling of a byte: its name if it has one, else the character if that is
printable, else three digits below eight. -/
inductive Element.Canonical : Element → Prop where
  | named {c : Char} {b : UInt8} (names : Names c b) : Canonical (.named c b names)
  | plain {c : Char} {small : c.toNat ≤ 0xFF} {noQuote : c ≠ '"'} {noBackslash : c ≠ '\\'} :
      Printable (Element.plain c small noQuote noBackslash).byte →
      Canonical (.plain c small noQuote noBackslash)
  | octal {d₁ : Fin 4} {d₂ d₃ : Fin 10} : d₂.val < 8 → d₃.val < 8 →
      (∀ c, ¬ Names c (Element.octal d₁ d₂ d₃).byte) →
      ¬ Printable (Element.octal d₁ d₂ d₃).byte → Canonical (.octal d₁ d₂ d₃)

/-- A byte without a name is written as it is or in digits. -/
theorem spell_of_unnamed {b : UInt8} (h : ∀ c, ¬ Names c b) :
    spell b = if 0x20 ≤ b.toNat ∧ b.toNat < 0x7F then [Char.ofNat b.toNat]
      else '\\' :: octalDigits b := by
  have none : namedEscapes.find? (·.2 == b) = .none := by
    rw [List.find?_eq_none]
    rintro ⟨c, b'⟩ mem eq
    rw [← eq_of_beq eq] at h
    exact h c (names_iff_mem.2 mem)
  simp only [spell, none]

/-- A printable character other than the quote and the backslash has no name. -/
theorem unnamed_of_printable {c : Char} (small : c.toNat ≤ 0xFF) (noQuote : c ≠ '"')
    (noBackslash : c ≠ '\\') (h : Printable (UInt8.ofNat c.toNat)) (d : Char) :
    ¬ Names d (UInt8.ofNat c.toNat) := by
  have code : (UInt8.ofNat c.toNat).toNat = c.toNat := Utf8.toNat_ofNat_of_lt (by omega)
  intro names
  generalize UInt8.ofNat c.toNat = b at *
  cases names with
  | backslash => exact noBackslash (Char.toNat_inj.1 code.symm)
  | quote => exact noQuote (Char.toNat_inj.1 code.symm)
  | _ => exact absurd h (by decide)

/-- The text of a canonical element is what its byte is written as. -/
theorem Element.Canonical.text_eq {e : Element} (h : e.Canonical) :
    e.text = (spell e.byte).map Glyph.char := by
  cases h with
  | named names => cases names <;> rfl
  | @plain c small noQuote noBackslash printable =>
    have code : (UInt8.ofNat c.toNat).toNat = c.toNat := Utf8.toNat_ofNat_of_lt (by omega)
    rw [Element.byte] at printable ⊢
    have range : 0x20 ≤ c.toNat ∧ c.toNat ≤ 0x7E := by rwa [Printable, code] at printable
    rw [spell_of_unnamed (unnamed_of_printable small noQuote noBackslash printable), code,
      if_pos (by omega), Char.ofNat_toNat]
    rfl
  | @octal d₁ d₂ d₃ h₂ h₃ unnamed unprintable =>
    have value : (Element.octal d₁ d₂ d₃).byte.toNat = 64 * d₁ + 8 * d₂ + d₃ :=
      Utf8.toNat_ofNat_of_lt (by omega)
    rw [Printable] at unprintable
    rw [spell_of_unnamed unnamed, if_neg (by omega), octalDigits, value,
      show (64 * d₁.val + 8 * d₂.val + d₃.val) / 64 = d₁ by omega,
      show (64 * d₁.val + 8 * d₂.val + d₃.val) / 8 % 8 = d₂ by omega,
      show (64 * d₁.val + 8 * d₂.val + d₃.val) % 8 = d₃ by omega]
    rfl

/-- Every byte has a canonical element. -/
theorem exists_canonical (b : UInt8) : ∃ e : Element, e.Canonical ∧ e.byte = b := by
  have bound := b.toNat_lt
  by_cases named : ∃ c, Names c b
  · obtain ⟨c, names⟩ := named
    exact ⟨.named c b names, .named names, rfl⟩
  have unnamed : ∀ c, ¬ Names c b := not_exists.1 named
  by_cases printable : Printable b
  · have code : (Char.ofNat b.toNat).toNat = b.toNat := toNat_ofNat_of_lt (by
      rw [Printable] at printable
      omega)
    have byte : UInt8.ofNat (Char.ofNat b.toNat).toNat = b := by rw [code, UInt8.ofNat_toNat]
    have other {c : Char} (names : Names c (UInt8.ofNat c.toNat)) : Char.ofNat b.toNat ≠ c := by
      rintro rfl
      rw [byte] at names
      exact unnamed _ names
    refine ⟨.plain (Char.ofNat b.toNat) (by omega) (other .quote) (other .backslash), ?_, byte⟩
    apply Element.Canonical.plain
    rwa [Element.byte, byte]
  · have byte : (Element.octal ⟨b.toNat / 64, by omega⟩ ⟨b.toNat / 8 % 8, by omega⟩
        ⟨b.toNat % 8, by omega⟩).byte = b := octalByte_digits b
    refine ⟨_, .octal (by simp only; omega) (by simp only; omega) ?_ ?_, byte⟩
    · rwa [byte]
    · rwa [byte]

/-- Every byte sequence has canonical elements. -/
theorem exists_canonical_body (bytes : List UInt8) :
    ∃ es : List Element, (∀ e ∈ es, e.Canonical) ∧ es.map Element.byte = bytes := by
  induction bytes with
  | nil => exact ⟨[], nofun, rfl⟩
  | cons b bytes ih =>
    obtain ⟨e, canonical, rfl⟩ := exists_canonical b
    obtain ⟨es, each, rfl⟩ := ih
    exact ⟨e :: es, List.forall_mem_cons.2 ⟨canonical, each⟩, rfl⟩

theorem body_eq_spellAll {es : List Element} (h : ∀ e ∈ es, e.Canonical) :
    body es = spellAll (es.map Element.byte) := by
  induction es with
  | nil => rfl
  | cons e es ih =>
    rw [List.forall_mem_cons] at h
    have first := h.1.text_eq
    have rest := ih h.2
    rw [body] at rest ⊢
    rw [List.flatMap_cons, first, rest]
    simp [spellAll]

/-- A text is written in canonical elements. -/
theorem quote_eq_quoted {es : List Element} (h : ∀ e ∈ es, e.Canonical) {t : Text}
    (bytes : es.map Element.byte = t.bytes) : quote t = quoted es [] := by
  rw [quote, quoted, body_eq_spellAll h, bytes]

/-- Canonical elements are printable ASCII. -/
theorem Element.Canonical.code_bounds {e : Element} (h : e.Canonical) :
    ∀ g ∈ e.text, 0x20 ≤ g.code ∧ g.code ≤ 0x7E := by
  have digit {d : Nat} (hd : d < 10) : 0x20 ≤ (digitGlyph d).code ∧ (digitGlyph d).code ≤ 0x7E := by
    rw [digitGlyph, Glyph.code_char, Nat.toNat_digitChar_of_lt_ten hd]
    omega
  cases h with
  | named names => cases names <;> decide
  | @plain c small noQuote noBackslash printable =>
    rw [Element.byte, Printable, Utf8.toNat_ofNat_of_lt (by omega)] at printable
    intro g hg
    rw [List.mem_singleton.1 hg]
    exact printable
  | @octal d₁ d₂ d₃ =>
    simp only [Element.text, List.forall_mem_cons]
    exact ⟨by decide, digit (by omega), digit d₂.isLt, digit d₃.isLt, List.forall_mem_nil _⟩

/-- A canonical literal is printable ASCII. -/
theorem code_bounds_of_mem_quote {t : Text} {g : Glyph} (h : g ∈ quote t) :
    0x20 ≤ g.code ∧ g.code ≤ 0x7E := by
  obtain ⟨es, canonical, bytes⟩ := exists_canonical_body t.bytes
  rw [quote_eq_quoted canonical bytes, quoted, List.mem_cons, List.mem_append,
    List.mem_singleton] at h
  rcases h with rfl | inside | rfl
  · decide
  · obtain ⟨e, he, hg⟩ := List.mem_flatMap.1 inside
    exact (canonical e he).code_bounds g hg
  · decide

theorem quote_injective : Function.Injective fun s : String => quote (Text.ofString s) := by
  intro s s' h
  have read := parse_quote s
  rw [show quote (Text.ofString s) = _ from h, parse_quote s'] at read
  exact (Except.ok.inj read).symm

/-- A literal is written as it was read exactly if it is canonical. -/
theorem quote_eq_iff_canonical {l : Text} {s : String} (h : read l = .ok s []) :
    quote (Text.ofString s) = l ↔ ∃ es, l = quoted es [] ∧
      Utf8.Valid (es.map Element.byte) ∧ ∀ e ∈ es, e.Canonical := by
  constructor
  · rintro rfl
    obtain ⟨es, canonical, bytes⟩ := exists_canonical_body (Text.ofString s).bytes
    refine ⟨es, quote_eq_quoted canonical bytes, ?_, canonical⟩
    exact ⟨s.toList, bytes.trans (Text.bytes_ofString s)⟩
  · rintro ⟨es, rfl, ⟨chars, valid⟩, canonical⟩
    have bytes : es.map Element.byte = (Text.ofString (String.ofList chars)).bytes := by
      rw [valid, Text.bytes_ofString, String.toList_ofList]
    rw [read_quoted, bytes, Utf8.decodeLossy_bytes] at h
    cases h
    exact quote_eq_quoted canonical bytes

/-- **Quoting and reading undo each other.** The canonical literal of a string is printable ASCII
and is read as the string, with all that follows it left; so no two strings share one. A literal is
the canonical one of its string exactly if its bytes are UTF-8 and its elements canonical. -/
theorem quote_read_inverse :
    (∀ (s : String) (r : Text), read (quote (Text.ofString s) ++ r) = .ok s r) ∧
      (∀ s : String, parse (quote (Text.ofString s)) = .ok s) ∧
      (Function.Injective fun s : String => quote (Text.ofString s)) ∧
      (∀ s : String, ∀ g ∈ quote (Text.ofString s), 0x20 ≤ g.code ∧ g.code ≤ 0x7E) ∧
      ∀ (l : Text) (s : String), read l = .ok s [] →
        (quote (Text.ofString s) = l ↔ ∃ es, l = quoted es [] ∧
          Utf8.Valid (es.map Element.byte) ∧ ∀ e ∈ es, e.Canonical) := by
  refine ⟨read_quote_append, parse_quote, quote_injective, ?_, ?_⟩
  · intro s g h
    exact code_bounds_of_mem_quote h
  · intro l s h
    exact quote_eq_iff_canonical h

/-- A character of two bytes and a line end: the literal is canonical, so it is written again. -/
theorem quote_read_inverse_accent :
    quote (Text.ofString "é\n") = Text.ofString "\"\\303\\251\\n\"" ∧
      ∀ g ∈ quote (Text.ofString "é\n"), 0x20 ≤ g.code ∧ g.code ≤ 0x7E := by
  have read : read (Text.ofString "\"\\303\\251\\n\"") = .ok "é\n" [] := rfl
  have lead : Element.Canonical (.octal 3 0 3) := by
    refine .octal (by decide) (by decide) ?_ (by decide)
    intro c names
    cases names
  have trail : Element.Canonical (.octal 2 5 1) := by
    refine .octal (by decide) (by decide) ?_ (by decide)
    intro c names
    cases names
  refine ⟨(quote_read_inverse.2.2.2.2 _ _ read).2 ?_, quote_read_inverse.2.2.2.1 _⟩
  refine ⟨[.octal 3 0 3, .octal 2 5 1, .named 'n' 0x0A .lineFeed], rfl, ⟨['é', '\n'], rfl⟩, ?_⟩
  simp only [List.forall_mem_cons]
  exact ⟨lead, trail, .named _, List.forall_mem_nil _⟩

end GdbMi.Literal
