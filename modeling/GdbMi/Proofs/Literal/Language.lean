import Mathlib.Data.List.TakeWhile
import GdbMi.Literal.RoundTrip

/-!
# The language of literals

Between its quotes a literal is a sequence of elements, each of which spells one byte: a glyph of
one byte, a letter or sign after a backslash, or three digits after a backslash. Elements can be
told apart (`body_inj`), so the bytes of a literal are those of its only decomposition.

A text that is no literal has a first place where no element goes on: some front of an element
(`Opening`), and behind it a glyph that the front does not take, or nothing. `splits_opening` cuts
every text in one of the two ways, by induction on the text with the front of an element at hand;
`scan` reads the elements and then closes or fails as the cut says.
-/

namespace GdbMi.Literal
set_option autoImplicit false

/-- The letter or sign names the byte after a backslash. -/
inductive Names : Char → UInt8 → Prop where
  | lineFeed : Names 'n' 0x0A
  | backspace : Names 'b' 0x08
  | tab : Names 't' 0x09
  | formFeed : Names 'f' 0x0C
  | carriageReturn : Names 'r' 0x0D
  | escape : Names 'e' 0x1B
  | bell : Names 'a' 0x07
  | backslash : Names '\\' 0x5C
  | quote : Names '"' 0x22

/-- A spelling of one byte in a literal. -/
inductive Element where
  /-- A character of one byte stands for itself. -/
  | plain (c : Char) (small : c.toNat ≤ 0xFF) (noQuote : c ≠ '"') (noBackslash : c ≠ '\\')
  | named (c : Char) (b : UInt8) (names : Names c b)
  | octal (d₁ : Fin 4) (d₂ d₃ : Fin 10)

/-- The ASCII digit of the value. -/
def digitGlyph (d : Nat) : Glyph := Glyph.char (Nat.digitChar d)

namespace Element

/-- How the element is written. -/
def text : Element → Text
  | plain c _ _ _ => [Glyph.char c]
  | named c _ _ => [Glyph.char '\\', Glyph.char c]
  | octal d₁ d₂ d₃ => [Glyph.char '\\', digitGlyph d₁, digitGlyph d₂, digitGlyph d₃]

/-- The byte that the element spells. The value of three digits wraps. -/
def byte : Element → UInt8
  | plain c _ _ _ => UInt8.ofNat c.toNat
  | named _ b _ => b
  | octal d₁ d₂ d₃ => UInt8.ofNat (64 * d₁ + 8 * d₂ + d₃)

end Element

/-- The text of elements. -/
def body (es : List Element) : Text := es.flatMap Element.text

/-- Elements between quotes, and the text after them. -/
def quoted (es : List Element) (rest : Text) : Text :=
  Glyph.char '"' :: (body es ++ Glyph.char '"' :: rest)

/-- The front of an element: nothing yet, the backslash, or that and some digits. -/
inductive Opening where
  | start
  | backslash
  | octal₁ (d₁ : Fin 4)
  | octal₂ (d₁ : Fin 4) (d₂ : Fin 10)

namespace Opening

/-- How the front of an element is written. -/
def text : Opening → Text
  | start => []
  | backslash => [Glyph.char '\\']
  | octal₁ d₁ => [Glyph.char '\\', digitGlyph d₁]
  | octal₂ d₁ d₂ => [Glyph.char '\\', digitGlyph d₁, digitGlyph d₂]

/-- The text does not go on with what the front of an element has begun, nor end the literal. A
glyph of more than one byte is wrong as such, wherever it stands. -/
inductive Fails : Opening → Text → ParseError → Prop where
  | ended (o : Opening) : Fails o [] (.ended "closing quote")
  | nonByte (o : Opening) {g : Glyph} {t : Text} : 0xFF < g.code → Fails o (g :: t) (.nonByte g)
  | unknownEscape {c : Char} {t : Text} : c.toNat ≤ 0xFF → (∀ b, ¬ Names c b) →
      (∀ d : Fin 4, c ≠ Nat.digitChar d) → Fails backslash (c :: t) (.unknownEscape c)
  | badOctal₁ {d₁ : Fin 4} {c : Char} {t : Text} : c.toNat ≤ 0xFF →
      (∀ d : Fin 10, c ≠ Nat.digitChar d) → Fails (octal₁ d₁) (c :: t) (.badOctal c)
  | badOctal₂ {d₁ : Fin 4} {d₂ : Fin 10} {c : Char} {t : Text} : c.toNat ≤ 0xFF →
      (∀ d : Fin 10, c ≠ Nat.digitChar d) → Fails (octal₂ d₁ d₂) (c :: t) (.badOctal c)

/-- Where in a literal the front of an element leads. -/
def place : Opening → Place
  | start => .plain
  | backslash => .afterBackslash
  | octal₁ d₁ => .octal₂ d₁
  | octal₂ d₁ d₂ => .octal₃ d₁ d₂

end Opening

/-! ## Elements can be told apart -/

theorem Names.functional {c : Char} {b b' : UInt8} (h : Names c b) (h' : Names c b') : b = b' := by
  cases h <;> cases h' <;> rfl

theorem Names.ne_digitChar {c : Char} {b : UInt8} (h : Names c b) {d : Nat} (hd : d < 10) :
    c ≠ Nat.digitChar d := by
  cases h <;> revert d <;> decide

theorem digitGlyph_inj {d d' : Nat} (hd : d < 10) (hd' : d' < 10)
    (h : digitGlyph d = digitGlyph d') : d = d' := by
  have same : Nat.digitChar d = Nat.digitChar d' := Glyph.char.inj h
  have value := congrArg asciiDigit? same
  rw [asciiDigit?_digitChar hd, asciiDigit?_digitChar hd'] at value
  exact Option.some.inj value

/-- An element is read off the front of a text in one way only. -/
theorem Element.text_append_inj {e e' : Element} {t t' : Text} (h : e.text ++ t = e'.text ++ t') :
    e = e' ∧ t = t' := by
  cases e with
  | plain c small noQuote noBackslash =>
    cases e' with
    | plain c' => cases h; exact ⟨rfl, rfl⟩
    | named c' => cases h; exact absurd rfl noBackslash
    | octal d₁' => cases h; exact absurd rfl noBackslash
  | named c b names =>
    cases e' with
    | plain c' small' noQuote' noBackslash' => cases h; exact absurd rfl noBackslash'
    | named c' b' names' =>
      cases h
      cases names.functional names'
      exact ⟨rfl, rfl⟩
    | octal d₁' => cases h; exact absurd rfl (names.ne_digitChar (by omega))
  | octal d₁ d₂ d₃ =>
    cases e' with
    | plain c' small' noQuote' noBackslash' => cases h; exact absurd rfl noBackslash'
    | named c' b' names' => cases h; exact absurd rfl (names'.ne_digitChar (by omega))
    | octal d₁' d₂' d₃' =>
      obtain ⟨h₁, h₂, h₃, rfl⟩ : digitGlyph d₁ = digitGlyph d₁' ∧
          digitGlyph d₂ = digitGlyph d₂' ∧ digitGlyph d₃ = digitGlyph d₃' ∧ t = t' := by
        simpa [Element.text] using h
      have e₁ := Fin.ext (digitGlyph_inj (by omega) (by omega) h₁)
      have e₂ := Fin.ext (digitGlyph_inj (by omega) (by omega) h₂)
      have e₃ := Fin.ext (digitGlyph_inj (by omega) (by omega) h₃)
      rw [e₁, e₂, e₃]
      exact ⟨rfl, rfl⟩

/-- No element begins with the quote that ends a literal. -/
theorem Element.text_append_ne_quote (e : Element) (t u : Text) :
    e.text ++ t ≠ Glyph.char '"' :: u := by
  intro h
  cases e with
  | plain c small noQuote => cases h; exact absurd rfl noQuote
  | named c => cases h
  | octal d₁ => cases h

/-- A text is elements and a quote in one way only. -/
theorem body_inj {es es' : List Element} {w w' : Text}
    (h : body es ++ Glyph.char '"' :: w = body es' ++ Glyph.char '"' :: w') :
    es = es' ∧ w = w' := by
  induction es generalizing es' with
  | nil =>
    cases es' with
    | nil => cases h; exact ⟨rfl, rfl⟩
    | cons e' es' =>
      rw [body, body, List.flatMap_cons, List.append_assoc] at h
      exact absurd h.symm (e'.text_append_ne_quote _ w)
  | cons e es ih =>
    cases es' with
    | nil =>
      rw [body, body, List.flatMap_cons, List.append_assoc] at h
      exact absurd h (e.text_append_ne_quote _ w')
    | cons e' es' =>
      rw [body, body, List.flatMap_cons, List.flatMap_cons, List.append_assoc,
        List.append_assoc] at h
      obtain ⟨rfl, rest⟩ := Element.text_append_inj h
      obtain ⟨rfl, rfl⟩ := ih rest
      exact ⟨rfl, rfl⟩

/-! ## Reading elements -/

theorem names_iff_mem {c : Char} {b : UInt8} : Names c b ↔ (c, b) ∈ namedEscapes := by
  constructor
  · intro h
    cases h <;> decide
  · intro h
    simp only [namedEscapes, List.mem_cons, List.not_mem_nil, or_false, Prod.mk.injEq] at h
    rcases h with h | h | h | h | h | h | h | h | h <;> obtain ⟨rfl, rfl⟩ := h <;> constructor

theorem names_of_lookup {c : Char} {b : UInt8} (h : namedEscapes.lookup c = some b) :
    Names c b := by
  obtain ⟨before, after, split, -⟩ := List.lookup_eq_some_iff.1 h
  apply names_iff_mem.2
  rw [split]
  exact List.mem_append_right before List.mem_cons_self

/-- An element is read as the byte that it spells. -/
theorem scan_element (acc : List UInt8) (e : Element) (t : Text) :
    scan { bytes := acc } (e.text ++ t) = scan { bytes := e.byte :: acc } t := by
  cases e with
  | plain c small noQuote noBackslash => exact scan_plain small noQuote noBackslash acc t
  | named c b names => exact scan_named (names_iff_mem.1 names) acc t
  | octal d₁ d₂ d₃ => exact scan_octal acc t (Nat.le_of_lt_succ d₁.isLt) d₂.isLt d₃.isLt

/-- Elements are read as their bytes. -/
theorem scan_body (acc : List UInt8) (es : List Element) (t : Text) :
    scan { bytes := acc } (body es ++ t)
      = scan { bytes := (es.map Element.byte).reverse ++ acc } t := by
  induction es generalizing acc with
  | nil => rfl
  | cons e es ih =>
    have split : body (e :: es) ++ t = e.text ++ (body es ++ t) := by simp [body]
    rw [split, scan_element, ih]
    simp

/-- The front of an element takes the literal to its place. -/
theorem scan_opening (acc : List UInt8) (o : Opening) (t : Text) :
    scan { bytes := acc } (o.text ++ t) = scan { bytes := acc, place := o.place } t := by
  cases o with
  | start => rfl
  | backslash => rfl
  | octal₁ d₁ => exact scan_digit₁ acc t (by omega)
  | octal₂ d₁ d₂ =>
    calc scan { bytes := acc } ((Opening.octal₂ d₁ d₂).text ++ t)
      _ = scan { bytes := acc, place := .octal₂ d₁ } (digitGlyph d₂ :: t) :=
        scan_digit₁ acc _ (by omega)
      _ = scan { bytes := acc, place := .octal₃ d₁ d₂ } t := scan_digit₂ acc t d₁ (by omega)

theorem asciiDigit?_eq_some_iff {c : Char} {d : Nat} :
    asciiDigit? c = some d ↔ d < 10 ∧ c = Nat.digitChar d := by
  constructor
  · intro h
    unfold asciiDigit? at h
    by_cases digit : c.isDigit
    · rw [if_pos digit] at h
      have bounds : 48 ≤ c.toNat ∧ c.toNat ≤ 57 := Char.isDigit_iff_toNat.1 digit
      have value : c.toNat - 48 = d := Option.some.inj h
      refine ⟨by omega, Char.toNat_inj.1 ?_⟩
      rw [Nat.toNat_digitChar_of_lt_ten (by omega)]
      omega
    · rw [if_neg digit] at h
      cases h
  · rintro ⟨hd, rfl⟩
    exact asciiDigit?_digitChar hd

/-- Where the front of an element is not gone on with, reading fails, and the glyph there counts
as read. -/
theorem scan_of_fails (acc : List UInt8) {o : Opening} {t : Text} {e : ParseError}
    (h : o.Fails t e) : scan { bytes := acc, place := o.place } t = .fail e t.tail := by
  have refused {place : Place} {g : Glyph} {t : Text} {e : ParseError}
      (h : Scan.step { bytes := acc, place } g = .refuse e) :
      scan { bytes := acc, place } (g :: t) = .fail e t := by
    simp only [scan, h]
  have noDigit {c : Char} (h : ∀ d : Fin 10, c ≠ Nat.digitChar d) : asciiDigit? c = none := by
    rw [Option.eq_none_iff_forall_ne_some]
    intro d hd
    obtain ⟨small, eq⟩ := asciiDigit?_eq_some_iff.1 hd
    exact h ⟨d, small⟩ eq
  cases h with
  | ended => rfl
  | @nonByte o g t wide =>
    apply refused
    cases g with
    | stray b => rfl
    | char c =>
      have large : ¬ c.toNat ≤ 0xFF := Nat.not_le.2 wide
      simp only [Scan.step, if_neg large]
  | @unknownEscape c t small unnamed noLead =>
    apply refused
    simp only [Scan.step, if_pos small, Scan.stepChar, Opening.place]
    split
    · next _ _ b named => exact absurd (names_of_lookup named) (unnamed b)
    · next _ _ d _ digit =>
      obtain ⟨-, rfl⟩ := asciiDigit?_eq_some_iff.1 digit
      rw [if_neg]
      intro lead
      exact noLead ⟨d, Nat.lt_succ_of_le lead⟩ rfl
    · rfl
  | badOctal₁ small h =>
    apply refused
    simp only [Scan.step, if_pos small, Scan.stepChar, Opening.place, noDigit h]
  | badOctal₂ small h =>
    apply refused
    simp only [Scan.step, if_pos small, Scan.stepChar, Opening.place, noDigit h]

/-! ## Every text is cut in one of two ways -/

/-- The text is elements and a closing quote, or elements and the front of one that fails. -/
def Splits (t : Text) : Prop :=
  (∃ es r, t = body es ++ Glyph.char '"' :: r) ∨
    ∃ es o u e, t = body es ++ (Opening.text o ++ u) ∧ o.Fails u e

theorem Splits.of_fails {o : Opening} {u : Text} {e : ParseError} (h : o.Fails u e) :
    Splits (o.text ++ u) :=
  .inr ⟨[], o, u, e, rfl, h⟩

theorem Splits.cons {t : Text} (h : Splits t) (e : Element) : Splits (e.text ++ t) := by
  have append (es : List Element) (u : Text) : e.text ++ (body es ++ u) = body (e :: es) ++ u := by
    simp [body]
  rcases h with ⟨es, r, rfl⟩ | ⟨es, o, u, err, rfl, fails⟩
  · exact .inl ⟨e :: es, r, append es _⟩
  · exact .inr ⟨e :: es, o, u, err, append es _, fails⟩

/-- A glyph of more than one byte, or a character of one. -/
theorem wide_or_small (g : Glyph) :
    0xFF < g.code ∨ ∃ c, g = Glyph.char c ∧ c.toNat ≤ 0xFF := by
  cases g with
  | stray b =>
    have := Glyph.code_stray_bounds b
    exact .inl (by omega)
  | char c =>
    by_cases small : c.toNat ≤ 0xFF
    · exact .inr ⟨c, rfl, small⟩
    · exact .inl (Nat.lt_of_not_le small)

/-- The front of an element and the text after it are cut. -/
theorem splits_opening (o : Opening) (t : Text) : Splits (o.text ++ t) := by
  -- a glyph that goes on with the front makes it longer or completes the element
  induction t generalizing o with
  | nil => exact .of_fails (.ended o)
  | cons g t ih =>
    rcases wide_or_small g with wide | ⟨c, rfl, small⟩
    · exact .of_fails (.nonByte o wide)
    cases o with
    | start =>
      by_cases quote : c = '"'
      · exact .inl ⟨[], t, by rw [quote]; rfl⟩
      by_cases backslash : c = '\\'
      · rw [backslash]
        exact ih .backslash
      · exact (ih .start).cons (.plain c small quote backslash)
    | backslash =>
      by_cases named : ∃ b, Names c b
      · obtain ⟨b, names⟩ := named
        exact (ih .start).cons (.named c b names)
      by_cases digit : ∃ d : Fin 4, c = Nat.digitChar d
      · obtain ⟨d, rfl⟩ := digit
        exact ih (.octal₁ d)
      · exact .of_fails (.unknownEscape small (not_exists.1 named) (not_exists.1 digit))
    | octal₁ d₁ =>
      by_cases digit : ∃ d : Fin 10, c = Nat.digitChar d
      · obtain ⟨d, rfl⟩ := digit
        exact ih (.octal₂ d₁ d)
      · exact .of_fails (.badOctal₁ small (not_exists.1 digit))
    | octal₂ d₁ d₂ =>
      by_cases digit : ∃ d : Fin 10, c = Nat.digitChar d
      · obtain ⟨d, rfl⟩ := digit
        exact (ih .start).cons (.octal d₁ d₂ d)
      · exact .of_fails (.badOctal₂ small (not_exists.1 digit))

/-! ## Reading literals -/

/-- Elements and a closing quote are read as the bytes. -/
theorem scan_body_quote (es : List Element) (r : Text) :
    scan {} (body es ++ Glyph.char '"' :: r) = .ok (es.map Element.byte) r := by
  have closed (acc : List UInt8) :
      scan { bytes := acc } (Glyph.char '"' :: r) = .ok acc.reverse r := rfl
  rw [scan_body, closed]
  simp

/-- Elements and the front of one that fails are not read. -/
theorem scan_body_fails (es : List Element) {o : Opening} {u : Text} {e : ParseError}
    (h : o.Fails u e) : scan {} (body es ++ (o.text ++ u)) = .fail e u.tail := by
  rw [scan_body, scan_opening, scan_of_fails _ h]

theorem scan_eq_ok_iff {t r : Text} {bytes : List UInt8} :
    scan {} t = .ok bytes r ↔
      ∃ es, t = body es ++ Glyph.char '"' :: r ∧ bytes = es.map Element.byte := by
  constructor
  · intro h
    rcases splits_opening .start t with ⟨es, r', split⟩ | ⟨es, o, u, e, split, fails⟩
    · rw [show t = _ from split, scan_body_quote] at h
      cases h
      exact ⟨es, split, rfl⟩
    · rw [show t = _ from split, scan_body_fails es fails] at h
      cases h
  · rintro ⟨es, rfl, rfl⟩
    exact scan_body_quote es r

theorem scan_eq_fail_iff {t r : Text} {e : ParseError} :
    scan {} t = .fail e r ↔
      ∃ es o u, t = body es ++ (Opening.text o ++ u) ∧ o.Fails u e ∧ r = u.tail := by
  constructor
  · intro h
    rcases splits_opening .start t with ⟨es, r', split⟩ | ⟨es, o, u, e', split, fails⟩
    · rw [show t = _ from split, scan_body_quote] at h
      cases h
    · rw [show t = _ from split, scan_body_fails es fails] at h
      cases h
      exact ⟨es, o, u, split, fails, rfl⟩
  · rintro ⟨es, o, u, rfl, fails, rfl⟩
    exact scan_body_fails es fails

theorem read_quoted (es : List Element) (r : Text) :
    read (quoted es r) = .ok (Utf8.decodeLossy (es.map Element.byte)) r := by
  rw [quoted, read_opening_quote, scan_body_quote, Reading.map]

theorem read_eq_ok_iff_quoted {t r : Text} {s : String} :
    read t = .ok s r ↔
      ∃ es, t = quoted es r ∧ s = Utf8.decodeLossy (es.map Element.byte) := by
  constructor
  · intro h
    obtain ⟨u, bytes, rfl, scanned, rfl⟩ := read_eq_ok_iff.1 h
    obtain ⟨es, rfl, rfl⟩ := scan_eq_ok_iff.1 scanned
    exact ⟨es, rfl, rfl⟩
  · rintro ⟨es, rfl, rfl⟩
    exact read_quoted es r

theorem skipSpacing_eq_nil_iff {t : Text} :
    skipSpacing t = [] ↔ ∀ g ∈ t, g.isSpacing = true :=
  List.dropWhile_eq_nil_iff

/-- **The language of literals.** A text is a literal exactly if it is a quote, elements, a quote
and spacing, in one way only, and its string is decoded from the bytes of the elements. So elements
may be spelled in any way that gives the same bytes. Behind an opening quote, reading fails before
the closing one exactly where, behind elements and the front of one, the text fails to go on. -/
theorem parse_iff_elements :
    (∀ t s, parse t = .ok s ↔ ∃ es w, t = quoted es w ∧ (∀ g ∈ w, g.isSpacing = true) ∧
        s = Utf8.decodeLossy (es.map Element.byte)) ∧
      (∀ es es' w w', quoted es w = quoted es' w' → es = es' ∧ w = w') ∧
      (∀ es es' w, es.map Element.byte = es'.map Element.byte →
        parse (quoted es w) = parse (quoted es' w)) ∧
      ∀ u e r, read (Glyph.char '"' :: u) = .fail e r ∧ parse (Glyph.char '"' :: u) = .error e ↔
        ∃ es o v, u = body es ++ (Opening.text o ++ v) ∧ o.Fails v e ∧ r = v.tail := by
  refine ⟨?_, ?_, ?_, ?_⟩
  · intro t s
    rw [parse, Reading.whole_eq_ok_iff]
    constructor
    · rintro ⟨w, h, spacing⟩
      obtain ⟨es, rfl, rfl⟩ := read_eq_ok_iff_quoted.1 h
      exact ⟨es, w, rfl, skipSpacing_eq_nil_iff.1 spacing, rfl⟩
    · rintro ⟨es, w, rfl, spacing, rfl⟩
      exact ⟨w, read_quoted es w, skipSpacing_eq_nil_iff.2 spacing⟩
  · intro es es' w w' h
    exact body_inj (List.cons.inj h).2
  · intro es es' w h
    rw [parse, parse, read_quoted, read_quoted, h]
  · intro u e r
    rw [parse, read_opening_quote, ← scan_eq_fail_iff]
    constructor
    · rintro ⟨h, -⟩
      cases scanned : scan {} u with
      | ok bytes rest =>
        rw [scanned] at h
        cases h
      | fail e' rest =>
        rw [scanned] at h
        cases h
        rfl
    · intro h
      rw [h]
      exact ⟨rfl, rfl⟩

/-- The two bytes of a character may be spelled in digits and as they are, either of them. A glyph
of more bytes is no digit either, but it is wrong as such. -/
theorem parse_iff_elements_respelled :
    parse (Text.ofString "\"\\303©\"\n") = parse (Text.ofString "\"Ã\\251\"\n") ∧
      parse (Text.ofString "\"\\303©\"\n") = .ok "é" ∧
      parse (Text.ofString "\"\\3€\"") = .error (.nonByte '€') := by
  refine ⟨?_, ?_, ?_⟩
  · exact parse_iff_elements.2.2.1
      [.octal 3 0 3, .plain '©' (by decide) (by decide) (by decide)]
      [.plain 'Ã' (by decide) (by decide) (by decide), .octal 2 5 1] [Glyph.char '\n'] rfl
  · exact (parse_iff_elements.1 _ _).2
      ⟨[.octal 3 0 3, .plain '©' (by decide) (by decide) (by decide)], [Glyph.char '\n'],
        rfl, by decide, by decide⟩
  · exact ((parse_iff_elements.2.2.2 _ _ _).2
      ⟨[], .octal₁ 3, _, rfl, .nonByte _ (by decide), rfl⟩).2

end GdbMi.Literal
