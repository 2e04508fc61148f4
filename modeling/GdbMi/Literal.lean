import GdbMi.Reading.Basic
import GdbMi.Text.Utf8

/-!
# String literals

A literal spells bytes between double quotes: a glyph of one byte stands for itself, nine bytes
have a named escape, and a backslash with three digits gives any byte. The bytes are decoded as
UTF-8 only when the closing quote is reached. `scan` reads a literal in one pass; `quote` writes the
canonical one: named escapes where there are any, printable ASCII as it is, octal for the rest.

`read` is `decode_string`: the places of a `Scan` are where `_next_byte_char`, `_decode_escape` and
`_octal_digit` ask for the next glyph. `namedEscapes` is `ESCAPED_BYTES`, `parse` is the function
`parse_string` of a whole text, and `quote` is `escape_string`.
-/

namespace GdbMi.Literal
set_option autoImplicit false

/-- The bytes with a named escape, each with the character that names it. -/
def namedEscapes : List (Char × UInt8) :=
  [('n', 0x0A), ('b', 0x08), ('t', 0x09), ('f', 0x0C), ('r', 0x0D), ('e', 0x1B), ('a', 0x07),
   ('\\', 0x5C), ('"', 0x22)]

/-- Where in a literal the next glyph stands. -/
inductive Place where
  | plain
  | afterBackslash
  /-- After the first digit of an octal escape. -/
  | octal₂ (d₁ : Nat)
  /-- After the second digit of an octal escape. -/
  | octal₃ (d₁ d₂ : Nat)
deriving DecidableEq, Repr

/-- An unfinished literal: the bytes it spells so far, the latest first, and the place reached. -/
structure Scan where
  bytes : List UInt8 := []
  place : Place := .plain
deriving DecidableEq, Repr

/-- What a glyph does to an unfinished literal. -/
inductive Step where
  | go (s : Scan)
  /-- The closing quote, with all bytes in order. -/
  | close (bytes : List UInt8)
  | refuse (e : ParseError)

/-- The value of an ASCII digit. -/
def asciiDigit? (c : Char) : Option Nat :=
  if c.isDigit then some (c.toNat - '0'.toNat) else none

/-- The byte of an octal escape. Digits may go up to nine, and the value wraps. -/
def octalByte (d₁ d₂ d₃ : Nat) : UInt8 := UInt8.ofNat (64 * d₁ + 8 * d₂ + d₃)

namespace Scan

/-- Takes a byte that is spelled out. -/
def push (s : Scan) (b : UInt8) : Scan := { bytes := b :: s.bytes }

/-- Reads a character of one byte. -/
def stepChar (s : Scan) (c : Char) : Step :=
  match s.place with
  | .plain =>
    if c = '"' then .close s.bytes.reverse
    else if c = '\\' then .go { s with place := .afterBackslash }
    else .go (s.push (UInt8.ofNat c.toNat))
  | .afterBackslash =>
    match namedEscapes.lookup c, asciiDigit? c with
    | some b, _ => .go (s.push b)
    | none, some d => if d ≤ 3 then .go { s with place := .octal₂ d } else .refuse (.unknownEscape c)
    | none, none => .refuse (.unknownEscape c)
  | .octal₂ d₁ =>
    match asciiDigit? c with
    | some d₂ => .go { s with place := .octal₃ d₁ d₂ }
    | none => .refuse (.badOctal c)
  | .octal₃ d₁ d₂ =>
    match asciiDigit? c with
    | some d₃ => .go (s.push (octalByte d₁ d₂ d₃))
    | none => .refuse (.badOctal c)

/-- Reads a glyph. One that is not a single byte is refused wherever it stands. -/
def step (s : Scan) (g : Glyph) : Step :=
  match g with
  | .char c => if c.toNat ≤ 0xFF then s.stepChar c else .refuse (.nonByte g)
  | .stray _ => .refuse (.nonByte g)

end Scan

/-- The error of a literal that the end of the text cuts off. -/
def unclosed : ParseError := .ended "closing quote"

/-- Reads the rest of a literal after its opening quote: the bytes it spells. A glyph that is refused
counts as read. -/
def scan : Scan → Text → Reading (List UInt8)
  | _, [] => .fail unclosed []
  | s, g :: t =>
    match s.step g with
    | .go s => scan s t
    | .close bytes => .ok bytes t
    | .refuse e => .fail e t

/-- Reads a literal, which must begin at once. -/
def read : Text → Reading String
  | [] => .fail (.ended "more input") []
  | g :: t =>
    if g = '"' then (scan {} t).map Utf8.decodeLossy
    else .fail (.unexpected "\"" (g :: t)) (g :: t)

/-- The string of a text that is one literal, and spacing after it. -/
def parse (t : Text) : Except ParseError String := (read t).whole

theorem read_opening_quote (t : Text) :
    read (Glyph.char '"' :: t) = (scan {} t).map Utf8.decodeLossy := by
  rw [read, if_pos rfl]

theorem read_eq_ok_iff {t r : Text} {s : String} :
    read t = .ok s r ↔ ∃ u bytes, t = Glyph.char '"' :: u ∧
      scan {} u = .ok bytes r ∧ s = Utf8.decodeLossy bytes := by
  constructor
  · intro h
    cases t with
    | nil => cases h
    | cons g u =>
      simp only [read] at h
      split at h
      · next hg =>
        cases scanned : scan {} u with
        | ok bytes rest =>
          rw [scanned] at h
          cases h
          exact ⟨u, bytes, by rw [hg], scanned, rfl⟩
        | fail e rest =>
          rw [scanned] at h
          cases h
      · cases h
  · rintro ⟨u, bytes, rfl, scanned, rfl⟩
    rw [read_opening_quote, scanned, Reading.map]

theorem rest_scan_suffix (s : Scan) (t : Text) : (scan s t).rest <:+ t := by
  induction t generalizing s with
  | nil => exact List.suffix_refl _
  | cons g t ih =>
    simp only [scan]
    split
    · exact (ih _).trans (List.suffix_cons g t)
    · exact List.suffix_cons g t
    · exact List.suffix_cons g t

theorem rest_read_suffix (t : Text) : (read t).rest <:+ t := by
  cases t with
  | nil => exact List.suffix_refl _
  | cons g t =>
    simp only [read]
    split
    · rw [Reading.rest_map]
      exact (rest_scan_suffix _ t).trans (List.suffix_cons g t)
    · exact List.suffix_refl _

/-- The three octal digits of a byte. -/
def octalDigits (b : UInt8) : List Char :=
  [Nat.digitChar (b.toNat / 64), Nat.digitChar (b.toNat / 8 % 8), Nat.digitChar (b.toNat % 8)]

/-- The canonical spelling of a byte. -/
def spell (b : UInt8) : List Char :=
  match namedEscapes.find? (·.2 == b) with
  | some (c, _) => ['\\', c]
  | none =>
    if 0x20 ≤ b.toNat ∧ b.toNat < 0x7F then [Char.ofNat b.toNat] else '\\' :: octalDigits b

/-- The canonical spelling of bytes, without quotes. -/
def spellAll (bytes : List UInt8) : Text := (bytes.flatMap spell).map Glyph.char

/-- The canonical literal of a text. -/
def quote (t : Text) : Text := '"' :: (spellAll t.bytes ++ [Glyph.char '"'])

end GdbMi.Literal
