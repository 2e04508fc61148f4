import GdbMi.Literal
import GdbMi.Proofs.Reading.Cursor

/-!
# Literals with a cursor

A literal read character by character: what is plain stands for itself, and after a backslash the
escape is read, with up to three digits: `Cursor.literal` is `decode_string`, step by step. The
scanner does the same in one pass (`scan_eq_andThen`), so with a cursor a literal is read as by
`Literal.read` (`reads_literal`).
-/

namespace GdbMi
set_option autoImplicit false

namespace Cursor

/-- Reads a character of one byte inside a literal. -/
def byteChar : CursorM Char := do
  let g ← tryCatch next fun _ => throw Literal.unclosed
  match g with
  | .char c => if c.toNat ≤ 0xFF then return c else throw (.nonByte c)
  | .stray b => throw (.nonByte (.stray b))

/-- Reads a digit of an octal escape. -/
def octalDigit : CursorM Nat := do
  let c ← byteChar
  match Literal.asciiDigit? c with
  | some d => return d
  | none => throw (.badOctal c)

/-- Reads what follows a backslash. -/
def escape : CursorM UInt8 := do
  let c ← byteChar
  match Literal.namedEscapes.lookup c, Literal.asciiDigit? c with
  | some b, _ => return b
  | none, some d₁ =>
    if d₁ ≤ 3 then
      let d₂ ← octalDigit
      let d₃ ← octalDigit
      return Literal.octalByte d₁ d₂ d₃
    else throw (.unknownEscape c)
  | none, none => throw (.unknownEscape c)

/-- Reads the bytes up to the closing quote in a number of turns, where some are held already, the
latest first. -/
def bytes : Nat → List UInt8 → CursorM (List UInt8)
  | 0, _ => fun _ => none
  | turns + 1, held => do
    let c ← byteChar
    if c = '"' then return held.reverse
    else if c = '\\' then
      let b ← escape
      bytes turns (b :: held)
    else bytes turns (UInt8.ofNat c.toNat :: held)

/-- Reads the rest of a literal after its opening quote. -/
def content : CursorM (List UInt8) := do
  let rest ← remaining
  bytes (rest.length + 1) []

/-- Reads a literal, which must begin at once. -/
def literal : CursorM String := do
  let g ← peek false
  if g = '"' then
    let _ ← next
    let bytes ← content
    return Utf8.decodeLossy bytes
  else
    let rest ← remaining
    throw (.unexpected "\"" rest)

end Cursor

/-! ## The scanner, character by character -/

namespace Literal

/-- The character of one byte at the front of the text. -/
def byteCharAt (t : Text) : Reading Char :=
  ((Cursor.readAt t).failingWith unclosed).andThen fun g rest =>
    match g with
    | .char c => if c.toNat ≤ 0xFF then .ok c rest else .fail (.nonByte c) rest
    | .stray b => .fail (.nonByte (.stray b)) rest

/-- The digit at the front of the text. -/
def octalDigitAt (t : Text) : Reading Nat :=
  (byteCharAt t).andThen fun c rest =>
    match asciiDigit? c with
    | some d => .ok d rest
    | none => .fail (.badOctal c) rest

/-- The byte of the escape whose backslash has been read. -/
def escapeAt (t : Text) : Reading UInt8 :=
  (byteCharAt t).andThen fun c rest =>
    match namedEscapes.lookup c, asciiDigit? c with
    | some b, _ => .ok b rest
    | none, some d₁ =>
      if d₁ ≤ 3 then
        (octalDigitAt rest).andThen fun d₂ rest =>
          (octalDigitAt rest).andThen fun d₃ rest => .ok (octalByte d₁ d₂ d₃) rest
      else .fail (.unknownEscape c) rest
    | none, none => .fail (.unknownEscape c) rest

theorem eq_cons_of_byteCharAt {t rest : Text} {c : Char} (h : byteCharAt t = .ok c rest) :
    t = Glyph.char c :: rest := by
  match t with
  | [] => cases h
  | .stray b :: t => cases h
  | .char d :: t =>
    simp only [byteCharAt, Cursor.readAt, Reading.failingWith, Reading.andThen] at h
    split at h
    · cases h
      rfl
    · cases h

/-- Every step of the scanner takes a character of one byte. -/
theorem scan_eq_step (s : Scan) (t : Text) :
    scan s t = (byteCharAt t).andThen fun c rest =>
      match s.stepChar c with
      | .go s => scan s rest
      | .close bytes => .ok bytes rest
      | .refuse e => .fail e rest := by
  cases t with
  | nil => rfl
  | cons g t =>
    cases g with
    | stray b => rfl
    | char c =>
      rw [scan, Scan.step, byteCharAt, Cursor.readAt, Reading.failingWith, Reading.andThen]
      by_cases small : c.toNat ≤ 0xFF
      · cases step : s.stepChar c <;> simp only [if_pos small, step, Reading.andThen]
      · simp only [if_neg small, Reading.andThen]

variable (held : List UInt8) (t : Text)

theorem scan_third_digit_eq (d₁ d₂ : Nat) :
    scan { bytes := held, place := .octal₃ d₁ d₂ } t
      = (octalDigitAt t).andThen fun d₃ rest =>
          scan { bytes := octalByte d₁ d₂ d₃ :: held } rest := by
  rw [scan_eq_step, octalDigitAt, Reading.andThen_assoc]
  congr 1
  funext c rest
  rw [Scan.stepChar]
  cases asciiDigit? c <;> rfl

theorem scan_second_digit_eq (d₁ : Nat) :
    scan { bytes := held, place := .octal₂ d₁ } t
      = (octalDigitAt t).andThen fun d₂ rest =>
          scan { bytes := held, place := .octal₃ d₁ d₂ } rest := by
  rw [scan_eq_step, octalDigitAt, Reading.andThen_assoc]
  congr 1
  funext c rest
  rw [Scan.stepChar]
  cases asciiDigit? c <;> rfl

theorem scan_escape_eq :
    scan { bytes := held, place := .afterBackslash } t
      = (escapeAt t).andThen fun b rest => scan { bytes := b :: held } rest := by
  rw [scan_eq_step, escapeAt, Reading.andThen_assoc]
  congr 1
  funext c rest
  simp only [Scan.stepChar]
  cases namedEscapes.lookup c with
  | some b => rfl
  | none =>
    cases asciiDigit? c with
    | none => rfl
    | some d₁ =>
      by_cases octal : d₁ ≤ 3
      · simp only [if_pos octal, scan_second_digit_eq, scan_third_digit_eq, Reading.andThen_assoc]
        rfl
      · simp only [if_neg octal, Reading.andThen]

/-- The scanner reads a character or an escape, up to the closing quote. -/
theorem scan_eq_andThen :
    scan { bytes := held } t
      = (byteCharAt t).andThen fun c rest =>
          if c = '"' then .ok held.reverse rest
          else if c = '\\' then (escapeAt rest).andThen fun b rest => scan { bytes := b :: held } rest
          else scan { bytes := UInt8.ofNat c.toNat :: held } rest := by
  rw [scan_eq_step]
  congr 1
  funext c rest
  simp only [Scan.stepChar, Scan.push, ← scan_escape_eq]
  by_cases quote : c = '"'
  · simp only [if_pos quote]
  by_cases backslash : c = '\\'
  · simp only [if_neg quote, if_pos backslash]
  · simp only [if_neg quote, if_neg backslash]

end Literal

/-! ## The cursor does the same -/

namespace Cursor

theorem reads_byteChar : byteChar.Reads fun t => some (Literal.byteCharAt t) := by
  refine (reads_next.rethrow Literal.unclosed).andThen fun g => ?_
  cases g with
  | stray b => exact .throw _
  | char c =>
    by_cases small : c.toNat ≤ 0xFF
    · simpa only [if_pos small] using .pure c
    · simpa only [if_neg small] using .throw (.nonByte c)

theorem reads_octalDigit : octalDigit.Reads fun t => some (Literal.octalDigitAt t) := by
  refine reads_byteChar.andThen fun c => ?_
  cases Literal.asciiDigit? c with
  | some d => exact .pure d
  | none => exact .throw _

theorem reads_escape : escape.Reads fun t => some (Literal.escapeAt t) := by
  refine reads_byteChar.andThen fun c => ?_
  cases Literal.namedEscapes.lookup c with
  | some b => exact .pure b
  | none =>
    cases Literal.asciiDigit? c with
    | none => exact .throw _
    | some d₁ =>
      by_cases octal : d₁ ≤ 3
      · simp only [if_pos octal]
        exact reads_octalDigit.andThen fun d₂ => reads_octalDigit.andThen fun d₃ => .pure _
      · simpa only [if_neg octal] using .throw (.unknownEscape c)

/-- Turns for all that is left are enough, since each takes a character. -/
theorem bytes_on {turns : Nat} (held : List UInt8) {c : Cursor} (valid : c.Valid)
    (enough : c.unread.length < turns) :
    (bytes turns held).on c = some (c.ended (Literal.scan { bytes := held } c.unread)) := by
  induction turns generalizing held c with
  | zero => exact absurd enough (Nat.not_lt_zero _)
  | succ turns ih =>
    -- the turns after one that leaves `rest`
    have again (held : List UInt8) {rest : Text} (suffix : rest <:+ c.unread)
        (shorter : rest.length < turns) :
        (bytes turns held).on (c.before rest)
          = some (c.ended (Literal.scan { bytes := held } rest)) := by
      have left := unread_before (suffix.trans c.unread_suffix)
      have later := ih held (c.valid_before rest) (by rwa [left])
      rwa [left] at later
    rw [bytes, CursorM.on_bind, reads_byteChar.on_eq c valid, Literal.scan_eq_andThen]
    cases first : Literal.byteCharAt c.unread with
    | fail e rest => rfl
    | ok char rest =>
      have split := Literal.eq_cons_of_byteCharAt first
      have suffix : rest <:+ c.unread := split ▸ List.suffix_cons _ rest
      have shorter : rest.length < turns := by
        rw [split, List.length_cons] at enough
        omega
      simp only [Option.map_some, ended, Reading.outcome, Reading.rest, Reading.andThen]
      by_cases quote : char = '"'
      · simp only [if_pos quote]
        rfl
      by_cases backslash : char = '\\'
      · simp only [if_neg quote, if_pos backslash]
        rw [CursorM.on_bind, reads_escape.on_eq _ (c.valid_before rest),
          unread_before (suffix.trans c.unread_suffix)]
        cases escaped : Literal.escapeAt rest with
        | fail e rest' => rfl
        | ok b rest' =>
          have suffix' : rest' <:+ rest := reads_escape.suffix rest _ (congrArg some escaped)
          exact again (b :: held) (suffix'.trans suffix)
            (Nat.lt_of_le_of_lt suffix'.length_le shorter)
      · simp only [if_neg quote, if_neg backslash]
        exact again _ suffix shorter

theorem reads_content : content.Reads fun t => some (Literal.scan {} t) where
  suffix t r ended := by
    cases ended
    exact Literal.rest_scan_suffix {} t
  on_eq c valid := by
    rw [content, on_remaining_bind]
    exact bytes_on [] valid (Nat.lt_succ_self _)

/-- With a cursor a literal is read as without. -/
theorem reads_literal : literal.Reads fun t => some (Literal.read t) := by
  have quoted := reads_next.andThen fun _ =>
    reads_content.andThen fun bytes => CursorM.Reads.pure (Utf8.decodeLossy bytes)
  have other := reads_remaining.andThen fun rest =>
    CursorM.Reads.throw (α := String) (.unexpected "\"" rest)
  refine ((reads_peek false).bind fun g => quoted.ite other).congr fun t => ?_
  cases t with
  | nil => rfl
  | cons g t =>
    rw [Literal.read]
    change ite _ _ _ = _
    by_cases quote : g = '"'
    · rw [if_pos quote, if_pos quote, readAt]
      cases read : Literal.scan {} t <;> simp [Reading.andThen, Reading.map, read]
    · rw [if_neg quote, if_neg quote]
      rfl

end Cursor

end GdbMi
