import GdbMi.Text.Display

/-!
# Parse errors

Why a text is not GDB/MI. Every cause carries what its message needs: what was wanted, and the rest
of the text or the glyph where reading stopped. `ParseError.message` is the one place for the words.

`ParseError` is `MIParseError` (`other`) with the errors derived from it: `EndOfInputError`,
`UnexpectedTokenError`, `InvalidEscapeError`, `InvalidOctalError`, `NonByteCharacterError` and
`TrailingInputError`, in this order. No cause stands for a limit on nested calls, which an
interpreter of recursive procedures may have: such a limit is left out of this library.
-/

namespace GdbMi
set_option autoImplicit false

/-- Why reading failed. -/
inductive ParseError where
  /-- A fault described by its caller. -/
  | other (wanted : String) (context : Text)
  /-- The text ended too early. -/
  | ended (wanted : String)
  /-- The rest of the text does not begin with what was wanted. -/
  | unexpected (wanted : String) (rest : Text)
  /-- A backslash is followed by a glyph that names no escape. -/
  | unknownEscape (glyph : Glyph)
  /-- An octal escape goes on with a glyph that is no digit. -/
  | badOctal (glyph : Glyph)
  /-- A literal holds a glyph that is no single byte. -/
  | nonByte (glyph : Glyph)
  /-- Text is left after a complete value. -/
  | trailing (rest : Text)
deriving DecidableEq, Repr

namespace ParseError

/-- What stood wanted where reading stopped. -/
def wanted : ParseError → String
  | other wanted _ => wanted
  | ended wanted => wanted
  | unexpected wanted _ => wanted
  | unknownEscape _ => "escape"
  | badOctal _ => "octal"
  | nonByte _ => "byte"
  | trailing _ => "end of input"

/-- Upper-case hexadecimal name of a code point, of at least four digits. -/
def codePointName (n : Nat) : String := "U+" ++ (hexDigits 4 n).map Char.toUpper

/-- The text that a message shows. -/
def context : ParseError → Text
  | other _ context => context
  | ended _ => []
  | unexpected _ rest => rest
  | unknownEscape g => [g]
  | badOctal g => [g]
  | nonByte g => Text.ofString (codePointName g.code)
  | trailing rest => rest

/-- The offending glyph of an error inside a literal. -/
def glyph? : ParseError → Option Glyph
  | unknownEscape g => some g
  | badOctal g => some g
  | nonByte g => some g
  | _ => none

/-- How many glyphs of the context a message shows. -/
def snippetLength : Nat := 64

/-- The context, cut off and marked as cut if it is long. -/
def snippet (context : Text) : Text :=
  if context.length > snippetLength then context.take snippetLength ++ Text.ofString "..."
  else context

/-- The wording of an error. -/
def message (e : ParseError) : String :=
  "Expected " ++ e.wanted ++ " at " ++ (snippet e.context).display

end ParseError

end GdbMi
