import GdbMi.Record.Basic
import GdbMi.Text.Blank
import GdbMi.Text.Digit
import GdbMi.Value.Reader

/-!
# Reading records

A line without its end is classified by its first glyphs: the prompt, then a result or asynchronous
record with its head, then a stream record, and program output otherwise. A head is a token of
digits of any script, a sigil, a class without commas and blanks, and after a comma the body.
`Record.read` fails on a token that is too long and on a body that does not parse, in this order.

`Record.read` is `parse_record`, `Record.head?` is the pattern `RESULT_OR_ASYNC_RECORD`, and
`Record.stream?` is `STREAM_RECORD`. What is a prompt is decided by `response_is_finished` of
pygdbmi; `Record.isPrompt` is assumed to be that test.
-/

namespace GdbMi
set_option autoImplicit false

/-- Why a line is no record. -/
inductive RecordError where
  | malformed (e : ParseError)
  /-- The token has more digits than are allowed. -/
  | longToken (digits : Nat)
deriving DecidableEq, Repr

/-- How many digits a token may have, leading zeros counted. `parse_record` sets no bound itself:
this is the limit that its interpreter has by default on the digits of a numeral that is converted
to an integer. Told another limit, it refuses other tokens; told none, it refuses none. -/
def maxTokenDigits : Nat := 4300

/-- The wording of an error. -/
def RecordError.message : RecordError → String
  | malformed e => e.message
  | longToken digits =>
    "Exceeds the limit (" ++ toString maxTokenDigits ++ " digits) for integer string conversion: "
      ++ "value has " ++ toString digits
      ++ " digits; use sys.set_int_max_str_digits() to increase the limit"

/-- Whether the glyph belongs to a line end. -/
def Glyph.isLineEnd (g : Glyph) : Bool := g = '\r' || g = '\n'

/-- The line without the line ends at its back. -/
def chomp (line : Text) : Text := (line.reverse.dropWhile Glyph.isLineEnd).reverse

namespace Record

/-- The prompt. -/
def promptText : Text := Text.ofString "(gdb)"

/-- Whether the line is the prompt with nothing but blanks after it. This stands for
`response_is_finished` of pygdbmi, a package of its own, which `parse_record` calls: that it is
exactly this test is an assumption, and all that is said of prompts rests on it. -/
def isPrompt (line : Text) : Bool :=
  match promptText.isPrefixOf? line with
  | some rest => rest.all Glyph.isBlank
  | none => false

/-- A result or asynchronous record before its parts are converted. -/
structure Head where
  digits : Text
  kind : Kind
  recordClass : Text
  body : Option Text

/-- Whether the glyph may stand in a class. -/
def inClass (g : Glyph) : Bool := g != ',' && !g.isBlank

/-- The text after a class: nothing, or a comma and the body. -/
def body? : Text → Option (Option Text)
  | [] => some none
  | g :: body => if g = ',' then some (some body) else none

/-- The kind that a sigil at the front of the text gives to a result or asynchronous record, and
the text after it. -/
def sigil? : Text → Option (Kind × Text)
  | [] => none
  | g :: rest => do
    let kind ← Kind.ofSigil? g
    if kind.isStream then none else some (kind, rest)

/-- The head of a result or asynchronous record, as `RESULT_OR_ASYNC_RECORD` matches it. -/
def head? (line : Text) : Option Head := do
  let (kind, rest) ← sigil? (line.dropWhile Glyph.isDigit)
  let recordClass := rest.takeWhile inClass
  let body ← body? (rest.dropWhile inClass)
  if recordClass.isEmpty then none
  else some { digits := line.takeWhile Glyph.isDigit, kind, recordClass, body }

/-- The kind and the literal of a stream record, as `STREAM_RECORD` matches it. -/
def stream? : Text → Option (Kind × Text)
  | g :: q :: rest => do
    let kind ← Kind.ofSigil? g
    if kind.isStream ∧ q = '"' then some (kind, q :: rest) else none
  | _ => none

/-- The number of a token, if it has digits. -/
def token? (digits : Text) : Except RecordError (Option Int) :=
  if digits.isEmpty then .ok none
  else if maxTokenDigits < digits.length then .error (.longToken digits.length)
  else .ok (some (decimalValue digits))

/-- The fields of a body. -/
def fields? : Option Text → Except RecordError (Content FieldList)
  | none => .ok .absent
  | some body => (FieldList.parse body).mapError .malformed |>.map .data

/-- Converts the parts of a head. -/
def ofHead (h : Head) : Except RecordError Record := do
  let token ← token? h.digits
  let payload ← fields? h.body
  return { kind := h.kind, recordClass := some h.recordClass, token, payload }

/-- Reads a line, which may have line ends at its back, as `parse_record` does. -/
def read (line : Text) : Except RecordError Record :=
  let line := chomp line
  if isPrompt line then .ok { kind := .prompt }
  else match head? line with
    | some h => ofHead h
    | none =>
      match stream? line with
      | some (kind, literal) =>
        (Literal.parse literal).mapError .malformed |>.map fun s =>
          { kind, payload := .text (Text.ofString s) }
      | none => .ok { kind := .output, payload := .text line }

end Record

end GdbMi
