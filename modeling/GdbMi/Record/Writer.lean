import GdbMi.Record.Reader
import GdbMi.Value.Writer

/-!
# Writing records

The line of a record: the prompt, program output as it is, a stream's sigil and literal, or token,
sigil, class and fields. A part that is required and missing is written as `None`. `Record.render`
is `format_record`.
-/

namespace GdbMi
set_option autoImplicit false

/-- How a missing part is written. -/
def missingText : Text := Text.ofString "None"

/-- Text in place of a line: text as it is, and data as messages show it. -/
def Content.shown : Content FieldList → Text
  | absent => missingText
  | text t => t
  | data f => Text.ofString f.display

namespace Record

/-- The line of a record before its fields, with the given sigil. -/
def headText (r : Record) (sigil : Char) : Text :=
  Text.ofString ((r.token.map toString).getD "")
    ++ Glyph.char sigil :: r.recordClass.getD missingText

/-- The line of a record. -/
def render (r : Record) : Except RenderError Text :=
  match r.kind.sigil?, r.payload with
  | none, payload => .ok (if r.kind = .prompt then promptText else payload.shown)
  | some sigil, .text t => .ok (Glyph.char sigil :: Literal.quote t)
  | some sigil, .absent => .ok (r.headText sigil)
  | some sigil, .data f => do return r.headText sigil ++ Glyph.char ',' :: (← f.render)

end Record

end GdbMi
