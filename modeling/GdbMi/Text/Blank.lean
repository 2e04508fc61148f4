import GdbMi.Text.Basic
import GdbMi.Text.Ranges

/-!
# Blank glyphs

White space of the whole of Unicode: the separators of every kind, the controls from tab to
carriage return, the four information separators and the next-line control. A line of blanks only
is no record (`parse_records`), and a record's class ends at a blank (`RESULT_OR_ASYNC_RECORD`).
`isBlank_of_isWhitespace` says that the white space of ASCII is among them.
-/

namespace GdbMi
set_option autoImplicit false

/-- The code points of white space. -/
def blankRanges : List (Nat × Nat) :=
  [(0x9, 0xD), (0x1C, 0x20), (0x85, 0x85), (0xA0, 0xA0), (0x1680, 0x1680), (0x2000, 0x200A),
   (0x2028, 0x2029), (0x202F, 0x202F), (0x205F, 0x205F), (0x3000, 0x3000)]

/-- Whether the glyph is white space. A stray byte is none. -/
def Glyph.isBlank (g : Glyph) : Bool := covers blankRanges g.code

theorem Glyph.isBlank_of_isWhitespace {c : Char} (h : c.isWhitespace = true) :
    (Glyph.char c).isBlank = true := by
  simp only [Char.isWhitespace, Bool.or_eq_true, decide_eq_true_eq] at h
  obtain ((rfl | rfl) | rfl) | rfl := h <;> rfl

end GdbMi
