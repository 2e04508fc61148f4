import GdbMi.Text.Basic

/-!
# Decimal digits

The decimal digits of every script stand in runs of ten code points, from zero to nine, so a table
of the zeros is enough. It is the table of Unicode 14, like that of the printable glyphs; the digits
of scripts that came later are none here. `digit?_lt` bounds the value of a digit, and
`decimalValue` reads a numeral whose digits may come from any script.
-/

namespace GdbMi
set_option autoImplicit false

/-- The code points of the digit zero in every script. -/
def decimalZeros : List Nat :=
  [0x30, 0x660, 0x6F0, 0x7C0, 0x966, 0x9E6, 0xA66, 0xAE6, 0xB66, 0xBE6, 0xC66, 0xCE6, 0xD66, 0xDE6,
   0xE50, 0xED0, 0xF20, 0x1040, 0x1090, 0x17E0, 0x1810, 0x1946, 0x19D0, 0x1A80, 0x1A90, 0x1B50,
   0x1BB0, 0x1C40, 0x1C50, 0xA620, 0xA8D0, 0xA900, 0xA9D0, 0xA9F0, 0xAA50, 0xABF0, 0xFF10, 0x104A0,
   0x10D30, 0x11066, 0x110F0, 0x11136, 0x111D0, 0x112F0, 0x11450, 0x114D0, 0x11650, 0x116C0,
   0x11730, 0x118E0, 0x11950, 0x11C50, 0x11D50, 0x11DA0, 0x16A60, 0x16AC0, 0x16B50, 0x1D7CE,
   0x1D7D8, 0x1D7E2, 0x1D7EC, 0x1D7F6, 0x1E140, 0x1E2F0, 0x1E950, 0x1FBF0]

/-- The value of a decimal digit of any script. -/
def Glyph.digit? (g : Glyph) : Option Nat :=
  (decimalZeros.find? fun z => decide (z ≤ g.code) && decide (g.code < z + 10)).map (g.code - ·)

/-- Whether the glyph is a decimal digit of some script. -/
def Glyph.isDigit (g : Glyph) : Bool := g.digit?.isSome

theorem Glyph.digit?_lt {g : Glyph} {d : Nat} (h : g.digit? = some d) : d < 10 := by
  obtain ⟨z, hz, rfl⟩ := Option.map_eq_some_iff.1 h
  have := List.find?_some hz
  simp only [Bool.and_eq_true, decide_eq_true_eq] at this
  omega

/-- The number that a run of decimal digits denotes. -/
def decimalValue (digits : Text) : Nat :=
  digits.foldl (fun n g => 10 * n + g.digit?.getD 0) 0

theorem decimalValue_snoc (digits : Text) (g : Glyph) :
    decimalValue (digits ++ [g]) = 10 * decimalValue digits + g.digit?.getD 0 := by
  simp [decimalValue, List.foldl_append]

end GdbMi
