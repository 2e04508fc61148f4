import GdbMi.Text.Printable

/-!
# Quoted display

How messages show a text, as `MIParseError` does its context: in quotes, with everything unprintable
escaped, so that a display is one line of printable characters. Apostrophes are the quotes, unless
the text holds one and no double quote.
-/

namespace GdbMi
set_option autoImplicit false

/-- Hexadecimal digits of `n`, padded with zeros to `width`. -/
def hexDigits (width n : Nat) : String :=
  let digits := Nat.toDigits 16 n
  String.ofList (List.replicate (width - digits.length) '0' ++ digits)

/-- The shortest of the three escapes by code point that holds `n`. -/
def codeEscape (n : Nat) : String :=
  if n < 0x100 then "\\x" ++ hexDigits 2 n
  else if n < 0x10000 then "\\u" ++ hexDigits 4 n
  else "\\U" ++ hexDigits 8 n

/-- A glyph between the given quotes. -/
def Glyph.display (quote : Char) (g : Glyph) : String :=
  match g with
  | .char '\\' => "\\\\"
  | .char '\n' => "\\n"
  | .char '\r' => "\\r"
  | .char '\t' => "\\t"
  | .char c =>
    if c = quote then "\\" ++ c.toString
    else if g.isPrintable then c.toString
    else codeEscape g.code
  | .stray _ => codeEscape g.code

/-- The quotes that a text is displayed in. -/
def Text.displayQuote (t : Text) : Char :=
  if t.contains (Glyph.char '\'') && !t.contains (Glyph.char '"') then '"' else '\''

/-- A text in quotes, with unprintable glyphs escaped. -/
def Text.display (t : Text) : String :=
  let quote := t.displayQuote
  quote.toString ++ String.join (t.map (Glyph.display quote)) ++ quote.toString

/-- A string in quotes, with unprintable characters escaped. -/
def displayString (s : String) : String := (Text.ofString s).display

/-- A text as the error output shows it: characters as they are, stray bytes as escapes. -/
def Text.escaped (t : Text) : String :=
  String.join (t.map fun
    | .char c => c.toString
    | g => codeEscape g.code)

end GdbMi
