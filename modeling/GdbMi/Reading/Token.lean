import GdbMi.Reading.Basic

/-!
# Tokens

The punctuation of GDB/MI and its identifiers, which are runs of ASCII letters, digits, hyphens and
underscores: the patterns `COMMA`, `LBRACKET`, `RBRACKET`, `FIELD_ID`, `EQUALS`, `LBRACE` and
`RBRACE`. `Token.match?` cuts a token off the front of a text, and `Token.read` fails if there is
none, as `match` does; `Token.append_of_match?` says that nothing is lost.
-/

namespace GdbMi
set_option autoImplicit false

/-- Whether the glyph may stand in an identifier. -/
def Glyph.isIdentifier : Glyph → Bool
  | .char c => c.isAlphanum || c == '_' || c == '-'
  | .stray _ => false

/-- The tokens that are looked for by kind. -/
inductive Token where
  | comma
  | listOpen
  | listClose
  | identifier
  | equals
  | mapOpen
  | mapClose
deriving DecidableEq, Repr

namespace Token

/-- The token as a regular expression, which messages show. -/
def pattern : Token → String
  | comma => ","
  | listOpen => "\\["
  | listClose => "\\]"
  | identifier => "[0-9A-Za-z_-]+"
  | equals => "="
  | mapOpen => "\\\x7b"
  | mapClose => "\\\x7d"

/-- The glyph of a token that is always the same one. -/
def sign? : Token → Option Glyph
  | comma => some ','
  | listOpen => some '['
  | listClose => some ']'
  | identifier => none
  | equals => some '='
  | mapOpen => some '\x7b'
  | mapClose => some '\x7d'

/-- The token at the front of the text, as long as possible, and the text after it. -/
def match? (k : Token) (t : Text) : Option (Text × Text) :=
  match k.sign?, t with
  | _, [] => none
  | some s, g :: t => if g = s then some ([g], t) else none
  | none, g :: t =>
    if g.isIdentifier then
      some (g :: t.takeWhile Glyph.isIdentifier, t.dropWhile Glyph.isIdentifier)
    else none

/-- Reads the token at the front of the text. -/
def read (k : Token) (t : Text) : Reading Text :=
  match k.match? t with
  | some (lexeme, rest) => .ok lexeme rest
  | none => .fail (.unexpected k.pattern t) t

theorem append_of_match? {k : Token} {t lexeme rest : Text}
    (h : k.match? t = some (lexeme, rest)) : lexeme ++ rest = t ∧ lexeme ≠ [] := by
  simp only [match?] at h
  split at h
  · contradiction
  · split at h
    · cases h; simp
    · contradiction
  · split at h
    · cases h; simp
    · contradiction

/-- A token that is always the same glyph. -/
theorem read_eq_ok_iff_of_sign {k : Token} {sign : Glyph} (hk : k.sign? = some sign)
    {t lexeme rest : Text} : k.read t = .ok lexeme rest ↔ t = sign :: rest ∧ lexeme = [sign] := by
  cases t with
  | nil => simp [read, match?]
  | cons g t =>
    by_cases same : g = sign
    · subst same
      simp [read, match?, hk, eq_comm, and_comm]
    · simp [read, match?, hk, same]

theorem rest_read_suffix (k : Token) (t : Text) : (k.read t).rest <:+ t := by
  simp only [read]
  split
  · next lexeme rest h => exact ⟨lexeme, (append_of_match? h).1⟩
  · exact List.suffix_refl _

end Token

end GdbMi
