import GdbMi.Reading.Token

/-!
# A cursor over a text

A cursor has the whole text and the position of the next unread glyph, and what is read moves it. A
failure leaves the cursor where it stands by then, so reading may go on from there. What has a bound
on its turns or calls gives nothing at all once the bound is reached.

The methods of a cursor are here `remaining`, `hasRemaining` (`has_remaining`), `skipSpacing`
(`skip_whitespace`), `peek`, `next` (`next_char`), `token` (`match`) and `checkEnd` (`check_empty`).
-/

namespace GdbMi
set_option autoImplicit false

/-- A text and the position of its next unread glyph. -/
structure Cursor where
  text : Text
  position : Nat := 0
deriving DecidableEq

/-- What is done with a cursor. -/
abbrev CursorM := ExceptT ParseError (StateT Cursor Option)

/-- What becomes of the cursor: an outcome and where the cursor stands then, or nothing. -/
def CursorM.on {α : Type} (m : CursorM α) (c : Cursor) : Option (Except ParseError α × Cursor) :=
  m.run.run c

namespace Cursor

/-- The next unread glyph. -/
def glyph? (c : Cursor) : Option Glyph := c.text[c.position]?

/-- The unread part of the text. -/
def unread (c : Cursor) : Text := c.text.drop c.position

/-- The cursor so many glyphs further on. -/
def forward (c : Cursor) (n : Nat) : Cursor := { c with position := c.position + n }

/-- The cursor behind the spacing that it stands at. -/
def behindSpacing (c : Cursor) : Cursor :=
  if h : c.position < c.text.length then
    if c.text[c.position].isSpacing then (c.forward 1).behindSpacing else c
  else c
termination_by c.text.length - c.position
decreasing_by
  simp only [forward]
  omega

/-- Looks at all that is left. -/
def remaining : CursorM Text := return (← get).unread

/-- Looks whether anything is left. -/
def hasRemaining : CursorM Bool := do
  let c ← get
  return c.position < c.text.length

def skipSpacing : CursorM Unit := modify behindSpacing

/-- Skips spacing if it is to be skipped. -/
def skipIf (skipping : Bool) : CursorM Unit := if skipping then skipSpacing else pure ()

/-- Looks at the next glyph. -/
def look : CursorM Glyph := do
  match (← get).glyph? with
  | some g => return g
  | none => throw (.ended "more input")

/-- Reads any glyph. -/
def next : CursorM Glyph := do
  let g ← look
  modify fun c => c.forward 1
  return g

/-- Reads a token, as long as possible. -/
def lexeme (k : Token) : CursorM Text := do
  let rest ← remaining
  match k.match? rest with
  | some (lexeme, _) =>
    modify fun c => c.forward lexeme.length
    return lexeme
  | none => throw (.unexpected k.pattern rest)

def peek (skipping : Bool) : CursorM Glyph := do
  skipIf skipping
  look

def token (k : Token) (skipping : Bool) : CursorM Text := do
  skipIf skipping
  lexeme k

/-- Makes sure that nothing is left. -/
def checkEnd (skipping : Bool) : CursorM Unit := do
  skipIf skipping
  if ← hasRemaining then
    let rest ← remaining
    throw (.trailing rest)

end Cursor

end GdbMi
