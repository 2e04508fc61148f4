import GdbMi.Reading.Error

/-!
# Readings

A reading starts at the front of a text and ends with a result or an error; either way it says
which text it left unread. Four glyphs may stand between the tokens of GDB/MI: the spacing, which
`skip_whitespace` skips. `Reading.whole` is the last thing that each function does which reads a
whole text (`check_empty`).
-/

namespace GdbMi
set_option autoImplicit false

/-- Whether the glyph may stand between tokens: a space, a tab or a line end. -/
def Glyph.isSpacing (g : Glyph) : Bool :=
  g = ' ' || g = '\t' || g = '\r' || g = '\n'

/-- The text after its leading spacing. -/
def skipSpacing (t : Text) : Text := t.dropWhile Glyph.isSpacing

theorem skipSpacing_suffix (t : Text) : skipSpacing t <:+ t := List.dropWhile_suffix _

/-- How a reading ended, and the text that it left unread. -/
inductive Reading (α : Type) where
  | ok (a : α) (rest : Text)
  | fail (e : ParseError) (rest : Text)
deriving DecidableEq, Repr

namespace Reading

variable {α β : Type}

/-- The text left unread. -/
def rest : Reading α → Text
  | ok _ rest => rest
  | fail _ rest => rest

/-- The result or the error. -/
def outcome : Reading α → Except ParseError α
  | ok a _ => .ok a
  | fail e _ => .error e

/-- Applies a function to the result. -/
def map (f : α → β) : Reading α → Reading β
  | ok a rest => ok (f a) rest
  | fail e rest => fail e rest

/-- Goes on reading where the first reading succeeded. -/
def andThen (r : Reading α) (next : α → Text → Reading β) : Reading β :=
  match r with
  | ok a rest => next a rest
  | fail e rest => fail e rest

/-- The result of a reading that must leave nothing but spacing. -/
def whole : Reading α → Except ParseError α
  | ok a rest =>
    match skipSpacing rest with
    | [] => .ok a
    | left => .error (.trailing left)
  | fail e _ => .error e

@[simp] theorem rest_map (f : α → β) (r : Reading α) : (r.map f).rest = r.rest := by
  cases r <;> rfl

theorem map_eq_ok_iff {f : α → β} {r : Reading α} {b : β} {rest : Text} :
    r.map f = .ok b rest ↔ ∃ a, r = .ok a rest ∧ f a = b := by
  cases r <;> simp [map, and_left_comm, and_comm]

theorem andThen_assoc {γ : Type} (r : Reading α) (next : α → Text → Reading β)
    (last : β → Text → Reading γ) :
    (r.andThen next).andThen last = r.andThen fun a rest => (next a rest).andThen last := by
  cases r <;> rfl

theorem rest_andThen_suffix {r : Reading α} {next : α → Text → Reading β} {t : Text}
    (h : r.rest <:+ t) (step : ∀ a rest, (next a rest).rest <:+ rest) :
    (r.andThen next).rest <:+ t := by
  cases r with
  | ok a rest => exact (step a rest).trans h
  | fail e rest => exact h

theorem whole_eq_ok_iff {r : Reading α} {a : α} :
    r.whole = .ok a ↔ ∃ rest, r = .ok a rest ∧ skipSpacing rest = [] := by
  cases r with
  | ok b rest =>
    simp only [whole, ok.injEq]
    split
    · next h => exact ⟨fun e => ⟨rest, ⟨Except.ok.inj e, rfl⟩, h⟩, fun ⟨_, ⟨e, _⟩, _⟩ => e ▸ rfl⟩
    · next h => exact ⟨nofun, fun ⟨_, ⟨_, e⟩, hs⟩ => (h (e ▸ hs)).elim⟩
  | fail e rest => simp [whole]

end Reading

end GdbMi
