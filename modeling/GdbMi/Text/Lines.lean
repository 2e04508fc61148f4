import GdbMi.Text.Basic

/-!
# Lines

A line ends at a line feed, at a carriage return, or at the two in this order, and at nothing else:
these are the lines of a stream that `_open_input` has opened, which reads all three as line ends.
`Text.lines` gives the lines without their ends; text after the last end is a line of its own. Main
statement: lines written with a line feed after each are read back (`lines_flatMap_newline`).
-/

namespace GdbMi
set_option autoImplicit false

/-- The lines complete so far and the line under way, the latest first in both. -/
structure LineScan where
  lines : List Text := []
  line : Text := []
  /-- Whether the last glyph was a carriage return, which a line feed still belongs to. -/
  afterReturn : Bool := false

/-- Reads a glyph. -/
def LineScan.step (s : LineScan) (g : Glyph) : LineScan :=
  if g = '\n' then
    if s.afterReturn then { s with afterReturn := false }
    else { lines := s.line.reverse :: s.lines }
  else if g = '\r' then { lines := s.line.reverse :: s.lines, afterReturn := true }
  else { lines := s.lines, line := g :: s.line }

/-- All lines in order. -/
def LineScan.finish (s : LineScan) : List Text :=
  match s.line with
  | [] => s.lines.reverse
  | line => (line.reverse :: s.lines).reverse

/-- The lines of a text, without their ends. -/
def Text.lines (t : Text) : List Text :=
  (t.foldl LineScan.step {}).finish

/-- Whether no line end stands in the text. -/
def Text.Unbroken (t : Text) : Prop := Glyph.char '\n' ∉ t ∧ Glyph.char '\r' ∉ t

namespace LineScan

theorem foldl_step_of_unbroken {l : Text} (h : l.Unbroken) (lines : List Text) (line : Text) :
    l.foldl step { lines, line } = { lines, line := l.reverse ++ line } := by
  induction l generalizing line with
  | nil => rfl
  | cons g l ih =>
    obtain ⟨feed, ret⟩ := h
    simp only [List.mem_cons, not_or] at feed ret
    have first : step { lines, line } g = { lines, line := g :: line } := by
      simp [step, Ne.symm feed.1, Ne.symm ret.1]
    rw [List.foldl_cons, first, ih ⟨feed.2, ret.2⟩]
    simp

/-- A line and the line feed after it are one more line. -/
theorem foldl_step_line {l : Text} (h : l.Unbroken) (lines : List Text) :
    (l ++ [Glyph.char '\n']).foldl step { lines } = { lines := l :: lines } := by
  rw [List.foldl_append, foldl_step_of_unbroken h]
  simp [step]

end LineScan

/-- Lines written with a line feed after each are read back. -/
theorem Text.lines_flatMap_newline {ls : List Text} (h : ∀ l ∈ ls, l.Unbroken) :
    Text.lines (ls.flatMap (· ++ [Glyph.char '\n'])) = ls := by
  have scan (lines : List Text) :
      (ls.flatMap (· ++ [Glyph.char '\n'])).foldl LineScan.step { lines }
        = { lines := ls.reverse ++ lines } := by
    induction ls generalizing lines with
    | nil => rfl
    | cons l ls ih =>
      rw [List.flatMap_cons, List.foldl_append, LineScan.foldl_step_line (h l List.mem_cons_self),
        ih fun l hl => h l (List.mem_cons_of_mem _ hl)]
      simp
  simp only [Text.lines, scan, LineScan.finish]
  simp

end GdbMi
