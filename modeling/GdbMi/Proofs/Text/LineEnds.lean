import GdbMi.Proofs.Text.Utf8
import GdbMi.Text.Lines

/-!
# Kinds of line ends

Lines may be ended by a line feed, a carriage return, or the two in this order, each by its own
kind, and the last one by none (`Terminated`). A carriage return and the line feed of an empty line
behind it are read as one line end, so the text has a line less then. But only empty lines are lost
in this way (`lines_of_terminated`). The bytes of line ends are ASCII, so all this can be said of
bytes too (`terminated_decode`).
-/

namespace GdbMi
set_option autoImplicit false

/-- What may end a line. -/
inductive LineEnd where
  | feed
  | ret
  /-- A carriage return and a line feed. -/
  | both

namespace LineEnd

/-- The glyphs of a line end. -/
def glyphs : LineEnd → Text
  | feed => [Glyph.char '\n']
  | ret => [Glyph.char '\r']
  | both => [Glyph.char '\r', Glyph.char '\n']

/-- The bytes of a line end. -/
def bytes : LineEnd → List UInt8
  | feed => [0x0A]
  | ret => [0x0D]
  | both => [0x0D, 0x0A]

end LineEnd

/-- The lines, each with an end of some kind; the last one may have none. -/
inductive Terminated {α : Type} (ends : LineEnd → List α) : List (List α) → List α → Prop where
  | nil : Terminated ends [] []
  | last (line : List α) : Terminated ends [line] line
  | line (line : List α) (e : LineEnd) {lines : List (List α)} {t : List α} :
      Terminated ends lines t → Terminated ends (line :: lines) (line ++ ends e ++ t)

/-- No byte of a line end is among the bytes. -/
def UnbrokenBytes (line : List UInt8) : Prop := (0x0A : UInt8) ∉ line ∧ (0x0D : UInt8) ∉ line

/-! ## Bytes -/

theorem UnbrokenBytes.decode {line : List UInt8} (h : UnbrokenBytes line) :
    (Utf8.decode line).Unbroken := by
  constructor
  · exact Utf8.char_notMem_decode (b := 0x0A) (by decide) (by decide) h.1
  · exact Utf8.char_notMem_decode (b := 0x0D) (by decide) (by decide) h.2

theorem decode_append_end (line : List UInt8) (e : LineEnd) (t : List UInt8) :
    Utf8.decode (line ++ e.bytes ++ t) = Utf8.decode line ++ e.glyphs ++ Utf8.decode t := by
  have feed (line t : List UInt8) :
      Utf8.decode (line ++ 0x0A :: t) = Utf8.decode line ++ Glyph.char '\n' :: Utf8.decode t :=
    Utf8.decode_append_ascii line (by decide) t
  have ret (line t : List UInt8) :
      Utf8.decode (line ++ 0x0D :: t) = Utf8.decode line ++ Glyph.char '\r' :: Utf8.decode t :=
    Utf8.decode_append_ascii line (by decide) t
  rw [List.append_assoc, List.append_assoc]
  cases e with
  | feed => exact feed line t
  | ret => exact ret line t
  | both =>
    have second : Utf8.decode (0x0A :: t) = Glyph.char '\n' :: Utf8.decode t := feed [] t
    have first : Utf8.decode (line ++ 0x0D :: 0x0A :: t)
        = Utf8.decode line ++ Glyph.char '\r' :: Utf8.decode (0x0A :: t) := ret line (0x0A :: t)
    rw [second] at first
    exact first

/-- Decoded lines are ended as their bytes are. -/
theorem terminated_decode {lines : List (List UInt8)} {t : List UInt8}
    (h : Terminated LineEnd.bytes lines t) :
    Terminated LineEnd.glyphs (lines.map Utf8.decode) (Utf8.decode t) := by
  induction h with
  | nil => exact .nil
  | last line => exact .last _
  | line line e _ ih =>
    rw [decode_append_end]
    exact .line _ e ih

/-! ## Lines -/

namespace LineScan

/-- In a line the scan forgets that a carriage return was the last glyph before it. -/
theorem foldl_step_from_start {l : Text} (h : l.Unbroken) (lines : List Text) (afterReturn : Bool) :
    l.foldl step { lines, afterReturn }
      = { lines, line := l.reverse, afterReturn := afterReturn && l.isEmpty } := by
  cases l with
  | nil => simp
  | cons g l =>
    obtain ⟨feed, ret⟩ := h
    simp only [List.mem_cons, not_or] at feed ret
    have first : step { lines, afterReturn } g = { lines, line := [g] } := by
      simp [step, Ne.symm feed.1, Ne.symm ret.1]
    rw [List.foldl_cons, first, foldl_step_of_unbroken ⟨feed.2, ret.2⟩]
    simp

/-- A line and its end are one more line. Only an empty line may be lost, whose line feed belongs to
a carriage return before it. -/
theorem exists_foldl_step_end {p : Text → Bool} (empty : p [] = false) {l : Text}
    (h : l.Unbroken) (e : LineEnd) (lines : List Text) (afterReturn : Bool) :
    ∃ lines' afterReturn', (l ++ e.glyphs).foldl step { lines, afterReturn }
        = { lines := lines', afterReturn := afterReturn' } ∧
      lines'.filter p = (l :: lines).filter p := by
  rw [List.foldl_append, foldl_step_from_start h]
  cases e with
  | feed =>
    cases merged : afterReturn && l.isEmpty with
    | true =>
      rw [Bool.and_eq_true, List.isEmpty_iff] at merged
      obtain ⟨rfl, rfl⟩ := merged
      exact ⟨lines, false, rfl, by rw [List.filter_cons_of_neg (by simp [empty])]⟩
    | false => exact ⟨l :: lines, false, by simp [LineEnd.glyphs, step], rfl⟩
  | ret => exact ⟨l :: lines, true, by simp [LineEnd.glyphs, step], rfl⟩
  | both => exact ⟨l :: lines, false, by simp [LineEnd.glyphs, step], rfl⟩

theorem finish_of_terminated {p : Text → Bool} (empty : p [] = false) {ls : List Text} {t : Text}
    (h : Terminated LineEnd.glyphs ls t) (unbroken : ∀ l ∈ ls, l.Unbroken) (lines : List Text)
    (afterReturn : Bool) :
    (t.foldl step { lines, afterReturn }).finish.filter p
      = lines.reverse.filter p ++ ls.filter p := by
  induction h generalizing lines afterReturn with
  | nil => simp [finish]
  | last l =>
    rw [foldl_step_from_start (unbroken l List.mem_cons_self), ← List.filter_append]
    cases l with
    | nil => simp [finish, empty]
    | cons g l => simp [finish]
  | line l e _ ih =>
    rw [List.forall_mem_cons] at unbroken
    obtain ⟨lines', afterReturn', scanned, same⟩ :=
      exists_foldl_step_end empty unbroken.1 e lines afterReturn
    rw [List.foldl_append, scanned, ih unbroken.2, List.filter_reverse, same, ← List.filter_reverse,
      List.reverse_cons, List.filter_append, List.append_assoc, ← List.filter_append]
    rfl

end LineScan

/-- The lines of a text are those that were ended by line ends of any kinds, up to empty lines. -/
theorem lines_of_terminated {p : Text → Bool} (empty : p [] = false) {ls : List Text} {t : Text}
    (h : Terminated LineEnd.glyphs ls t) (unbroken : ∀ l ∈ ls, l.Unbroken) :
    t.lines.filter p = ls.filter p :=
  LineScan.finish_of_terminated empty h unbroken [] false

end GdbMi
