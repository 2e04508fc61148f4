import GdbMi.Text.Lines

/-!
# What lines hold

The lines of a text hold glyphs of the text and no others (`Text.mem_of_mem_lines`), and no line end
is among them (`Text.unbroken_of_mem_lines`). Both are one fact about the scan: of what it reads, it
keeps everything but line ends.
-/

namespace GdbMi
set_option autoImplicit false

/-- Every glyph that the scan holds, in a complete line or in the line under way, is of the kind. -/
structure LineScan.Holds (P : Glyph → Prop) (s : LineScan) : Prop where
  lines : ∀ l ∈ s.lines, ∀ g ∈ l, P g
  line : ∀ g ∈ s.line, P g

namespace LineScan.Holds

variable {P : Glyph → Prop} {s : LineScan}

/-- The line under way, complete. -/
theorem lines_end (h : s.Holds P) : ∀ l ∈ s.line.reverse :: s.lines, ∀ g ∈ l, P g := by
  rw [List.forall_mem_cons]
  refine ⟨?_, h.lines⟩
  intro g hg
  exact h.line g (List.mem_reverse.1 hg)

theorem step (h : s.Holds P) {g : Glyph} (hg : g ≠ '\n' → g ≠ '\r' → P g) :
    (s.step g).Holds P := by
  unfold LineScan.step
  split
  · split
    · exact ⟨h.lines, h.line⟩
    · exact ⟨h.lines_end, nofun⟩
  · next feed =>
    split
    · exact ⟨h.lines_end, nofun⟩
    · next ret => exact ⟨h.lines, List.forall_mem_cons.2 ⟨hg feed ret, h.line⟩⟩

theorem foldl (h : s.Holds P) {t : Text} (ht : ∀ g ∈ t, g ≠ '\n' → g ≠ '\r' → P g) :
    (t.foldl LineScan.step s).Holds P := by
  induction t generalizing s with
  | nil => exact h
  | cons g t ih =>
    rw [List.forall_mem_cons] at ht
    exact ih (h.step ht.1) ht.2

theorem finish (h : s.Holds P) : ∀ l ∈ s.finish, ∀ g ∈ l, P g := by
  unfold LineScan.finish
  intro l hl
  split at hl
  · exact h.lines l (List.mem_reverse.1 hl)
  · exact h.lines_end l (List.mem_reverse.1 hl)

end LineScan.Holds

namespace Text

/-- A property of all glyphs of a text but its line ends is one of all glyphs of its lines. -/
theorem forall_mem_lines {P : Glyph → Prop} {t : Text}
    (h : ∀ g ∈ t, g ≠ '\n' → g ≠ '\r' → P g) : ∀ l ∈ t.lines, ∀ g ∈ l, P g :=
  have empty : LineScan.Holds P {} := ⟨nofun, nofun⟩
  (empty.foldl h).finish

theorem mem_of_mem_lines {t l : Text} (h : l ∈ t.lines) {g : Glyph} (hg : g ∈ l) : g ∈ t :=
  forall_mem_lines (P := (· ∈ t)) (fun _ hx _ _ => hx) l h g hg

theorem unbroken_of_mem_lines {t l : Text} (h : l ∈ t.lines) : l.Unbroken := by
  have kept := forall_mem_lines (t := t) (P := fun g => g ≠ '\n' ∧ g ≠ '\r')
    (fun _ _ feed ret => ⟨feed, ret⟩) l h
  exact ⟨fun feed => (kept _ feed).1 rfl, fun ret => (kept _ ret).2 rfl⟩

end Text

end GdbMi
