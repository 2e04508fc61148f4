import Mathlib.Data.List.TakeWhile
import GdbMi.Proofs.Value.Fault

/-!
# How a reading ends

A reading that gives a value has either come to a token that closes the value, or stopped before a
closing bracket or brace, or run out of text in a list or in bare fields (`run_eq_ok_cases`). In the
last case spacing before the end would have been an error.
-/

namespace GdbMi
set_option autoImplicit false

/-- The text is spacing, and there is some. -/
structure IsSpacingRun (w : Text) : Prop where
  nonempty : w ≠ []
  spacing : ∀ g ∈ w, g.isSpacing = true

namespace Reader

/-- After spacing, a state that minds it wants more than the end of the text. -/
theorem run_spacing_of_minds {s : Bool → State}
    (minds : ∀ spaced, ∀ g : Glyph, g.isSpacing = true → (s spaced).step g = .go (s true))
    (due : (s true).atEnd = .error exhausted) (spaced : Bool) {w : Text} (hw : IsSpacingRun w) :
    run (s spaced) w = .fail exhausted [] := by
  cases w with
  | nil => exact absurd rfl hw.nonempty
  | cons g w =>
    obtain ⟨hg, spacing⟩ := List.forall_mem_cons.1 hw.spacing
    have skipped : skipSpacing w = [] := List.dropWhile_eq_nil_iff.2 spacing
    rw [run, minds spaced g hg]
    dsimp only
    rw [run_skipSpacing (minds true), skipped, run, due]

theorem run_items_spacing (spaced : Bool) (held : List Value) (around : List Frame) {w : Text}
    (hw : IsSpacingRun w) : run (.items spaced held around) w = .fail exhausted [] := by
  refine run_spacing_of_minds (s := (.items · held around)) ?_ rfl spaced hw
  intro spaced g hg
  simp [State.step, State.stepItems, hg]

theorem run_entries_spacing (spaced : Bool) (fence : Fence) (held : List (Key × Value))
    (around : List Frame) {w : Text} (hw : IsSpacingRun w) :
    run (.entries spaced fence held around) w = .fail exhausted [] := by
  refine run_spacing_of_minds (s := (.entries · fence held around)) ?_ rfl spaced hw
  intro spaced g hg
  simp [State.step, State.stepEntries, hg]

/-- A state that the end of the text may end is complete, or may not be ended after spacing. -/
theorem run_spacing_of_atEnd {s : State} {v : Value} (h : s.atEnd = .ok v) :
    s = .done v ∨ ∀ w, IsSpacingRun w → run s w = .fail exhausted [] := by
  cases s with
  | done v' =>
    cases h
    exact .inl rfl
  | items spaced held around => exact .inr fun w => run_items_spacing spaced held around
  | entries spaced fence held around =>
    exact .inr fun w => run_entries_spacing spaced fence held around
  | value around => cases h
  | entry fence held around => cases h
  | identifier fence held name around => cases h
  | equals fence held name around => cases h
  | literal scan around => cases h

/-- The value is complete after part of the text, whatever follows. -/
def Closed (s : State) (t : Text) (v : Value) (r : Text) : Prop :=
  ∃ u, t = u ++ r ∧ ∀ z, run s (u ++ z) = .ok v z

/-- The value ends with the text, and not if spacing comes before the end. -/
def EndsWith (s : State) (t : Text) : Prop :=
  ∀ w, IsSpacingRun w → run s (t ++ w) = .fail exhausted []

/-- A value is closed, or stops before a closing bracket or brace, or ends with the text. -/
theorem run_eq_ok_cases {s : State} {t r : Text} {v : Value} (h : run s t = .ok v r) :
    Closed s t v r ∨ (∃ g u, r = g :: u ∧ (g = ']' ∨ g = '\x7d')) ∨ r = [] ∧ EndsWith s t := by
  -- a glyph that is read moves the cases to the next state; they come from the end of the text and
  -- from a glyph that stops the reading
  induction t generalizing s with
  | nil =>
    obtain ⟨ended, rfl⟩ := run_nil_eq_ok_iff.1 h
    rcases run_spacing_of_atEnd ended with rfl | spaced
    · exact .inl ⟨[], rfl, run_done v⟩
    · exact .inr (.inr ⟨rfl, spaced⟩)
  | cons g t ih =>
    rcases run_cons_eq_ok_iff.1 h with ⟨s', step, ran⟩ | ⟨step, rfl⟩
    · have go (u : Text) : run s (g :: u) = run s' u := by simp only [run, step]
      rcases ih ran with ⟨u, rfl, closed⟩ | stopped | ⟨rfl, ends⟩
      · refine .inl ⟨g :: u, rfl, fun z => ?_⟩
        rw [List.cons_append, go, closed]
      · exact .inr (.inl stopped)
      · refine .inr (.inr ⟨rfl, fun w hw => ?_⟩)
        rw [List.cons_append, go, ends w hw]
    · rcases closer_of_step_stop step with rfl | closer
      · exact .inl ⟨[], rfl, run_done v⟩
      · exact .inr (.inl ⟨g, t, rfl, closer⟩)

end Reader

open Reader

/-- What is left where only spacing is left is no closing bracket or brace. -/
theorem not_stopped_of_skipSpacing {r : Text} (hr : skipSpacing r = []) :
    ¬ ∃ g u, r = g :: u ∧ (g = ']' ∨ g = '\x7d') := by
  rintro ⟨g, u, rfl, hg⟩
  rw [skipSpacing_closer hg] at hr
  cases hr

theorem FieldList.read_bare (t : Text) :
    FieldList.read false t
      = (run (.entries false .bare [] []) t).map fun v =>
        { enclosed := false, entries := v.entries } :=
  rfl

/-- Bare fields are the whole text if they are read to the end of the text. -/
theorem FieldList.parse_eq_ok_iff_run {t : Text} {f : FieldList} :
    FieldList.parse t = .ok f ↔
      f.enclosed = false ∧ run (.entries false .bare [] []) t = .ok f.toValue [] := by
  constructor
  · intro h
    obtain ⟨bare, r, derived, left⟩ := FieldList.parse_eq_ok_iff.1 h
    obtain ⟨ended, reads⟩ : Phrase.Reads (.fields f.entries) t r := reads_of_derives derived
    obtain rfl : r = [] := ended.resolve_right (not_stopped_of_skipSpacing left)
    refine ⟨bare, ?_⟩
    rw [reads, run_entries_of_end _ _ (by decide) ended]
    simp [deliver, run_done, Fence.fields, Fence.isEnclosed, toValue, bare]
  · obtain ⟨_, entries⟩ := f
    rintro ⟨rfl, ran⟩
    rw [FieldList.parse, read_bare, ran]
    rfl

end GdbMi
