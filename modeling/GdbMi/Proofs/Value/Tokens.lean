import GdbMi.Proofs.Value.Fault

/-!
# Where tokens begin

The reader waits for a token, or it is inside an identifier or a literal, or the value is complete.
Where it waits, the first glyph says which token comes: a quote begins a literal, a glyph of
identifiers an identifier, and any other glyph that is read is a token by itself or spacing
(`begins_step`). Only a glyph inside a literal is ever refused. Spacing changes nothing where the
reader waits, as long as a token follows (`run_between_skipSpacing`).
-/

namespace GdbMi.Reader
set_option autoImplicit false

/-- The reader waits for a token: it is inside none, and the value is not complete. -/
inductive State.Between : State → Prop where
  | value (around : List Frame) : Between (.value around)
  | items (spaced : Bool) (held : List Value) (around : List Frame) :
      Between (.items spaced held around)
  | entries (spaced : Bool) (fence : Fence) (held : List (Key × Value)) (around : List Frame) :
      Between (.entries spaced fence held around)
  | entry (fence : Fence) (held : List (Key × Value)) (around : List Frame) :
      Between (.entry fence held around)
  | equals (fence : Fence) (held : List (Key × Value)) (name : String) (around : List Frame) :
      Between (.equals fence held name around)

/-- The glyph neither begins a literal nor stands in identifiers. -/
def PlainGlyph (g : Glyph) : Prop := g ≠ '"' ∧ g.isIdentifier = false

/-- What the first glyph of a token may do, or spacing before a token. -/
def Step.Begins (st : Step) (g : Glyph) : Prop :=
  match st with
  | .go (.literal scan _) => g = '"' ∧ scan = {}
  | .go (.identifier _ _ name _) => ∃ c, g = Glyph.char c ∧ g.isIdentifier = true ∧ name = [c]
  | .go _ => PlainGlyph g
  | .stop _ => True
  | .mismatch _ => True
  | .refuse _ => False

theorem plainGlyph_of_spacing {g : Glyph} (h : g.isSpacing = true) : PlainGlyph g := by
  simp only [Glyph.isSpacing, Bool.or_eq_true, decide_eq_true_eq] at h
  obtain ((rfl | rfl) | rfl) | rfl := h <;> exact ⟨by decide, rfl⟩

theorem plainGlyph_of_closer {g : Glyph} (h : g = ']' ∨ g = '\x7d') : PlainGlyph g := by
  rcases h with rfl | rfl <;> exact ⟨by decide, rfl⟩

theorem plainGlyph_of_sign {k : Token} {g : Glyph} (h : k.sign? = some g) :
    PlainGlyph g ∧ g.isSpacing = false := by
  cases k <;> cases h <;> exact ⟨⟨by decide, rfl⟩, rfl⟩

/-- A value that is handed on leaves the reader waiting, or it is the whole value. -/
theorem begins_deliver {g : Glyph} (h : PlainGlyph g) (v : Value) (around : List Frame) :
    (Step.go (deliver v around)).Begins g := by
  cases around with
  | nil => exact h
  | cons f around => cases f <;> exact h

theorem begins_close {g : Glyph} (hg : g = ']' ∨ g = '\x7d') (fence : Fence)
    (held : List (Key × Value)) (around : List Frame) : (close g fence held around).Begins g := by
  have plain := plainGlyph_of_closer hg
  fun_induction close g fence held around with
  | case1 held around h => exact begins_deliver plain _ around
  | case2 held around h => trivial
  | case3 fence held hf => trivial
  | case4 fence held items around hf h => exact begins_deliver plain _ around
  | case5 fence held items around hf h => trivial
  | case6 fence held outerFence entries key around hf ih => exact ih

section
variable (fence : Fence) (held : List (Key × Value)) (around : List Frame) (g : Glyph)

theorem begins_stepEquals (name : String) :
    (State.stepEquals fence held name around g).Begins g := by
  unfold State.stepEquals
  split
  · next spacing => exact plainGlyph_of_spacing spacing
  split
  · next sign =>
    subst sign
    exact ⟨by decide, rfl⟩
  · trivial

theorem begins_stepEntry : (State.stepEntry fence held around g).Begins g := by
  unfold State.stepEntry
  split
  · next spacing => exact plainGlyph_of_spacing spacing
  split
  · next brace =>
    subst brace
    exact ⟨by decide, rfl⟩
  split
  · next quote => exact ⟨quote, rfl⟩
  cases g with
  | char c =>
    dsimp only
    split
    · next identifier => exact ⟨c, rfl, identifier, rfl⟩
    · trivial
  | stray b => trivial

theorem begins_stepEntries : (State.stepEntries fence held around g).Begins g := by
  unfold State.stepEntries
  split
  · next spacing => exact plainGlyph_of_spacing spacing
  split
  · next closer => exact begins_close closer fence held around
  split
  · next comma =>
    subst comma
    exact ⟨by decide, rfl⟩
  · exact begins_stepEntry fence held around g

theorem begins_stepValue : (State.stepValue around g).Begins g := by
  unfold State.stepValue
  split
  · next spacing => exact plainGlyph_of_spacing spacing
  split
  · next quote => exact ⟨quote, rfl⟩
  split
  · next bracket =>
    subst bracket
    exact ⟨by decide, rfl⟩
  split
  · next brace =>
    subst brace
    exact ⟨by decide, rfl⟩
  · exact begins_stepEntries .bare [] around g

theorem begins_stepItems (items : List Value) : (State.stepItems items around g).Begins g := by
  unfold State.stepItems
  split
  · next spacing => exact plainGlyph_of_spacing spacing
  split
  · next bracket => exact begins_deliver (plainGlyph_of_closer (.inl bracket)) _ around
  split
  · trivial
  split
  · next comma =>
    subst comma
    exact ⟨by decide, rfl⟩
  · exact begins_stepValue (.list items :: around) g

end

/-- **The first glyph says which token comes.** -/
theorem begins_step {s : State} (h : s.Between) (g : Glyph) : (s.step g).Begins g := by
  cases h with
  | value around => exact begins_stepValue around g
  | items spaced held around => exact begins_stepItems around g held
  | entries spaced fence held around => exact begins_stepEntries fence held around g
  | entry fence held around => exact begins_stepEntry fence held around g
  | equals fence held name around => exact begins_stepEquals fence held around g name

/-- Where the reader waits, it passes over spacing, as long as something follows. -/
theorem run_between_skipSpacing {s : State} (h : s.Between) {t u : Text} {g : Glyph}
    (skip : skipSpacing t = g :: u) : run s t = run s (g :: u) := by
  cases h with
  | value around => rw [run_value_skipSpacing, skip]
  | items spaced held around =>
    rw [run_items_skipSpacing around spaced held skip]
    exact run_cons_congr rfl u
  | entries spaced fence held around =>
    rw [run_entries_skipSpacing fence held around spaced skip]
    exact run_cons_congr rfl u
  | entry fence held around => rw [run_entry_skipSpacing, skip]
  | equals fence held name around => rw [run_equals_skipSpacing, skip]

end GdbMi.Reader
