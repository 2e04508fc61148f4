import GdbMi.Literal.RoundTrip
import GdbMi.Proofs.Value.Spelling

/-!
# The values that are read

The shape of values that are read is exact: every value of the shape has a text
(`Value.exists_spelledBy`). Commas are what makes this so. One may stand before the first item of a
list and before the first entry of fields, so parts are put after commas throughout; and where a
value is due a comma begins bare fields, even if they have no entries or start with one without an
identifier. A bare field list is thus written as the only item of a list, behind a comma that the
list takes: `[,]` is the empty one.
-/

namespace GdbMi
set_option autoImplicit false

open Reader

theorem exists_forall₂ {α β : Type} {R : α → β → Prop} {xs : List α} (h : ∀ x ∈ xs, ∃ y, R x y) :
    ∃ ys, List.Forall₂ R xs ys := by
  induction xs with
  | nil => exact ⟨[], .nil⟩
  | cons x xs ih =>
    rw [List.forall_mem_cons] at h
    obtain ⟨y, first⟩ := h.1
    obtain ⟨ys, rest⟩ := ih h.2
    exact ⟨y :: ys, .cons first rest⟩

/-- Items after commas in brackets are a list, unless their only one is a bare field list. -/
theorem spelledBy_list {items : List Value} (hne : ∀ entries, items ≠ [.fields false entries])
    {parts : List Text} (h : List.Forall₂ Value.SpelledBy items parts) :
    (Value.list items).SpelledBy (Glyph.char '[' :: (afterCommas parts ++ [Glyph.char ']'])) := by
  intro r
  rw [List.cons_append, List.append_assoc]
  exact .list rfl (derives_afterCommas_items h r) hne

/-- Entries after commas in braces are a map. -/
theorem spelledBy_map {entries : List (Key × Value)} {parts : List Text}
    (h : List.Forall₂ EntrySpelledBy entries parts) :
    (Value.fields true entries).SpelledBy
      (Glyph.char '\x7b' :: (afterCommas parts ++ [Glyph.char '\x7d'])) := by
  intro r
  rw [List.cons_append, List.append_assoc]
  have ended : FieldsEnd (Glyph.char '\x7d' :: r) := .inr ⟨_, _, rfl, .inr rfl⟩
  exact .map (.braces rfl (derives_afterCommas_fields h ended))

/-- Entries after commas, all of them after one more comma in brackets, are a bare field list. -/
theorem spelledBy_bare {entries : List (Key × Value)} {parts : List Text}
    (h : List.Forall₂ EntrySpelledBy entries parts) :
    (Value.fields false entries).SpelledBy
      (Glyph.char '[' :: Glyph.char ',' :: (afterCommas parts ++ [Glyph.char ']'])) := by
  intro r
  rw [List.cons_append, List.cons_append, List.append_assoc]
  have ended : FieldsEnd (Glyph.char ']' :: r) := .inr ⟨_, _, rfl, .inl rfl⟩
  have fields := derives_afterCommas_fields h ended
  have value : Derives (.value (.fields false entries)) (afterCommas parts ++ Glyph.char ']' :: r)
      (Glyph.char ']' :: r) := by
    cases parts with
    | nil => exact .bare rfl (by decide) (by decide) (by decide) fields
    | cons part parts =>
      rw [afterCommas_cons_append] at fields ⊢
      exact .bare rfl (by decide) (by decide) (by decide) fields
  exact .unwrapped rfl (.itemAfterComma rfl value (.itemsClosed rfl))

/-- Every value of the shape has a text. -/
theorem Value.exists_spelledBy {v : Value} (h : v.Shaped) : ∃ s, v.SpelledBy s := by
  induction h with
  | text x =>
    refine ⟨Literal.quote (Text.ofString x), ?_⟩
    intro r
    apply Derives.literal
    exact Literal.read_quote_append x r
  | list hne _ ih =>
    obtain ⟨parts, items⟩ := exists_forall₂ ih
    exact ⟨_, spelledBy_list hne items⟩
  | @fields enclosed entries takes _ ih =>
    have each : ∀ e ∈ entries, ∃ s, EntrySpelledBy e s := by
      intro e he
      obtain ⟨s, spelled⟩ := ih e he
      exact ⟨entryText e.1 s, spelled.entry (takes e he)⟩
    obtain ⟨parts, spelled⟩ := exists_forall₂ each
    cases enclosed with
    | true => exact ⟨_, spelledBy_map spelled⟩
    | false => exact ⟨_, spelledBy_bare spelled⟩

/-- **The values that are read** are those of the shape: at every depth no list holds a bare field
list as its only item, and keys are identifiers, or there is none before a map or a string. -/
theorem exists_parse_iff_shaped (v : Value) : (∃ t, Value.parse t = .ok v) ↔ v.Shaped := by
  constructor
  · rintro ⟨t, parsed⟩
    exact Value.shaped_of_parse parsed
  · intro h
    obtain ⟨s, spelled⟩ := Value.exists_spelledBy h
    refine ⟨s, Value.parse_eq_ok_iff.2 ⟨[], ?_, rfl⟩⟩
    have whole := spelled []
    rwa [List.append_nil] at whole

-- bare field lists inside of each other, an empty one and one that starts without an identifier
example : Value.parse (Text.ofString "[,,\"s\",k=[,]]")
    = .ok (.fields false [(.bare, .text "s"), (.named "k", .fields false [])]) := rfl

end GdbMi
