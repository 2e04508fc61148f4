import Mathlib.Data.List.Forall2
import GdbMi.Proofs.Value.Shape
import GdbMi.Value.Writer

/-!
# Texts of values and of their parts

A text spells a value if it is read as the value whatever follows it. Texts of entries are joined to
fields (`derives_separated_fields`), and texts that a comma precedes, whether the first one or not,
to fields and to the items of a list (`derives_afterCommas_fields`, `derives_afterCommas_items`).
-/

namespace GdbMi
set_option autoImplicit false

open Reader

/-- What is related to a list belongs to something in the list. -/
theorem exists_mem_of_forall₂ {α β : Type} {R : α → β → Prop} {xs : List α} {ys : List β}
    (h : List.Forall₂ R xs ys) {y : β} (hy : y ∈ ys) : ∃ x ∈ xs, R x y := by
  induction h with
  | nil => cases hy
  | @cons x z xs ys first _ ih =>
    rcases List.mem_cons.1 hy with rfl | hy
    · exact ⟨x, List.mem_cons_self, first⟩
    · obtain ⟨x', hx', related⟩ := ih hy
      exact ⟨x', List.mem_cons_of_mem _ hx', related⟩

/-- Parts with a comma before each. -/
def afterCommas (parts : List Text) : Text := parts.flatMap fun part => Glyph.char ',' :: part

theorem afterCommas_cons_append (part : Text) (parts : List Text) (r : Text) :
    afterCommas (part :: parts) ++ r = Glyph.char ',' :: (part ++ (afterCommas parts ++ r)) := by
  simp [afterCommas]

theorem separated_cons (part : Text) (parts : List Text) :
    separated (part :: parts) = part ++ afterCommas parts := by
  induction parts generalizing part with
  | nil => simp [separated_singleton, afterCommas]
  | cons next parts ih =>
    rw [separated_cons_cons, ih]
    simp [afterCommas]

/-- The text is read as the value, whatever follows it. -/
def Value.SpelledBy (v : Value) (s : Text) : Prop := ∀ r, Derives (.value v) (s ++ r) r

/-- The text is read as the entry, whatever follows it. -/
def EntrySpelledBy (e : Key × Value) (s : Text) : Prop := ∀ r, Derives (.entry e.1 e.2) (s ++ r) r

/-! ## Entries -/

/-- An identifier is cut off after its first character. -/
theorem IsIdentifier.exists_cons {name : String} (h : IsIdentifier name) :
    ∃ c more, name = String.ofList (c :: more) ∧ (Glyph.char c).isIdentifier = true ∧
      ∀ x ∈ more, (Glyph.char x).isIdentifier = true := by
  obtain ⟨nonempty, chars⟩ := h
  cases eq : name.toList with
  | nil => exact absurd (String.toList_eq_nil_iff.1 eq) nonempty
  | cons c more =>
    rw [eq, List.forall_mem_cons] at chars
    exact ⟨c, more, by rw [← eq, String.ofList_toList], chars⟩

/-- An identifier begins with one of its characters. -/
theorem IsIdentifier.exists_head {name : String} (h : IsIdentifier name) :
    ∃ c more, Text.ofString name = Glyph.char c :: more ∧ (Glyph.char c).isIdentifier = true := by
  obtain ⟨c, more, rfl, hc, -⟩ := h.exists_cons
  exact ⟨c, more.map Glyph.char, by rw [Text.ofString_ofList, List.map_cons], hc⟩

theorem IsIdentifier.skipSpacing_eq {name : String} (h : IsIdentifier name) (r : Text) :
    skipSpacing (Text.ofString name ++ r) = Text.ofString name ++ r := by
  obtain ⟨c, more, eq, hc⟩ := h.exists_head
  rw [eq, List.cons_append]
  exact skipSpacing_cons_of_not_spacing (Glyph.not_isSpacing_of_isIdentifier hc) _

/-- An identifier ends where a glyph that is none of its follows it. -/
theorem IsIdentifier.identifierAt {name : String} (h : IsIdentifier name) {g : Glyph}
    (hg : g.isIdentifier = false) (r : Text) :
    IdentifierAt (Text.ofString name ++ g :: r) name (g :: r) := by
  have all : ∀ x ∈ Text.ofString name, x.isIdentifier = true := by
    intro x hx
    obtain ⟨c, hc, rfl⟩ := List.mem_map.1 hx
    exact h.2 c hc
  have other : ∀ x ∈ (g :: r).head?, x.isIdentifier = false := by
    rintro x ⟨⟩
    exact hg
  obtain ⟨taken, left⟩ := span_append all other
  exact ⟨h.1, taken, left⟩

/-- An entry is spelled by its key, if it has one, and the text of its value. -/
theorem Value.SpelledBy.entry {key : Key} {v : Value} {s : Text} (h : v.SpelledBy s)
    (takes : key.Takes v) : EntrySpelledBy (key, v) (entryText key s) := by
  intro r
  have value := h r
  match key, v, takes with
  | .named name, v, identifier =>
    have text : entryText (.named name) s ++ r
        = Text.ofString name ++ Glyph.char '=' :: (s ++ r) := by
      simp [entryText]
    have at_sign := IsIdentifier.identifierAt identifier (g := Glyph.char '=') rfl (s ++ r)
    rw [text]
    exact .named (by rwa [IsIdentifier.skipSpacing_eq identifier]) rfl value
  | .unnamed, .fields true entries, _ =>
    cases value with
    | map hm => exact .unnamed hm
  | .bare, .text x, _ =>
    cases value with
    | literal hl => exact .bareString hl

/-! ## Joined parts -/

theorem derives_fields_nil {r : Text} (h : FieldsEnd r) : Derives (.fields []) r r := by
  rcases h with rfl | ⟨g, u, rfl, hg⟩
  · exact .fieldsEnded
  · exact .fieldsClosed (skipSpacing_closer hg u) hg

/-- Items with a comma before each. -/
theorem derives_afterCommas_items {items : List Value} {parts : List Text}
    (h : List.Forall₂ Value.SpelledBy items parts) (r : Text) :
    Derives (.items items) (afterCommas parts ++ Glyph.char ']' :: r) r := by
  induction h with
  | nil => exact .itemsClosed rfl
  | cons first _ ih =>
    rw [afterCommas_cons_append]
    exact .itemAfterComma rfl (first _) ih

/-- Entries with a comma before each. -/
theorem derives_afterCommas_fields {entries : List (Key × Value)} {parts : List Text}
    (h : List.Forall₂ EntrySpelledBy entries parts) {r : Text} (hr : FieldsEnd r) :
    Derives (.fields entries) (afterCommas parts ++ r) r := by
  induction h with
  | nil => exact derives_fields_nil hr
  | cons first _ ih =>
    rw [afterCommas_cons_append]
    exact .field (.present rfl) (first _) ih

/-- Entries with commas between them. -/
theorem derives_separated_fields {entries : List (Key × Value)} {parts : List Text}
    (h : List.Forall₂ EntrySpelledBy entries parts) {r : Text} (hr : FieldsEnd r) :
    Derives (.fields entries) (separated parts ++ r) r := by
  cases h with
  | nil => exact derives_fields_nil hr
  | cons first rest =>
    rw [separated_cons, List.append_assoc]
    exact .field (.absent _) (first _) (derives_afterCommas_fields rest hr)

end GdbMi
