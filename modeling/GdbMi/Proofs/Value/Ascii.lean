import GdbMi.Proofs.Literal.Canonical
import GdbMi.Proofs.Value.RoundTrip

/-!
# Canonical text is printable ASCII

Literals are written in printable ASCII, identifiers consist of it, and everything else is
punctuation. So the canonical text of a value that was read holds no line end and no stray byte
(`Value.printableAscii_of_render`).
-/

namespace GdbMi
set_option autoImplicit false

/-- The glyph is a printable character of ASCII. -/
def Glyph.PrintableAscii (g : Glyph) : Prop := 0x20 ≤ g.code ∧ g.code ≤ 0x7E

instance (g : Glyph) : Decidable g.PrintableAscii :=
  inferInstanceAs (Decidable (0x20 ≤ g.code ∧ g.code ≤ 0x7E))

namespace Glyph

theorem PrintableAscii.of_isIdentifier {g : Glyph} (h : g.isIdentifier = true) :
    g.PrintableAscii := by
  cases g with
  | stray b => cases h
  | char c =>
    have between {low high : Char} (hc : low.val ≤ c.val ∧ c.val ≤ high.val)
        (hl : 0x20 ≤ low.toNat) (hh : high.toNat ≤ 0x7E) : (char c).PrintableAscii :=
      ⟨Nat.le_trans hl (UInt32.le_iff_toNat_le.1 hc.1),
        Nat.le_trans (UInt32.le_iff_toNat_le.1 hc.2) hh⟩
    simp only [isIdentifier, Char.isAlphanum, Bool.or_eq_true, beq_iff_eq] at h
    rcases h with ((letter | digit) | rfl) | rfl
    · rcases (Bool.or_eq_true_iff.1 letter : c.isUpper = true ∨ c.isLower = true) with h | h
      · exact between (of_decide_eq_true h) (by decide) (by decide)
      · exact between ((Bool.and_eq_true_iff.1 h).imp of_decide_eq_true of_decide_eq_true)
          (by decide) (by decide)
    · exact between ((Bool.and_eq_true_iff.1 digit).imp of_decide_eq_true of_decide_eq_true)
        (by decide) (by decide)
    · decide
    · decide

theorem PrintableAscii.exists_char {g : Glyph} (h : g.PrintableAscii) : ∃ c, g = char c := by
  cases g with
  | char c => exact ⟨c, rfl⟩
  | stray b =>
    have bounds := code_stray_bounds b
    rw [PrintableAscii] at h
    omega

end Glyph

theorem printableAscii_of_mem_quote {t : Text} {g : Glyph} (h : g ∈ Literal.quote t) :
    g.PrintableAscii :=
  Literal.code_bounds_of_mem_quote h

/-! ## Parts of aggregates -/

section
variable {P : Glyph → Prop} {parts : List Text}

theorem forall_mem_separated (comma : P ',') (h : ∀ part ∈ parts, ∀ g ∈ part, P g) :
    ∀ g ∈ separated parts, P g := by
  induction parts with
  | nil => nofun
  | cons part parts ih =>
    rw [List.forall_mem_cons] at h
    cases parts with
    | nil =>
      rw [separated_singleton]
      exact h.1
    | cons next parts =>
      rw [separated_cons_cons, List.forall_mem_append, List.forall_mem_cons]
      exact ⟨h.1, comma, ih h.2⟩

theorem forall_mem_enclosedIn {left right : Char} (hl : P left) (hr : P right) (comma : P ',')
    (h : ∀ part ∈ parts, ∀ g ∈ part, P g) : ∀ g ∈ enclosedIn left right parts, P g := by
  rw [enclosedIn, List.forall_mem_cons, List.forall_mem_append, List.forall_mem_singleton]
  exact ⟨hl, forall_mem_separated comma h, hr⟩

end

theorem printableAscii_entryText {key : Key} {v : Value} (takes : key.Takes v) {s : Text}
    (h : ∀ g ∈ s, g.PrintableAscii) : ∀ g ∈ entryText key s, g.PrintableAscii := by
  cases key with
  | bare => exact h
  | unnamed => exact h
  | named name =>
    have identifier : IsIdentifier name := takes
    rw [entryText, List.forall_mem_append, List.forall_mem_cons]
    refine ⟨?_, by decide, h⟩
    intro g hg
    obtain ⟨c, hc, rfl⟩ := List.mem_map.1 hg
    exact .of_isIdentifier (identifier.2 c hc)

/-- The canonical text of a value of the shape that is read is printable ASCII. -/
theorem Value.printableAscii_of_render {v : Value} (h : v.Shaped) :
    ∀ s, v.render = .ok s → ∀ g ∈ s, g.PrintableAscii := by
  refine h.render_induction ?_ ?_ ?_ ?_
  · exact fun x g hg => printableAscii_of_mem_quote hg
  · exact fun key v s takes hs => printableAscii_entryText takes hs
  · exact fun parts each => forall_mem_enclosedIn (by decide) (by decide) (by decide) each
  · exact fun parts each => forall_mem_enclosedIn (by decide) (by decide) (by decide) each

/-- So is the canonical text of a field list at the top. -/
theorem FieldList.printableAscii_of_render {f : FieldList} (h : f.toValue.Shaped) {s : Text}
    (hs : f.render = .ok s) : ∀ g ∈ s, g.PrintableAscii := by
  obtain ⟨parts, hp, rfl⟩ := render_eq_ok_iff.1 hs
  have shaped := Value.shaped_fields_iff.1 h
  refine forall_mem_separated (by decide) fun part hpart => ?_
  obtain ⟨e, he, x, hx, rfl⟩ := Value.exists_of_mem_renderEntries hp part hpart
  obtain ⟨takes, value⟩ := shaped e he
  exact printableAscii_entryText takes (Value.printableAscii_of_render value x hx)

end GdbMi
