import Mathlib.Algebra.Group.Nat.Defs
import GdbMi.Text.Digit

/-!
# Numerals

The numeral of a number is its shortest decimal spelling. It is read as the number
(`decimalValue_toString`), and no run of decimal digits that denotes the number, in whatever scripts
and with however many zeros in front, is shorter (`length_toString_decimalValue_le`).
-/

namespace GdbMi
set_option autoImplicit false

/-- The digits of ASCII have the values that their code points count. -/
theorem Glyph.digit?_of_isDigit {c : Char} (h : c.isDigit = true) :
    (Glyph.char c).digit? = some (c.toNat - '0'.toNat) := by
  have bounds : 48 ≤ c.toNat ∧ c.toNat ≤ 57 := Char.isDigit_iff_toNat.1 h
  have zeros : decimalZeros = 0x30 :: decimalZeros.tail := rfl
  unfold Glyph.digit?
  rw [zeros, Glyph.code_char, List.find?_cons_of_pos (by simp; omega)]
  rfl

theorem Glyph.isDigit_char {c : Char} (h : c.isDigit = true) : (Glyph.char c).isDigit = true := by
  rw [Glyph.isDigit, Glyph.digit?_of_isDigit h, Option.isSome_some]

/-- ASCII digits as glyphs denote what they denote as characters. -/
theorem decimalValue_map_char {digits : List Char} (h : ∀ c ∈ digits, c.isDigit = true) :
    decimalValue (digits.map Glyph.char) = Nat.ofDigitChars 10 digits 0 := by
  -- the folds run from the front, so what they have read before is generalized
  have each (n : Nat) : (digits.map Glyph.char).foldl (fun n g => 10 * n + g.digit?.getD 0) n
      = Nat.ofDigitChars 10 digits n := by
    induction digits generalizing n with
    | nil => rw [List.map_nil, List.foldl_nil, Nat.ofDigitChars_nil]
    | cons c digits ih =>
      rw [List.forall_mem_cons] at h
      rw [List.map_cons, List.foldl_cons, Nat.ofDigitChars_cons, Glyph.digit?_of_isDigit h.1]
      exact ih h.2 _
  exact each 0

theorem Text.ofString_toString (n : Nat) :
    Text.ofString (toString n) = (Nat.toDigits 10 n).map Glyph.char := by
  rw [Text.ofString, Nat.toString_eq_repr, Nat.toList_repr]

theorem isDigit_of_mem_toDigits {n : Nat} {c : Char} (h : c ∈ Nat.toDigits 10 n) :
    c.isDigit = true :=
  Nat.isDigit_of_mem_toDigits (by decide) (by decide) h

/-- A numeral consists of digits. -/
theorem isDigit_of_mem_toString {n : Nat} {g : Glyph} (h : g ∈ Text.ofString (toString n)) :
    g.isDigit = true := by
  rw [Text.ofString_toString] at h
  obtain ⟨c, hc, rfl⟩ := List.mem_map.1 h
  exact Glyph.isDigit_char (isDigit_of_mem_toDigits hc)

/-- A numeral is read as its number. -/
theorem decimalValue_toString (n : Nat) : decimalValue (Text.ofString (toString n)) = n := by
  rw [Text.ofString_toString, decimalValue_map_char fun c => isDigit_of_mem_toDigits,
    Nat.ofDigitChars_ten_toDigits]

theorem Text.ofString_toString_ne_nil (n : Nat) : Text.ofString (toString n) ≠ [] := by
  rw [Text.ofString_toString, Ne, List.map_eq_nil_iff]
  exact Nat.toDigits_ne_nil

/-- As many digits as there are bound the number. -/
theorem decimalValue_lt (digits : Text) : decimalValue digits < 10 ^ digits.length := by
  rw [← List.reverse_reverse digits]
  induction digits.reverse with
  | nil => decide
  | cons g before ih =>
    have digit : g.digit?.getD 0 < 10 := by
      cases eq : g.digit? with
      | none => decide
      | some d => exact Glyph.digit?_lt eq
    rw [List.reverse_cons, decimalValue_snoc, List.length_append, List.length_singleton,
      Nat.pow_succ]
    omega

/-- The numeral of a number is no longer than any digits that denote it. -/
theorem length_toString_decimalValue_le {digits : Text} (h : digits ≠ []) :
    (Text.ofString (toString (decimalValue digits))).length ≤ digits.length := by
  have some_digit : 0 < digits.length := List.length_pos_iff.2 h
  rw [Text.ofString_toString, List.length_map]
  exact (Nat.length_toDigits_le_iff (by decide) some_digit).2 (decimalValue_lt digits)

end GdbMi
