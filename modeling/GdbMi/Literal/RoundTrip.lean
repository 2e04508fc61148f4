import GdbMi.Literal
import GdbMi.Text.Utf8.RoundTrip

/-!
# Reading a canonical literal

Each byte is read back from its canonical spelling (`scan_spell`), so a canonical literal is read as
the string it was made from, whatever follows it (`read_quote_append`).
-/

namespace GdbMi.Literal
set_option autoImplicit false

theorem toNat_ofNat_of_lt {n : Nat} (h : n < 0x80) : (Char.ofNat n).toNat = n := by
  rw [Char.ofNat, dif_pos (Or.inl (by omega))]
  rfl

theorem scan_named {c : Char} {b : UInt8} (h : (c, b) ∈ namedEscapes) (acc : List UInt8) (t : Text) :
    scan { bytes := acc } (Glyph.char '\\' :: Glyph.char c :: t) = scan { bytes := b :: acc } t := by
  simp only [namedEscapes, List.mem_cons, List.not_mem_nil, or_false, Prod.mk.injEq] at h
  rcases h with h | h | h | h | h | h | h | h | h <;> obtain ⟨rfl, rfl⟩ := h <;> rfl

theorem scan_plain {c : Char} (h : c.toNat ≤ 0xFF) (quote : c ≠ '"') (backslash : c ≠ '\\')
    (acc : List UInt8) (t : Text) :
    scan { bytes := acc } (Glyph.char c :: t) = scan { bytes := UInt8.ofNat c.toNat :: acc } t := by
  simp [scan, Scan.step, Scan.stepChar, Scan.push, h, quote, backslash]

theorem asciiDigit?_digitChar {d : Nat} (h : d < 10) : asciiDigit? (Nat.digitChar d) = some d := by
  revert d; decide

theorem lookup_digitChar {d : Nat} (h : d < 10) : namedEscapes.lookup (Nat.digitChar d) = none := by
  revert d; decide

theorem toNat_digitChar_le {d : Nat} (h : d < 10) : (Nat.digitChar d).toNat ≤ 0xFF := by
  revert d; decide

section
variable (acc : List UInt8) (t : Text)

theorem scan_backslash : scan { bytes := acc } (Glyph.char '\\' :: t)
    = scan { bytes := acc, place := .afterBackslash } t := rfl

theorem scan_digit₁ {d : Nat} (h : d ≤ 3) :
    scan { bytes := acc, place := .afterBackslash } (Glyph.char (Nat.digitChar d) :: t)
      = scan { bytes := acc, place := .octal₂ d } t := by
  have small := toNat_digitChar_le (show d < 10 by omega)
  have unnamed := lookup_digitChar (show d < 10 by omega)
  have digit := asciiDigit?_digitChar (show d < 10 by omega)
  simp [scan, Scan.step, Scan.stepChar, small, unnamed, digit, h]

theorem scan_digit₂ (d₁ : Nat) {d : Nat} (h : d < 10) :
    scan { bytes := acc, place := .octal₂ d₁ } (Glyph.char (Nat.digitChar d) :: t)
      = scan { bytes := acc, place := .octal₃ d₁ d } t := by
  have small := toNat_digitChar_le h
  have digit := asciiDigit?_digitChar h
  simp [scan, Scan.step, Scan.stepChar, small, digit]

theorem scan_digit₃ (d₁ d₂ : Nat) {d : Nat} (h : d < 10) :
    scan { bytes := acc, place := .octal₃ d₁ d₂ } (Glyph.char (Nat.digitChar d) :: t)
      = scan { bytes := octalByte d₁ d₂ d :: acc } t := by
  have small := toNat_digitChar_le h
  have digit := asciiDigit?_digitChar h
  simp [scan, Scan.step, Scan.stepChar, Scan.push, small, digit]

theorem scan_octal {d₁ d₂ d₃ : Nat} (h₁ : d₁ ≤ 3) (h₂ : d₂ < 10) (h₃ : d₃ < 10) :
    scan { bytes := acc } (Glyph.char '\\' :: Glyph.char (Nat.digitChar d₁) ::
        Glyph.char (Nat.digitChar d₂) :: Glyph.char (Nat.digitChar d₃) :: t)
      = scan { bytes := octalByte d₁ d₂ d₃ :: acc } t := by
  rw [scan_backslash, scan_digit₁ _ _ h₁, scan_digit₂ _ _ _ h₂, scan_digit₃ _ _ _ _ h₃]

end

theorem octalByte_digits (b : UInt8) :
    octalByte (b.toNat / 64) (b.toNat / 8 % 8) (b.toNat % 8) = b := by
  have := b.toNat_lt
  apply UInt8.toNat_inj.1
  simp only [octalByte, UInt8.toNat_ofNat']
  omega

/-- The canonical spelling of a byte is read as that byte. -/
theorem scan_spell (acc : List UInt8) (b : UInt8) (t : Text) :
    scan { bytes := acc } ((spell b).map Glyph.char ++ t) = scan { bytes := b :: acc } t := by
  have small := b.toNat_lt
  simp only [spell]
  split
  · next c b' h =>
    have mem := List.mem_of_find?_eq_some h
    have eq : b' = b := by simpa using List.find?_some h
    exact scan_named (eq ▸ mem) acc t
  · next none =>
    split
    · next h =>
      have code : (Char.ofNat b.toNat).toNat = b.toNat :=
        toNat_ofNat_of_lt (by omega)
      have other (c : Char) (unnamed : namedEscapes.find? (·.2 == UInt8.ofNat c.toNat) ≠ .none) :
          Char.ofNat b.toNat ≠ c := by
        rintro rfl
        rw [code, UInt8.ofNat_toNat] at unnamed
        exact unnamed none
      have := scan_plain (show (Char.ofNat b.toNat).toNat ≤ 0xFF by omega) (other '"' (by decide))
        (other '\\' (by decide)) acc t
      rwa [code, UInt8.ofNat_toNat] at this
    · have := scan_octal acc t (show b.toNat / 64 ≤ 3 by omega)
        (show b.toNat / 8 % 8 < 10 by omega) (show b.toNat % 8 < 10 by omega)
      rwa [octalByte_digits] at this

/-- The canonical spelling of bytes and a closing quote are read as those bytes. -/
theorem scan_spellAll (acc bytes : List UInt8) (t : Text) :
    scan { bytes := acc } (spellAll bytes ++ Glyph.char '"' :: t)
      = .ok (acc.reverse ++ bytes) t := by
  induction bytes generalizing acc with
  | nil => simp [spellAll, scan, Scan.step, Scan.stepChar]
  | cons b bytes ih =>
    have split : spellAll (b :: bytes) = (spell b).map Glyph.char ++ spellAll bytes := by
      simp [spellAll]
    rw [split, List.append_assoc, scan_spell, ih]
    simp

theorem scan_quote (s : String) (t : Text) :
    ∃ tail, quote (Text.ofString s) ++ t = Glyph.char '"' :: tail ∧
      scan {} tail = .ok (Text.ofString s).bytes t := by
  refine ⟨spellAll (Text.ofString s).bytes ++ Glyph.char '"' :: t, by simp [quote], ?_⟩
  exact scan_spellAll [] _ t

theorem read_quote_append (s : String) (t : Text) :
    read (quote (Text.ofString s) ++ t) = .ok s t := by
  obtain ⟨tail, split, scanned⟩ := scan_quote s t
  rw [split]
  simp [read, scanned, Reading.map, Utf8.decodeLossy_bytes]

theorem parse_quote (s : String) : parse (quote (Text.ofString s)) = .ok s := by
  have read := read_quote_append s []
  rw [List.append_nil] at read
  rw [parse, read]
  rfl

end GdbMi.Literal
