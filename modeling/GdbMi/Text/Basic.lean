/-!
# Glyphs and texts

A transcript is bytes, mostly UTF-8. A `Glyph` is one unit of it after decoding: a character, or a
byte that belongs to no UTF-8 sequence and is kept as it came. A `Text` is a list of glyphs, and
every reader of this library consumes texts from the front. `Glyph.code_inj` says that code points
tell glyphs apart: stray bytes take the low surrogates, which are the code point of no character.
Surrogates outside U+DC00..U+DCFF have no glyph. Decoding never gives one, and a text that holds one
in some other way is not a `Text`.
-/

namespace GdbMi
set_option autoImplicit false

/-- One unit of decoded text: a character, or a byte outside every UTF-8 sequence. -/
inductive Glyph where
  | char (c : Char)
  | stray (b : UInt8)
deriving DecidableEq, Repr

instance : Coe Char Glyph := ⟨Glyph.char⟩

namespace Glyph

/-- The code point that stands for the glyph. -/
def code : Glyph → Nat
  | char c => c.toNat
  | stray b => 0xDC00 + b.toNat

/-- The bytes that the glyph is decoded from. -/
def bytes : Glyph → List UInt8
  | char c => String.utf8EncodeChar c
  | stray b => [b]

/-- The glyph as a single byte, if its code point fits in one. -/
def toByte? (g : Glyph) : Option UInt8 :=
  if g.code ≤ 0xFF then some (UInt8.ofNat g.code) else none

/-- The glyph as a character, unless it is a stray byte. -/
def toChar? : Glyph → Option Char
  | char c => some c
  | stray _ => none

theorem code_char (c : Char) : (char c).code = c.toNat := rfl

theorem code_stray_bounds (b : UInt8) : 0xDC00 ≤ (stray b).code ∧ (stray b).code < 0xDD00 := by
  have := b.toNat_lt
  simp only [code]
  omega

theorem toByte?_stray (b : UInt8) : (stray b).toByte? = none := by
  have := code_stray_bounds b
  simp only [toByte?]
  rw [if_neg (by omega)]

theorem code_inj {g h : Glyph} (e : g.code = h.code) : g = h := by
  have surrogate (c : Char) (b : UInt8) : c.toNat ≠ 0xDC00 + b.toNat := by
    have hb := b.toNat_lt
    have hc := c.valid
    simp only [UInt32.isValidChar, Nat.isValidChar] at hc
    simp only [Char.toNat]
    omega
  cases g with
  | char c =>
    cases h with
    | char d => rw [Char.toNat_inj.1 e]
    | stray b => exact absurd e (surrogate c b)
  | stray b =>
    cases h with
    | char c => exact absurd e.symm (surrogate c b)
    | stray d =>
      have : b.toNat = d.toNat := by simp only [code] at e; omega
      rw [UInt8.toNat_inj.1 this]

end Glyph

/-- Decoded text, the next unread glyph first. -/
abbrev Text := List Glyph

namespace Text

/-- The text of a string, one glyph per character. -/
def ofString (s : String) : Text := s.toList.map Glyph.char

/-- The text as a string, unless a stray byte stands in it. -/
def toString? (t : Text) : Option String :=
  (t.mapM Glyph.toChar?).map String.ofList

/-- The bytes of the text. -/
def bytes (t : Text) : List UInt8 := t.flatMap Glyph.bytes

theorem ofString_append (s t : String) : ofString (s ++ t) = ofString s ++ ofString t := by
  simp [ofString]

theorem ofString_inj {s t : String} (h : ofString s = ofString t) : s = t := by
  have := (List.map_inj_right fun _ _ e => Glyph.char.inj e).1 h
  exact String.toList_inj.1 this

theorem toString?_ofString (s : String) : (ofString s).toString? = some s := by
  have (l : List Char) : (l.map Glyph.char).mapM Glyph.toChar? = some l := by
    induction l with
    | nil => rfl
    | cons c l ih => simp [ih, Glyph.toChar?]
  simp [toString?, ofString, this]

theorem eq_of_mapM_toChar? {t : Text} {chars : List Char}
    (h : t.mapM Glyph.toChar? = some chars) : t = chars.map Glyph.char := by
  induction t generalizing chars with
  | nil =>
    cases h
    rfl
  | cons g t ih =>
    cases g with
    | stray b => simp [Glyph.toChar?] at h
    | char c =>
      simp only [List.mapM_cons, Glyph.toChar?, Option.bind_eq_bind, Option.bind_some,
        Option.bind_eq_some_iff, Option.pure_def, Option.some.injEq] at h
      obtain ⟨rest, hrest, rfl⟩ := h
      rw [ih hrest, List.map_cons]

theorem toString?_eq_some_iff {t : Text} {s : String} : t.toString? = some s ↔ t = ofString s := by
  constructor
  · intro h
    obtain ⟨chars, converted, rfl⟩ := Option.map_eq_some_iff.1 h
    rw [eq_of_mapM_toChar? converted, ofString, String.toList_ofList]
  · rintro rfl
    exact toString?_ofString s

/-- Glyphs that are all characters are a text. -/
theorem exists_eq_ofString {t : Text} (h : ∀ g ∈ t, ∃ c, g = Glyph.char c) :
    ∃ s, t = ofString s := by
  induction t with
  | nil => exact ⟨"", rfl⟩
  | cons g t ih =>
    rw [List.forall_mem_cons] at h
    obtain ⟨c, rfl⟩ := h.1
    obtain ⟨s, rfl⟩ := ih h.2
    exact ⟨String.ofList (c :: s.toList), by simp [ofString]⟩

end Text

end GdbMi
