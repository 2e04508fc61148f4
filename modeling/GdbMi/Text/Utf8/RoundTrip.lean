import GdbMi.Text.Utf8

/-!
# Decoding undoes encoding

The bytes of a string are cut into its characters and nothing else (`chunks_bytes`), so both ways
of decoding give the string back (`decodeLossy_bytes`, `decode_bytes`). The work is in
`foldl_step_encode`, which follows the bytes of one character through the scan.
-/

namespace GdbMi.Utf8
set_option autoImplicit false

theorem toNat_ofNat_of_lt {n : Nat} (h : n < 256) : (UInt8.ofNat n).toNat = n := by
  simp only [UInt8.toNat_ofNat']
  omega

theorem step_last (chunks : List Chunk) (p : Partial) (b : UInt8) (hp : p.due = 0)
    (hb : p.low ≤ b.toNat ∧ b.toNat ≤ p.high) :
    Scan.step { chunks, pending := some p } b
      = { chunks := .char (Char.ofNat (64 * p.bits + (b.toNat - 0x80))) :: chunks } := by
  simp [Scan.step, hb, hp]

theorem step_inner (chunks : List Chunk) (p : Partial) (b : UInt8) (due : Nat) (hp : p.due = due + 1)
    (hb : p.low ≤ b.toNat ∧ b.toNat ≤ p.high) :
    Scan.step { chunks, pending := some p } b
      = ⟨chunks, some { taken := b :: p.taken, bits := 64 * p.bits + (b.toNat - 0x80), due }⟩ := by
  simp [Scan.step, hb, hp]

theorem step_lead (chunks : List Chunk) (b : UInt8) (p : Partial) (hb : 0x80 ≤ b.toNat)
    (hp : lead? b = some p) :
    Scan.step { chunks } b = { chunks, pending := some p } := by
  simp only [Scan.step, Scan.start, hp]
  rw [if_neg (by omega)]

/-- The bytes of a character are read as that character. -/
theorem foldl_step_encode (chunks : List Chunk) (c : Char) :
    (String.utf8EncodeChar c).foldl Scan.step { chunks } = { chunks := .char c :: chunks } := by
  have valid := c.valid
  simp only [UInt32.isValidChar, Nat.isValidChar] at valid
  have decoded (n : Nat) (h : n = c.val.toNat) : Char.ofNat n = c := by
    rw [h]; exact Char.ofNat_toNat c
  simp only [String.utf8EncodeChar]
  generalize c.val.toNat = v at *
  split
  · next h =>
    simp only [List.foldl, Scan.step, Scan.start, toNat_ofNat_of_lt (show v < 256 by omega)]
    rw [if_pos (by omega), decoded v rfl]
  split
  · next h₁ h₂ =>
    have b₁ := toNat_ofNat_of_lt (show v / 64 % 0x20 + 0xC0 < 256 by omega)
    have b₂ := toNat_ofNat_of_lt (show v % 0x40 + 0x80 < 256 by omega)
    have lead : lead? (UInt8.ofNat (v / 64 % 0x20 + 0xC0)) = some
        { taken := [UInt8.ofNat (v / 64 % 0x20 + 0xC0)], bits := v / 64, due := 0 } := by
      have bits : v / 64 % 0x20 + 0xC0 - 0xC0 = v / 64 := by omega
      simp only [lead?, b₁, bits]
      rw [if_pos (by omega)]
    simp only [List.foldl]
    rw [step_lead _ _ _ (by omega) lead, step_last _ _ _ rfl (by simp only [b₂]; omega)]
    rw [decoded _ (by simp only [b₂]; omega)]
  split
  · next h₁ h₂ h₃ =>
    have b₁ := toNat_ofNat_of_lt (show v / 4096 % 0x10 + 0xE0 < 256 by omega)
    have b₂ := toNat_ofNat_of_lt (show v / 64 % 0x40 + 0x80 < 256 by omega)
    have b₃ := toNat_ofNat_of_lt (show v % 0x40 + 0x80 < 256 by omega)
    have lead : ∃ p, lead? (UInt8.ofNat (v / 4096 % 0x10 + 0xE0)) = some p ∧ p.bits = v / 4096 ∧
        p.due = 1 ∧ p.low ≤ v / 64 % 0x40 + 0x80 ∧ v / 64 % 0x40 + 0x80 ≤ p.high := by
      simp only [lead?, b₁]
      rw [if_neg (by omega)]
      split
      · exact ⟨_, rfl, by dsimp only; omega, rfl, by dsimp only; omega, by dsimp only; omega⟩
      split
      · exact ⟨_, rfl, by dsimp only; omega, rfl, by dsimp only; omega, by dsimp only; omega⟩
      rw [if_pos (by omega)]
      exact ⟨_, rfl, by dsimp only; omega, rfl, by dsimp only; omega, by dsimp only; omega⟩
    obtain ⟨p, lead, bits, due, low, high⟩ := lead
    simp only [List.foldl]
    rw [step_lead _ _ _ (by omega) lead, step_inner _ _ _ 0 due (by rw [b₂]; omega),
      step_last _ _ _ rfl (by simp only [b₃]; omega)]
    rw [decoded _ (by simp only [b₂, b₃, bits]; omega)]
  · next h₁ h₂ h₃ =>
    have b₁ := toNat_ofNat_of_lt (show v / 262144 % 0x08 + 0xF0 < 256 by omega)
    have b₂ := toNat_ofNat_of_lt (show v / 4096 % 0x40 + 0x80 < 256 by omega)
    have b₃ := toNat_ofNat_of_lt (show v / 64 % 0x40 + 0x80 < 256 by omega)
    have b₄ := toNat_ofNat_of_lt (show v % 0x40 + 0x80 < 256 by omega)
    have lead : ∃ p, lead? (UInt8.ofNat (v / 262144 % 0x08 + 0xF0)) = some p ∧
        p.bits = v / 262144 ∧ p.due = 2 ∧ p.low ≤ v / 4096 % 0x40 + 0x80 ∧
        v / 4096 % 0x40 + 0x80 ≤ p.high := by
      simp only [lead?, b₁]
      rw [if_neg (by omega), if_neg (by omega), if_neg (by omega), if_neg (by omega)]
      split
      · exact ⟨_, rfl, by dsimp only; omega, rfl, by dsimp only; omega, by dsimp only; omega⟩
      split
      · exact ⟨_, rfl, by dsimp only; omega, rfl, by dsimp only; omega, by dsimp only; omega⟩
      rw [if_pos (by omega)]
      exact ⟨_, rfl, by dsimp only; omega, rfl, by dsimp only; omega, by dsimp only; omega⟩
    obtain ⟨p, lead, bits, due, low, high⟩ := lead
    simp only [List.foldl]
    rw [step_lead _ _ _ (by omega) lead, step_inner _ _ _ 1 due (by rw [b₂]; omega),
      step_inner _ _ _ 0 rfl (by simp only [b₃]; omega),
      step_last _ _ _ rfl (by simp only [b₄]; omega)]
    rw [decoded _ (by simp only [b₂, b₃, b₄, bits]; omega)]

theorem foldl_step_bytes (chunks : List Chunk) (s : String) :
    (Text.ofString s).bytes.foldl Scan.step { chunks }
      = { chunks := (s.toList.map Chunk.char).reverse ++ chunks } := by
  simp only [Text.bytes, Text.ofString]
  induction s.toList generalizing chunks with
  | nil => rfl
  | cons c l ih =>
    simp only [List.map_cons, List.flatMap_cons, List.foldl_append, Glyph.bytes, foldl_step_encode, ih]
    simp

theorem chunks_bytes (s : String) : chunks (Text.ofString s).bytes = s.toList.map Chunk.char := by
  simp [chunks, foldl_step_bytes, Scan.finish]

theorem decodeLossy_bytes (s : String) : decodeLossy (Text.ofString s).bytes = s := by
  simp only [decodeLossy, chunks_bytes, List.map_map]
  have : (Chunk.replaced ∘ Chunk.char) = id := rfl
  rw [this, List.map_id, String.ofList_toList]

theorem decode_bytes (s : String) : decode (Text.ofString s).bytes = Text.ofString s := by
  rw [decode, chunks_bytes, Text.ofString]
  induction s.toList with
  | nil => rfl
  | cons c l ih => rw [List.map_cons, List.flatMap_cons, ih]; rfl

end GdbMi.Utf8
