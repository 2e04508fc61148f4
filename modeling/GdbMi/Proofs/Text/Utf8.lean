import GdbMi.Text.Utf8

/-!
# ASCII in UTF-8

A byte of ASCII is the character of its own code, wherever it stands: it ends the character under
way, if there is one, and what comes after it is decoded as if nothing had come before
(`decode_append_ascii`). No other bytes are decoded as a character of ASCII
(`exists_byte_of_char_mem`). Both follow from one invariant of the scan: a character under way goes
on with a byte outside ASCII, and is going to be outside ASCII itself.
-/

namespace GdbMi.Utf8
set_option autoImplicit false

/-- The character under way goes on, and ends, outside ASCII. -/
structure Partial.Wide (p : Partial) : Prop where
  low : 0x80 ≤ p.low
  /-- Before its last byte, enough bits are there. -/
  last : p.due = 0 → 2 ≤ p.bits
  /-- Before the other ones, enough bits are there or come with the next byte. -/
  inner : p.due ≠ 0 → 2 ≤ 64 * p.bits + (p.low - 0x80)

theorem wide_of_lead {b : UInt8} {p : Partial} (h : lead? b = some p) : p.Wide := by
  unfold lead? at h
  dsimp only at h
  repeat' split at h
  all_goals cases h
  all_goals constructor <;> dsimp only <;> omega

/-- A number that is no code point stands for the null character. -/
theorem toNat_ofNat_cases (n : Nat) : (Char.ofNat n).toNat = n ∨ (Char.ofNat n).toNat = 0 := by
  by_cases valid : n.isValidChar
  · rw [Char.ofNat, dif_pos valid]
    exact .inl rfl
  · rw [Char.ofNat, dif_neg valid]
    exact .inr rfl

theorem toNat_ofNat_of_ascii {n : Nat} (h : n < 0x80) : (Char.ofNat n).toNat = n := by
  have valid : n.isValidChar := .inl (by omega)
  rw [Char.ofNat, dif_pos valid]
  rfl

namespace Scan

/-- Every character of ASCII that the scan holds is of the kind, the null character apart, and the
character under way is going to be none. -/
structure Holds (P : Char → Prop) (s : Scan) : Prop where
  chunks : ∀ c, Chunk.char c ∈ s.chunks → c.toNat < 0x80 → c.toNat ≠ 0 → P c
  pending : ∀ p, s.pending = some p → p.Wide

variable {P : Char → Prop} {s : Scan}

theorem Holds.push_invalid {chunks : List Chunk} (h : Holds P { chunks }) (bytes : List UInt8) :
    Holds P { chunks := .invalid bytes :: chunks } := by
  refine ⟨?_, nofun⟩
  intro c hc
  rcases List.mem_cons.1 hc with same | old
  · cases same
  · exact h.chunks c old

theorem Holds.start {chunks : List Chunk} (h : Holds P { chunks }) {b : UInt8}
    (hb : b.toNat < 0x80 → P (Char.ofNat b.toNat)) : (start chunks b).Holds P := by
  unfold Scan.start
  split
  · next ascii =>
    refine ⟨?_, nofun⟩
    intro c hc
    rcases List.mem_cons.1 hc with same | old
    · cases same
      exact fun _ _ => hb ascii
    · exact h.chunks c old
  split
  · next p lead =>
    refine ⟨h.chunks, ?_⟩
    rintro p' ⟨⟩
    exact wide_of_lead lead
  · exact h.push_invalid [b]

theorem Holds.step (h : s.Holds P) {b : UInt8} (hb : b.toNat < 0x80 → P (Char.ofNat b.toNat)) :
    (s.step b).Holds P := by
  obtain ⟨chunks, pending⟩ := s
  cases pending with
  | none => exact Holds.start h hb
  | some p =>
    have wide := h.pending p rfl
    simp only [Scan.step]
    split
    · next within =>
      cases due : p.due with
      | zero =>
        refine ⟨?_, nofun⟩
        intro c hc ascii notNull
        rcases List.mem_cons.1 hc with same | old
        · rw [Chunk.char.inj same] at ascii notNull
          have := wide.last due
          rcases toNat_ofNat_cases (64 * p.bits + (b.toNat - 0x80)) with code | null
          · omega
          · exact absurd null notNull
        · exact h.chunks c old ascii notNull
      | succ due' =>
        refine ⟨h.chunks, ?_⟩
        rintro p' ⟨⟩
        have := wide.low
        have := wide.inner (by omega)
        constructor <;> dsimp only <;> omega
    · have ended : Holds P { chunks } := ⟨h.chunks, nofun⟩
      exact (ended.push_invalid p.taken.reverse).start hb

theorem Holds.foldl (h : s.Holds P) {bytes : List UInt8}
    (hb : ∀ b ∈ bytes, b.toNat < 0x80 → P (Char.ofNat b.toNat)) :
    (bytes.foldl Scan.step s).Holds P := by
  induction bytes generalizing s with
  | nil => exact h
  | cons b bytes ih =>
    rw [List.forall_mem_cons] at hb
    exact ih (h.step hb.1) hb.2

theorem Holds.finish (h : s.Holds P) (c : Char) (hc : Chunk.char c ∈ s.finish)
    (ascii : c.toNat < 0x80) (notNull : c.toNat ≠ 0) : P c := by
  unfold Scan.finish at hc
  split at hc
  · exact h.chunks c (List.mem_reverse.1 hc) ascii notNull
  · rcases List.mem_cons.1 (List.mem_reverse.1 hc) with same | old
    · cases same
    · exact h.chunks c old ascii notNull

/-- The scan with other chunks before its own. -/
def behind (s : Scan) (earlier : List Chunk) : Scan :=
  { s with chunks := s.chunks ++ earlier }

theorem step_behind (s : Scan) (earlier : List Chunk) (b : UInt8) :
    (s.behind earlier).step b = (s.step b).behind earlier := by
  have start (chunks : List Chunk) :
      Scan.start (chunks ++ earlier) b = (Scan.start chunks b).behind earlier := by
    unfold Scan.start
    split
    · rfl
    · split <;> rfl
  obtain ⟨chunks, pending⟩ := s
  cases pending with
  | none => exact start chunks
  | some p =>
    simp only [Scan.step, behind]
    split
    · cases p.due <;> rfl
    · exact start (.invalid p.taken.reverse :: chunks)

/-- What comes before does not change how bytes are read. -/
theorem foldl_step_behind (s : Scan) (earlier : List Chunk) (bytes : List UInt8) :
    bytes.foldl step (s.behind earlier) = (bytes.foldl step s).behind earlier := by
  induction bytes generalizing s with
  | nil => rfl
  | cons b bytes ih => rw [List.foldl_cons, List.foldl_cons, step_behind, ih]

theorem finish_behind (s : Scan) (earlier : List Chunk) :
    (s.behind earlier).finish = earlier.reverse ++ s.finish := by
  obtain ⟨chunks, pending⟩ := s
  cases pending <;> simp [behind, finish]

/-- A byte of ASCII ends the character under way. -/
theorem step_ascii (h : s.Holds P) {b : UInt8} (ascii : b.toNat < 0x80) :
    s.step b = { chunks := .char (Char.ofNat b.toNat) :: s.finish.reverse } := by
  obtain ⟨chunks, pending⟩ := s
  cases pending with
  | none => simp [step, start, ascii, finish]
  | some p =>
    have low := (h.pending p rfl).low
    have outside : ¬ (p.low ≤ b.toNat ∧ b.toNat ≤ p.high) := by omega
    simp [step, start, ascii, finish, outside]

end Scan

theorem holds_empty (P : Char → Prop) : Scan.Holds P {} := ⟨nofun, nofun⟩

/-- Bytes are decoded apart from each other on the two sides of a byte of ASCII. -/
theorem chunks_append_ascii (bytes : List UInt8) {b : UInt8} (ascii : b.toNat < 0x80)
    (more : List UInt8) :
    chunks (bytes ++ b :: more) = chunks bytes ++ .char (Char.ofNat b.toNat) :: chunks more := by
  have before : (bytes.foldl Scan.step {}).Holds fun _ => True :=
    (holds_empty _).foldl fun _ _ _ => trivial
  have after : ({ chunks := .char (Char.ofNat b.toNat) :: (chunks bytes).reverse } : Scan)
      = Scan.behind {} (.char (Char.ofNat b.toNat) :: (chunks bytes).reverse) := rfl
  rw [chunks, List.foldl_append, List.foldl_cons, Scan.step_ascii before ascii, ← chunks, after,
    Scan.foldl_step_behind, Scan.finish_behind, ← chunks]
  simp

theorem decode_append_ascii (bytes : List UInt8) {b : UInt8} (ascii : b.toNat < 0x80)
    (more : List UInt8) :
    decode (bytes ++ b :: more) = decode bytes ++ .char (Char.ofNat b.toNat) :: decode more := by
  simp only [decode, chunks_append_ascii bytes ascii more, List.flatMap_append, List.flatMap_cons,
    Chunk.glyphs, List.singleton_append]

/-- A character of ASCII, if it is not the null character, is decoded from its own byte. -/
theorem exists_byte_of_char_mem {bytes : List UInt8} {c : Char}
    (h : Glyph.char c ∈ decode bytes) (ascii : c.toNat < 0x80) (notNull : c.toNat ≠ 0) :
    ∃ b ∈ bytes, Char.ofNat b.toNat = c := by
  have held : (bytes.foldl Scan.step {}).Holds fun c => ∃ b ∈ bytes, Char.ofNat b.toNat = c :=
    (holds_empty _).foldl fun b hb _ => ⟨b, hb, rfl⟩
  obtain ⟨chunk, mem, glyph⟩ := List.mem_flatMap.1 h
  cases chunk with
  | char d =>
    cases List.mem_singleton.1 glyph
    exact held.finish c mem ascii notNull
  | invalid stray =>
    obtain ⟨b, -, impossible⟩ := List.mem_map.1 glyph
    cases impossible

/-- A byte of ASCII that is not there is not decoded. -/
theorem char_notMem_decode {bytes : List UInt8} {b : UInt8} (ascii : b.toNat < 0x80)
    (notNull : b.toNat ≠ 0) (absent : b ∉ bytes) :
    Glyph.char (Char.ofNat b.toNat) ∉ decode bytes := by
  have code := toNat_ofNat_of_ascii ascii
  intro mem
  obtain ⟨b', hb', same⟩ :=
    exists_byte_of_char_mem mem (by rw [code]; exact ascii) (by rw [code]; exact notNull)
  have toNat := congrArg Char.toNat same
  rw [code] at toNat
  have equal : b'.toNat = b.toNat := by
    rcases toNat_ofNat_cases b'.toNat with own | null <;> omega
  exact absent (UInt8.toNat_inj.1 equal ▸ hb')

end GdbMi.Utf8
