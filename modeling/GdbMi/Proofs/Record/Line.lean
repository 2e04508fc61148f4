import GdbMi.Proofs.Record.RoundTrip
import GdbMi.Proofs.Text.Lines
import GdbMi.Proofs.Value.Ascii
import GdbMi.Proofs.Value.Writable

/-!
# Canonical lines

What the canonical line of a record holds: besides glyphs of the line that was read, only printable
ASCII, and something that is not blank (`Record.visible_render`). So it is one line and not a blank
one. A record that was read has such a line, unless a bare field list inside its fields starts
with an entry without an identifier (`Record.writtenUnless`).
-/

namespace GdbMi
set_option autoImplicit false

/-! ## Tokens -/

theorem Glyph.PrintableAscii.of_isDigit {c : Char} (h : c.isDigit = true) :
    (Glyph.char c).PrintableAscii := by
  apply Glyph.PrintableAscii.of_isIdentifier
  simp [Glyph.isIdentifier, Char.isAlphanum, h]

theorem printableAscii_of_mem_toString {n : Nat} {g : Glyph}
    (h : g ∈ Text.ofString (toString n)) : g.PrintableAscii := by
  rw [Text.ofString_toString] at h
  obtain ⟨c, hc, rfl⟩ := List.mem_map.1 h
  exact .of_isDigit (isDigit_of_mem_toDigits hc)

namespace Record

/-- Digits are read as a natural number. -/
theorem token?_eq_ok_cases {digits : Text} {token : Option Int} (h : token? digits = .ok token) :
    token = none ∨ ∃ n : Nat, token = some (n : Int) := by
  unfold token? at h
  split at h
  · cases h
    exact .inl rfl
  · split at h
    · cases h
    · cases h
      exact .inr ⟨_, rfl⟩

theorem printableAscii_tokenText {digits : Text} {token : Option Int}
    (h : token? digits = .ok token) : ∀ g ∈ tokenText token, g.PrintableAscii := by
  rcases token?_eq_ok_cases h with rfl | ⟨n, rfl⟩
  · nofun
  · intro g hg
    exact printableAscii_of_mem_toString hg

/-! ## Lines -/

theorem printableAscii_sigil {kind : Kind} {sigil : Char} (h : kind.sigil? = some sigil) :
    (Glyph.char sigil).PrintableAscii ∧ (Glyph.char sigil).isBlank = false := by
  cases kind <;> cases h <;> decide

theorem Written.printableAscii {payload : Content FieldList} {body before : Option Text}
    (h : Written payload body) (read : Record.fields? before = .ok payload) :
    ∀ g ∈ bodyText body, g.PrintableAscii := by
  cases h with
  | absent => nofun
  | data rendered =>
    rcases fields?_eq_ok_cases read with ⟨-, eq⟩ | ⟨t, f, -, parsed, eq⟩
    · cases eq
    · cases eq
      have ascii := FieldList.printableAscii_of_render (FieldList.shaped_of_parse parsed) rendered
      rw [bodyText, List.forall_mem_cons]
      exact ⟨by decide, ascii⟩

/-- The text has something that is not blank, and every glyph that is not printable ASCII comes from
the line. -/
structure Visible (line s : Text) : Prop where
  visible : ∃ g ∈ s, g.isBlank = false
  kept : ∀ g ∈ s, g ∈ line ∨ g.PrintableAscii

theorem visible_render_of_head {head : Head} {sigil : Char} (hs : head.kind.sigil? = some sigil)
    {r : Record} (h : ofHead head = .ok r) {s : Text} (rendered : r.render = .ok s) :
    Visible (head.line sigil) s := by
  obtain ⟨token, payload, htoken, hfields, rfl⟩ := ofHead_eq_ok_iff.1 h
  obtain ⟨body, written⟩ := exists_written hfields hs rendered
  rw [written.render hs] at rendered
  cases rendered
  obtain ⟨ascii, visible⟩ := printableAscii_sigil hs
  refine ⟨⟨_, List.mem_append_right _ List.mem_cons_self, visible⟩, ?_⟩
  rw [Head.line, List.forall_mem_append, List.forall_mem_cons, List.forall_mem_append]
  refine ⟨?_, .inr ascii, ?_, ?_⟩
  · exact fun g hg => .inr (printableAscii_tokenText htoken g hg)
  · intro g hg
    left
    rw [Head.line]
    exact List.mem_append_right _ (List.mem_cons_of_mem _ (List.mem_append_left _ hg))
  · exact fun g hg => .inr (written.printableAscii hfields g hg)

theorem visible_render_of_stream {kind : Kind} {sigil : Char} (hs : kind.sigil? = some sigil)
    (line x : Text) {s : Text} (rendered : render { kind, payload := .text x } = .ok s) :
    Visible line s := by
  simp only [render, hs] at rendered
  cases rendered
  obtain ⟨ascii, visible⟩ := printableAscii_sigil hs
  refine ⟨⟨_, List.mem_cons_self, visible⟩, ?_⟩
  rw [List.forall_mem_cons]
  exact ⟨.inr ascii, fun g hg => .inr (printableAscii_of_mem_quote hg)⟩

theorem mem_of_mem_chomp {line : Text} {g : Glyph} (h : g ∈ chomp line) : g ∈ line :=
  (List.rdropWhile_prefix Glyph.isLineEnd line).subset h

/-- No more than line ends are lost with the end of a line. -/
theorem mem_chomp_of_not_blank {line : Text} {g : Glyph} (h : g ∈ line)
    (visible : g.isBlank = false) : g ∈ chomp line := by
  rw [← chomp_append_lineEnds line, List.mem_append] at h
  rcases h with h | h
  · exact h
  · have lineEnd := List.mem_rtakeWhile_imp h
    rw [Glyph.isLineEnd_of_not_isBlank visible] at lineEnd
    cases lineEnd

/-- The canonical line of a record is as visible as the line that was read. -/
theorem visible_render {line : Text} (visible : ∃ g ∈ line, g.isBlank = false) {r : Record}
    (h : read line = .ok r) {s : Text} (rendered : r.render = .ok s) : Visible line s := by
  have widen {s : Text} (h : Visible (chomp line) s) : Visible line s :=
    ⟨h.visible, fun g hg => (h.kept g hg).imp mem_of_mem_chomp id⟩
  rcases read_eq_ok_cases h with rfl | ⟨head, found, converted⟩ |
      ⟨kind, literal, x, found, -, rfl⟩ | ⟨rfl, -⟩
  · cases rendered
    have prompt : ∀ g ∈ promptText, g.PrintableAscii := by decide
    exact ⟨by decide, fun g hg => .inr (prompt g hg)⟩
  · obtain ⟨-, sigil, hs, spelled⟩ := head?_eq_some_iff.1 found
    apply widen
    rw [spelled]
    exact visible_render_of_head hs converted rendered
  · obtain ⟨-, -, sigil, hs, -⟩ := stream?_eq_some_iff.1 found
    exact visible_render_of_stream hs _ _ rendered
  · cases rendered
    obtain ⟨g, hg, hb⟩ := visible
    exact ⟨⟨g, mem_chomp_of_not_blank hg hb, hb⟩, fun g hg => .inl (mem_of_mem_chomp hg)⟩

/-- No line end comes into the canonical line. -/
theorem Visible.unbroken {line s : Text} (h : Visible line s) (unbroken : line.Unbroken) :
    s.Unbroken := by
  constructor
  · intro feed
    rcases h.kept _ feed with mem | ascii
    · exact unbroken.1 mem
    · exact absurd ascii (by decide)
  · intro ret
    rcases h.kept _ ret with mem | ascii
    · exact unbroken.2 mem
    · exact absurd ascii (by decide)

/-! ## Records that have a line -/

/-- A bare field list inside the fields of the record starts with an entry without an identifier. -/
def HoldsUnkeyed (r : Record) (entries : List (Key × Value)) : Prop :=
  ∃ f, r.payload = .data f ∧ f.HoldsUnkeyed entries

/-- Only fields can keep a record from being written. -/
theorem writtenUnless_of_no_fields {r : Record} {s : Text} (rendered : r.render = .ok s)
    (plain : ∀ f, r.payload ≠ .data f) : WrittenUnless r.HoldsUnkeyed r.render := by
  refine .inl ⟨⟨s, rendered⟩, ?_⟩
  rintro entries ⟨f, payload, -⟩
  exact plain f payload

/-- A record that was read has a canonical line, unless one of these field lists is in its way. -/
theorem writtenUnless {line : Text} {r : Record} (h : read line = .ok r) :
    WrittenUnless r.HoldsUnkeyed r.render := by
  rcases read_eq_ok_cases h with rfl | ⟨head, found, converted⟩ |
      ⟨kind, literal, x, found, -, rfl⟩ | ⟨rfl, -⟩
  · exact writtenUnless_of_no_fields rfl (by simp)
  · obtain ⟨-, sigil, hs, -⟩ := head?_eq_some_iff.1 found
    obtain ⟨token, payload, -, hfields, rfl⟩ := ofHead_eq_ok_iff.1 converted
    rcases fields?_eq_ok_cases hfields with ⟨-, rfl⟩ | ⟨t, f, -, -, rfl⟩
    · exact writtenUnless_of_no_fields (by rw [render, hs]) (by simp)
    · simp only [render, hs]
      refine (f.writtenUnless.map _).congr fun entries => ?_
      simp [HoldsUnkeyed]
  · obtain ⟨-, -, sigil, hs, -⟩ := stream?_eq_some_iff.1 found
    exact writtenUnless_of_no_fields (by rw [render, hs]) (by simp)
  · exact writtenUnless_of_no_fields rfl (by simp)

end Record

end GdbMi
