import GdbMi.Proofs.Grammar.Soundness
import GdbMi.Value.Stepwise

/-!
# What is derived is read

A text that begins with a phrase takes a state at which the phrase is due to the state after it,
whatever frames stand around (`Phrase.Reads`). The proof is by induction on the derivation, one
production of the grammar after the other. Together with the other direction this makes the grammar
the exact language of reading, at the level of what is left unread (`read_eq_ok_iff`) and for whole
texts.
-/

namespace GdbMi.Reader
set_option autoImplicit false

/-- Fields end at the end of the text, and before a closing bracket or brace. -/
def FieldsEnd (r : Text) : Prop :=
  r = [] ∨ ∃ g u, r = g :: u ∧ (g = ']' ∨ g = '\x7d')

/-- What reading makes of a text that begins with the phrase. -/
def Phrase.Reads (p : Phrase) (t r : Text) : Prop :=
  match p with
  | .value v => ∀ around, run (.value around) t = run (deliver v around) r
  | .items vs => ∀ held around,
    run (.items false held around) t = run (deliver (ofItems (held.reverse ++ vs)) around) r
  | .fields entries => FieldsEnd r ∧ ∀ fence held around,
    run (.entries false fence held around) t
      = run (.entries false fence (entries.reverse ++ held) around) r
  | .entry key v => ∀ fence held around,
    run (.entry fence held around) t = run (deliver v (.field fence held key :: around)) r
  | .map entries => ∃ u, skipSpacing t = Glyph.char '\x7b' :: u ∧ ∀ around,
    run (.openMap around) u = run (deliver (.fields true entries) around) r

theorem run_cons_congr {s s' : State} {g : Glyph} (h : s.step g = s'.step g) (t : Text) :
    run s (g :: t) = run s' (g :: t) := by
  simp only [run, h]

theorem run_nil_congr {s s' : State} (h : s.atEnd = s'.atEnd) : run s [] = run s' [] := by
  simp only [run, h]

/-- A state that spacing does not change reads on after it. -/
theorem run_skipSpacing {s : State} (idle : ∀ g : Glyph, g.isSpacing = true → s.step g = .go s)
    (t : Text) : run s t = run s (skipSpacing t) := by
  induction t with
  | nil => rfl
  | cons g t ih =>
    cases hg : g.isSpacing with
    | true =>
      rw [skipSpacing_cons_of_spacing hg, ← ih]
      simp only [run, idle g hg]
    | false => rw [skipSpacing_cons_of_not_spacing hg]

section
variable {t u r : Text} {g : Glyph} (fence : Fence) (held : List (Key × Value))
  (around : List Frame)

theorem run_value_skipSpacing : run (.value around) t = run (.value around) (skipSpacing t) := by
  apply run_skipSpacing
  intro g hg
  simp [State.step, State.stepValue, hg]

theorem run_entry_skipSpacing :
    run (.entry fence held around) t = run (.entry fence held around) (skipSpacing t) := by
  apply run_skipSpacing
  intro g hg
  simp [State.step, State.stepEntry, hg]

theorem run_equals_skipSpacing (name : String) :
    run (.equals fence held name around) t
      = run (.equals fence held name around) (skipSpacing t) := by
  apply run_skipSpacing
  intro g hg
  simp [State.step, State.stepEquals, hg]

/-- Spacing between items changes nothing but what the end of the text means. -/
theorem run_items_skipSpacing (spaced : Bool) (items : List Value) (h : skipSpacing t = g :: u) :
    run (.items spaced items around) t = run (.items true items around) (g :: u) := by
  have idle (g : Glyph) (hg : g.isSpacing = true) :
      (State.items true items around).step g = .go (.items true items around) := by
    simp [State.step, State.stepItems, hg]
  cases t with
  | nil => cases h
  | cons g' t =>
    have same : run (.items spaced items around) (g' :: t)
        = run (.items true items around) (g' :: t) := run_cons_congr rfl t
    rw [same, run_skipSpacing idle (g' :: t), h]

/-- Spacing between entries changes nothing but what the end of the text means. -/
theorem run_entries_skipSpacing (spaced : Bool) (h : skipSpacing t = g :: u) :
    run (.entries spaced fence held around) t = run (.entries true fence held around) (g :: u) := by
  have idle (g : Glyph) (hg : g.isSpacing = true) :
      (State.entries true fence held around).step g = .go (.entries true fence held around) := by
    simp [State.step, State.stepEntries, hg]
  cases t with
  | nil => cases h
  | cons g' t =>
    have same : run (.entries spaced fence held around) (g' :: t)
        = run (.entries true fence held around) (g' :: t) := run_cons_congr rfl t
    rw [same, run_skipSpacing idle (g' :: t), h]

/-- Where fields end they are handed to the frames around them. -/
theorem run_entries_of_end {fence : Fence} (hf : fence ≠ .braces) (hr : FieldsEnd r) :
    run (.entries false fence held around) r = run (deliver (fence.fields held) around) r := by
  rcases hr with rfl | ⟨g, u, rfl, hg⟩
  · apply run_nil_congr
    rw [← finish_eq_atEnd_deliver]
    simp [State.atEnd, Fence.atEnd, hf]
  · have spacing : g.isSpacing = false := by rcases hg with rfl | rfl <;> rfl
    have step : (State.entries false fence held around).step g = close g fence held around := by
      simp [State.step, State.stepEntries, spacing, hg]
    apply run_cons_congr
    rw [step, step_deliver_fields hg held hf around]

/-- A closing brace ends the fields between braces. -/
theorem run_closing_brace (spaced : Bool) (r : Text) :
    run (.entries spaced .braces held around) (Glyph.char '\x7d' :: r)
      = run (deliver (Fence.braces.fields held) around) r := by
  have spacing : (Glyph.char '\x7d').isSpacing = false := rfl
  simp [run, State.step, State.stepEntries, spacing, close]

/-- An identifier is read to its end. -/
theorem run_identifier {more : List Char} (name : List Char)
    (h : t.takeWhile Glyph.isIdentifier = more.map Glyph.char) :
    run (.identifier fence held name around) t
      = run (.equals fence held (String.ofList (name.reverse ++ more)) around)
          (t.dropWhile Glyph.isIdentifier) := by
  induction t generalizing name more with
  | nil =>
    obtain rfl : more = [] := by simpa using h.symm
    simp [run, State.atEnd]
  | cons g t ih =>
    cases hg : g.isIdentifier with
    | true =>
      rw [List.takeWhile_cons_of_pos hg] at h
      cases more with
      | nil => cases h
      | cons c more =>
        obtain ⟨rfl, tail⟩ := List.cons.inj h
        have name_cons : name.reverse ++ c :: more = (c :: name).reverse ++ more := by simp
        rw [List.dropWhile_cons_of_pos hg, name_cons, ← ih (c :: name) tail]
        simp [run, State.step, State.stepIdentifier, hg]
    | false =>
      obtain rfl : more = [] := by simpa [hg] using h.symm
      rw [List.dropWhile_cons_of_neg (by simp [hg]), List.append_nil]
      apply run_cons_congr
      cases g with
      | char c => simp [State.step, State.stepIdentifier, hg]
      | stray b => rfl

end

/-- A literal is read after its opening quote and handed to the frames around it. -/
theorem run_opening_quote {u r : Text} {bytes : List UInt8} (h : Literal.scan {} u = .ok bytes r)
    (around : List Frame) :
    run (.literal {} around) u = run (deliver (.text (Utf8.decodeLossy bytes)) around) r := by
  rw [run_literal, h]
  rfl

theorem ofItems_of_ne {items : List Value} (h : ∀ entries, items ≠ [.fields false entries]) :
    ofItems items = .list items := by
  unfold ofItems
  split
  · next entries => exact absurd rfl (h entries)
  · rfl

/-- An entry with an identifier is read up to the sign after it. -/
theorem run_entry_identifier {t u : Text} {name : String} (fence : Fence)
    (held : List (Key × Value)) (around : List Frame) (h : IdentifierAt t name u) :
    run (.entry fence held around) t = run (.equals fence held name around) u := by
  obtain ⟨c, more, rest, rfl, rfl, hc, run_rest, rfl⟩ := h.start
  have spacing := Glyph.not_isSpacing_of_isIdentifier hc
  have first : (State.entry fence held around).step (Glyph.char c)
      = .go (.identifier fence held [c] around) := by
    have brace : Glyph.char c ≠ '\x7b' := by rintro ⟨⟩; exact absurd hc (by decide)
    have quote : Glyph.char c ≠ '"' := by rintro ⟨⟩; exact absurd hc (by decide)
    simp [State.step, State.stepEntry, spacing, brace, quote, hc]
  refine Eq.trans ?_ (run_identifier fence held around [c] run_rest)
  simp only [run, first]

/-- What may follow an entry begins none, and its first glyph tells whether it has an identifier. -/
theorem entry_start {key : Key} {v : Value} {t r : Text} (h : Derives (.entry key v) t r) :
    ∃ g u, skipSpacing t = g :: u ∧ g ≠ ']' ∧ g ≠ '\x7d' ∧ g ≠ ',' ∧
      (key.isUnkeyed = true ↔ g = '"' ∨ g = '\x7b') := by
  cases h with
  | unnamed hm =>
    cases hm with
    | braces hu =>
      exact ⟨_, _, hu, by decide, by decide, by decide, fun _ => .inr rfl, fun _ => rfl⟩
  | bareString hs =>
    obtain ⟨u, _, hu, -, -⟩ := Literal.read_eq_ok_iff.1 hs
    exact ⟨_, u, hu, by decide, by decide, by decide, fun _ => .inl rfl, fun _ => rfl⟩
  | named hn =>
    obtain ⟨c, -, rest, -, hu, hc, -, -⟩ := hn.start
    have other {d : Char} (hd : (Glyph.char d).isIdentifier = false) :
        Glyph.char c ≠ Glyph.char d := by
      intro eq
      rw [eq, hd] at hc
      cases hc
    exact ⟨_, rest, hu, other rfl, other rfl, other rfl, nofun,
      fun first => (first.elim (other rfl) (other rfl)).elim⟩

/-- A text that begins with a phrase is read as that phrase. -/
theorem reads_of_derives {p : Phrase} {t r : Text} (h : Derives p t r) : Phrase.Reads p t r := by
  induction h with
  | literal hs =>
    intro around
    obtain ⟨u, bytes, hu, scanned, rfl⟩ := Literal.read_eq_ok_iff.1 hs
    rw [run_value_skipSpacing, hu]
    exact run_opening_quote scanned around
  | list hu _ hne ih =>
    intro around
    rw [run_value_skipSpacing, hu]
    refine (ih [] around).trans ?_
    rw [List.reverse_nil, List.nil_append, ofItems_of_ne hne]
  | unwrapped hu _ ih =>
    intro around
    rw [run_value_skipSpacing, hu]
    exact ih [] around
  | map _ ih =>
    intro around
    obtain ⟨u, hu, ih⟩ := ih
    rw [run_value_skipSpacing, hu]
    exact ih around
  | @bare t u r g entries hu h₁ h₂ h₃ _ ih =>
    intro around
    have spacing := not_spacing_of_skipSpacing_eq hu
    have step : (State.value around).step g = (State.entries true .bare [] around).step g := by
      simp [State.step, State.stepValue, spacing, h₁, h₂, h₃]
    calc run (.value around) t
      _ = run (.entries true .bare [] around) (g :: u) := by
        rw [run_value_skipSpacing, hu, run_cons_congr step]
      _ = run (.entries false .bare [] around) t := (run_entries_skipSpacing _ _ _ _ hu).symm
      _ = run (.entries false .bare (entries.reverse ++ []) around) r := ih.2 _ _ _
      _ = run (deliver (.fields false entries) around) r := by
        have bare : Fence.bare ≠ .braces := by decide
        rw [run_entries_of_end _ _ bare ih.1]
        simp [Fence.fields, Fence.isEnclosed]
  | itemsClosed hr =>
    intro held around
    rw [run_items_skipSpacing around false held hr, List.append_nil]
    rfl
  | itemsEnded =>
    intro held around
    apply run_nil_congr
    rw [← finish_eq_atEnd_deliver, List.append_nil]
    rfl
  | @itemAfterComma t u r r' v vs hu _ _ ihv ihi =>
    intro held around
    calc run (.items false held around) t
      _ = run (.items true held around) (Glyph.char ',' :: u) := run_items_skipSpacing _ _ _ hu
      _ = run (.value (.list held :: around)) u := rfl
      _ = run (.items false (v :: held) around) r := ihv _
      _ = _ := by rw [ihi]; simp
  | @item t u r r' g v vs hu h₁ h₂ h₃ _ _ ihv ihi =>
    intro held around
    have spacing := not_spacing_of_skipSpacing_eq hu
    have step :
        (State.items true held around).step g = (State.value (.list held :: around)).step g := by
      simp [State.step, State.stepItems, spacing, h₁, h₂, h₃]
    calc run (.items false held around) t
      _ = run (.items true held around) (g :: u) := run_items_skipSpacing _ _ _ hu
      _ = run (.value (.list held :: around)) t := by
        rw [run_cons_congr step, run_value_skipSpacing (t := t), hu]
      _ = run (.items false (v :: held) around) r := ihv _
      _ = _ := by rw [ihi]; simp
  | fieldsClosed hu hg =>
    refine ⟨.inr ⟨_, _, rfl, hg⟩, ?_⟩
    intro fence held around
    rw [run_entries_skipSpacing fence held around false hu]
    exact run_cons_congr rfl _
  | fieldsEnded => exact ⟨.inl rfl, fun _ _ _ => rfl⟩
  | @field t u r r' key v entries hc he _ ihe ihf =>
    refine ⟨ihf.1, ?_⟩
    intro fence held around
    have passed : run (.entries false fence held around) t = run (.entry fence held around) u := by
      cases hc with
      | present hu =>
        rw [run_entries_skipSpacing fence held around false hu]
        rfl
      | absent =>
        obtain ⟨g, u, hu, h₁, h₂, h₃, -⟩ := entry_start he
        have spacing := not_spacing_of_skipSpacing_eq hu
        have step : (State.entries true fence held around).step g
            = (State.entry fence held around).step g := by
          simp [State.step, State.stepEntries, spacing, h₁, h₂, h₃]
        rw [run_entries_skipSpacing fence held around false hu, run_cons_congr step,
          run_entry_skipSpacing fence held around (t := t), hu]
    rw [passed, ihe, deliver, ihf.2]
    simp
  | unnamed _ ih =>
    intro fence held around
    obtain ⟨u, hu, ih⟩ := ih
    rw [run_entry_skipSpacing, hu]
    exact ih _
  | bareString hs =>
    intro fence held around
    obtain ⟨u, bytes, hu, scanned, rfl⟩ := Literal.read_eq_ok_iff.1 hs
    rw [run_entry_skipSpacing, hu]
    exact run_opening_quote scanned (.field fence held .bare :: around)
  | @named t u u' r name v hn hu _ ih =>
    intro fence held around
    obtain ⟨c, more, -, rfl, -, hc, -, -⟩ := hn.start
    have key := Key.ofName_of_isIdentifier (l := more) hc
    rw [run_entry_skipSpacing, run_entry_identifier fence held around hn, run_equals_skipSpacing,
      hu, ← key]
    exact ih _
  | @braces t u r entries hu _ ih =>
    refine ⟨u, hu, ?_⟩
    intro around
    calc run (.openMap around) u
      _ = run (.entries false .braces (entries.reverse ++ []) around) (Glyph.char '\x7d' :: r) :=
        ih.2 _ _ _
      _ = run (deliver (Fence.braces.fields (entries.reverse ++ [])) around) r :=
        run_closing_brace _ _ _ r
      _ = run (deliver (.fields true entries) around) r := by
        simp [Fence.fields, Fence.isEnclosed]

end GdbMi.Reader

namespace GdbMi

open Reader

/-- The value at the front of a text and what is left of the text are those of the grammar. -/
theorem Value.read_eq_ok_iff {t r : Text} {v : Value} :
    Value.read t = .ok v r ↔ Derives (.value v) t r := by
  constructor
  · exact derives_of_run_value
  · intro h
    have reads : Phrase.Reads (.value v) t r := reads_of_derives h
    rw [Value.read, reads []]
    exact run_done v r

/-- The fields at the front of a text and what is left of the text are those of the grammar. -/
theorem FieldList.read_eq_ok_iff {enclosed : Bool} {t r : Text} {f : FieldList} :
    FieldList.read enclosed t = .ok f r ↔
      f.enclosed = enclosed ∧ Derives (.fields f.entries) t r := by
  have fence : (if enclosed then Fence.inside else .bare) ≠ .braces := by
    cases enclosed <;> decide
  simp only [FieldList.read]
  constructor
  · intro h
    cases ran : run (.entries false (if enclosed then .inside else .bare) [] []) t with
    | fail e rest =>
      rw [ran] at h
      cases h
    | ok v rest =>
      obtain ⟨entries, rfl, derived⟩ := derives_of_run_entries fence ran
      rw [ran] at h
      cases h
      exact ⟨rfl, derived⟩
  · obtain ⟨_, entries⟩ := f
    rintro ⟨rfl, h⟩
    obtain ⟨ended, reads⟩ : Phrase.Reads (.fields entries) t r := reads_of_derives h
    rw [reads, run_entries_of_end _ _ fence ended]
    simp [deliver, run_done, Reading.map, Fence.fields, Value.entries]

/-- What a sign opens is read as a value from the sign on. -/
theorem Reader.run_of_opened {k : Token} {sign : Glyph} (hk : k.sign? = some sign) {s : State}
    (opens : ∀ u, run (.value []) (sign :: u) = run s u) {t r : Text} {v : Value}
    (h : ((k.read (skipSpacing t)).andThen fun _ rest => run s rest) = .ok v r) :
    Value.read t = .ok v r := by
  cases opened : k.read (skipSpacing t) with
  | fail e rest =>
    rw [opened] at h
    cases h
  | ok lexeme rest =>
    rw [opened] at h
    have skip := ((Token.read_eq_ok_iff_of_sign hk).1 opened).1
    rw [Value.read, run_value_skipSpacing, skip, opens]
    exact h

/-- Every value that is read, by whatever command, is one of the grammar or the fields of one. -/
theorem Command.derives_of_run {c : Command} {t r : Text} {v : Value}
    (h : c.run t = .ok (.value v) r) :
    Derives (.value v) t r ∨
      ∃ enclosed entries, v = .fields enclosed entries ∧ Derives (.fields entries) t r := by
  cases c with
  | value =>
    obtain ⟨w, read, eq⟩ := Reading.map_eq_ok_iff.1 h
    cases eq
    exact .inl (Value.read_eq_ok_iff.1 read)
  | list =>
    obtain ⟨w, read, eq⟩ := Reading.map_eq_ok_iff.1 h
    cases eq
    have value := Reader.run_of_opened (k := .listOpen) rfl (fun _ => rfl) read
    exact .inl (Value.read_eq_ok_iff.1 value)
  | map =>
    obtain ⟨w, read, eq⟩ := Reading.map_eq_ok_iff.1 h
    cases eq
    have value := Reader.run_of_opened (k := .mapOpen) rfl (fun _ => rfl) read
    exact .inl (Value.read_eq_ok_iff.1 value)
  | fields enclosed =>
    obtain ⟨f, read, eq⟩ := Reading.map_eq_ok_iff.1 h
    cases eq
    exact .inr ⟨_, _, rfl, (FieldList.read_eq_ok_iff.1 read).2⟩
  | token k skipping | string =>
    obtain ⟨w, -, eq⟩ := Reading.map_eq_ok_iff.1 h
    cases eq
  | skipSpacing | remaining | hasRemaining => cases h
  | peek skipping =>
    rw [run, peekAt.eq_def] at h
    split at h <;> cases h
  | next =>
    rw [run, nextAt.eq_def] at h
    split at h <;> cases h
  | checkEnd skipping =>
    rw [run, checkEndAt.eq_def] at h
    split at h <;> cases h

theorem Value.parse_eq_ok_iff {t : Text} {v : Value} :
    Value.parse t = .ok v ↔ ∃ r, Derives (.value v) t r ∧ skipSpacing r = [] := by
  simp only [Value.parse, Reading.whole_eq_ok_iff, Value.read_eq_ok_iff]

theorem FieldList.parse_eq_ok_iff {t : Text} {f : FieldList} :
    FieldList.parse t = .ok f ↔
      f.enclosed = false ∧ ∃ r, Derives (.fields f.entries) t r ∧ skipSpacing r = [] := by
  simp only [FieldList.parse, Reading.whole_eq_ok_iff, FieldList.read_eq_ok_iff]
  constructor
  · rintro ⟨r, ⟨bare, derived⟩, rest⟩
    exact ⟨bare, r, derived, rest⟩
  · rintro ⟨bare, r, derived, rest⟩
    exact ⟨r, ⟨bare, derived⟩, rest⟩

/-- **The language of values and of fields.** A text is read as a value exactly if it is that value
of the grammar and spacing after it, and as a field list exactly if it is those fields, bare, and
spacing after them; every other text is refused. -/
theorem parse_ok_iff_derives :
    (∀ t v, Value.parse t = .ok v ↔ ∃ r, Derives (.value v) t r ∧ skipSpacing r = []) ∧
      ∀ t f, FieldList.parse t = .ok f ↔
        f.enclosed = false ∧ ∃ r, Derives (.fields f.entries) t r ∧ skipSpacing r = [] :=
  ⟨fun _ _ => Value.parse_eq_ok_iff, fun _ _ => FieldList.parse_eq_ok_iff⟩

end GdbMi
