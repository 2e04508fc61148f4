import GdbMi.Value.Reader

/-!
# The grammar of values

What a text stands for, said without a machine. `Derives p t r` says that the text `t` begins with
the phrase `p` and that `r` is left of it. One glyph decides between the productions, and some of
them look at what follows: fields end before a closing bracket or brace or at the end of the text, a
list ends with its bracket or at the end of the text, and neither of the two ends with the text if
spacing comes before that end. A list whose only item is a bare field list denotes that field list.

A phrase may always begin with spacing (`Derives.spaced`).
-/

namespace GdbMi
set_option autoImplicit false

/-- What the front of a text stands for. -/
inductive Phrase where
  | value (v : Value)
  /-- The items of a list after its opening bracket, with the end of the list. -/
  | items (vs : List Value)
  /-- The entries of fields, up to what ends them. -/
  | fields (entries : List (Key × Value))
  | entry (key : Key) (v : Value)
  /-- Fields between braces. -/
  | map (entries : List (Key × Value))

/-- The text begins with the identifier, which goes on as long as it can. -/
structure IdentifierAt (t : Text) (name : String) (r : Text) : Prop where
  nonempty : name ≠ ""
  run : t.takeWhile Glyph.isIdentifier = Text.ofString name
  rest : t.dropWhile Glyph.isIdentifier = r

/-- A comma that may stand at the front of the text, after spacing, is passed over. -/
inductive CommaPassed : Text → Text → Prop where
  | absent (t : Text) : CommaPassed t t
  | present {t u : Text} : skipSpacing t = Glyph.char ',' :: u → CommaPassed t u

/-- The text begins with the phrase; the last text is what is left. -/
inductive Derives : Phrase → Text → Text → Prop where
  | literal {t r : Text} {s : String} :
      Literal.read (skipSpacing t) = .ok s r → Derives (.value (.text s)) t r
  | list {t u r : Text} {items : List Value} :
      skipSpacing t = Glyph.char '[' :: u → Derives (.items items) u r →
      (∀ entries, items ≠ [.fields false entries]) → Derives (.value (.list items)) t r
  /-- A bare field list in brackets of its own stands for the list. -/
  | unwrapped {t u r : Text} {entries : List (Key × Value)} :
      skipSpacing t = Glyph.char '[' :: u → Derives (.items [.fields false entries]) u r →
      Derives (.value (.fields false entries)) t r
  | map {t r : Text} {entries : List (Key × Value)} :
      Derives (.map entries) t r → Derives (.value (.fields true entries)) t r
  /-- What begins no other value begins bare fields. -/
  | bare {t u r : Text} {g : Glyph} {entries : List (Key × Value)} :
      skipSpacing t = g :: u → g ≠ '"' → g ≠ '[' → g ≠ '\x7b' →
      Derives (.fields entries) t r → Derives (.value (.fields false entries)) t r
  | itemsClosed {t r : Text} : skipSpacing t = Glyph.char ']' :: r → Derives (.items []) t r
  /-- The end of the text ends a list, if no spacing comes before it. -/
  | itemsEnded : Derives (.items []) [] []
  | itemAfterComma {t u r r' : Text} {v : Value} {vs : List Value} :
      skipSpacing t = Glyph.char ',' :: u → Derives (.value v) u r → Derives (.items vs) r r' →
      Derives (.items (v :: vs)) t r'
  | item {t u r r' : Text} {g : Glyph} {v : Value} {vs : List Value} :
      skipSpacing t = g :: u → g ≠ ',' → g ≠ ']' → g ≠ '\x7d' →
      Derives (.value v) t r → Derives (.items vs) r r' → Derives (.items (v :: vs)) t r'
  /-- A bracket or brace ends fields, which leave it unread; spacing before it goes with them. -/
  | fieldsClosed {t u : Text} {g : Glyph} :
      skipSpacing t = g :: u → g = ']' ∨ g = '\x7d' → Derives (.fields []) t (g :: u)
  /-- The end of the text ends fields, if no spacing comes before it. -/
  | fieldsEnded : Derives (.fields []) [] []
  | field {t u r r' : Text} {key : Key} {v : Value} {entries : List (Key × Value)} :
      CommaPassed t u → Derives (.entry key v) u r → Derives (.fields entries) r r' →
      Derives (.fields ((key, v) :: entries)) t r'
  | unnamed {t r : Text} {entries : List (Key × Value)} :
      Derives (.map entries) t r → Derives (.entry .unnamed (.fields true entries)) t r
  | bareString {t r : Text} {s : String} :
      Literal.read (skipSpacing t) = .ok s r → Derives (.entry .bare (.text s)) t r
  | named {t u u' r : Text} {name : String} {v : Value} :
      IdentifierAt (skipSpacing t) name u → skipSpacing u = Glyph.char '=' :: u' →
      Derives (.value v) u' r → Derives (.entry (.named name) v) t r
  | braces {t u r : Text} {entries : List (Key × Value)} :
      skipSpacing t = Glyph.char '\x7b' :: u →
      Derives (.fields entries) u (Glyph.char '\x7d' :: r) → Derives (.map entries) t r

/-- A run of glyphs of one kind ends where a glyph of another kind follows it. -/
theorem span_append {p : Glyph → Bool} {run rest : Text} (all : ∀ g ∈ run, p g = true)
    (other : ∀ g ∈ rest.head?, p g = false) :
    (run ++ rest).takeWhile p = run ∧ (run ++ rest).dropWhile p = rest := by
  rw [List.takeWhile_append_of_pos all, List.dropWhile_append_of_pos all]
  cases rest with
  | nil => exact ⟨List.append_nil run, rfl⟩
  | cons g u =>
    have stop : ¬ p g = true := by simp [other g rfl]
    rw [List.takeWhile_cons_of_neg stop, List.dropWhile_cons_of_neg stop, List.append_nil]
    exact ⟨rfl, rfl⟩

theorem Text.ofString_ofList (l : List Char) : ofString (String.ofList l) = l.map Glyph.char := by
  simp [ofString]

/-- An identifier is cut off after its first character. -/
theorem IdentifierAt.start {t r : Text} {name : String} (h : IdentifierAt t name r) :
    ∃ c more rest, name = String.ofList (c :: more) ∧ t = Glyph.char c :: rest ∧
      (Glyph.char c).isIdentifier = true ∧
      rest.takeWhile Glyph.isIdentifier = more.map Glyph.char ∧
      rest.dropWhile Glyph.isIdentifier = r := by
  obtain ⟨c, more, rfl⟩ : ∃ c more, name = String.ofList (c :: more) := by
    cases eq : name.toList with
    | nil => exact absurd (String.toList_eq_nil_iff.1 eq) h.nonempty
    | cons c more => exact ⟨c, more, by rw [← eq, String.ofList_toList]⟩
  have run := h.run
  rw [Text.ofString_ofList, List.map_cons] at run
  cases t with
  | nil => cases run
  | cons g rest =>
    cases hg : g.isIdentifier with
    | false =>
      rw [List.takeWhile_cons_of_neg (by simp [hg])] at run
      cases run
    | true =>
      rw [List.takeWhile_cons_of_pos hg] at run
      obtain ⟨rfl, tail⟩ := List.cons.inj run
      have left := h.rest
      rw [List.dropWhile_cons_of_pos hg] at left
      exact ⟨c, more, rest, rfl, rfl, hg, tail, left⟩

theorem skipSpacing_cons_of_spacing {g : Glyph} (hg : g.isSpacing = true) (t : Text) :
    skipSpacing (g :: t) = skipSpacing t := by
  simp [skipSpacing, hg]

theorem skipSpacing_cons_of_not_spacing {g : Glyph} (hg : g.isSpacing = false) (t : Text) :
    skipSpacing (g :: t) = g :: t := by
  simp [skipSpacing, hg]

theorem skipSpacing_append_of_spacing {w : Text} (hw : ∀ g ∈ w, g.isSpacing = true) {g : Glyph}
    (hg : g.isSpacing = false) (t : Text) : skipSpacing (w ++ g :: t) = g :: t := by
  rw [skipSpacing, List.dropWhile_append_of_pos hw]
  exact skipSpacing_cons_of_not_spacing hg t

theorem skipSpacing_closer {g : Glyph} (hg : g = ']' ∨ g = '\x7d') (t : Text) :
    skipSpacing (g :: t) = g :: t := by
  rcases hg with rfl | rfl <;> rfl

theorem not_spacing_of_skipSpacing_eq {t u : Text} {g : Glyph} (h : skipSpacing t = g :: u) :
    g.isSpacing = false := by
  have head := List.head?_dropWhile_not Glyph.isSpacing t
  rw [show t.dropWhile Glyph.isSpacing = g :: u from h] at head
  simpa using head

theorem Glyph.not_isSpacing_of_isIdentifier {g : Glyph} (h : g.isIdentifier = true) :
    g.isSpacing = false := by
  cases spacing : g.isSpacing with
  | false => rfl
  | true =>
    simp only [Glyph.isSpacing, Bool.or_eq_true, decide_eq_true_eq] at spacing
    obtain ((rfl | rfl) | rfl) | rfl := spacing <;> exact absurd h (by decide)

/-- An identifier is never the name that unnamed entries are filed under. -/
theorem Key.ofName_of_isIdentifier {c : Char} {l : List Char}
    (hc : (Glyph.char c).isIdentifier = true) :
    Key.ofName (String.ofList (c :: l)) = .named (String.ofList (c :: l)) := by
  unfold Key.ofName
  rw [if_neg]
  intro h
  have head : c :: l = Key.unnamedName.toList := by rw [← h, String.toList_ofList]
  cases head
  exact absurd hc (by decide)

/-- Spacing may come before every phrase, save where the end of the text is due. -/
theorem Derives.spaced {p : Phrase} {t r : Text} (h : Derives p t r) (ht : t ≠ []) {g : Glyph}
    (hg : g.isSpacing = true) : Derives p (g :: t) r := by
  have skip := skipSpacing_cons_of_spacing hg t
  induction h with
  | literal hs => exact .literal (skip ▸ hs)
  | list ht' hi hne => exact .list (skip.trans ht') hi hne
  | unwrapped ht' hi => exact .unwrapped (skip.trans ht') hi
  | map _ ih => exact .map (ih ht skip)
  | bare hg' h₁ h₂ h₃ _ ih => exact .bare (skip.trans hg') h₁ h₂ h₃ (ih ht skip)
  | itemsClosed hr => exact .itemsClosed (skip.trans hr)
  | itemsEnded => exact absurd rfl ht
  | itemAfterComma hu hv hi => exact .itemAfterComma (skip.trans hu) hv hi
  | item hu h₁ h₂ h₃ _ hi ihv => exact .item (skip.trans hu) h₁ h₂ h₃ (ihv ht skip) hi
  | fieldsClosed hu hg' => exact .fieldsClosed (skip.trans hu) hg'
  | fieldsEnded => exact absurd rfl ht
  | field hc he hf ihe =>
    cases hc with
    | absent => exact .field (.absent _) (ihe ht skip) hf
    | present hu => exact .field (.present (skip.trans hu)) he hf
  | unnamed _ ih => exact .unnamed (ih ht skip)
  | bareString hs => exact .bareString (skip ▸ hs)
  | named hn hu hv => exact .named (skip ▸ hn) hu hv
  | braces hu hf => exact .braces (skip.trans hu) hf

/-- At the end of a text only an end is read: that of a list or that of fields. -/
theorem Derives.eq_end_of_nil {p : Phrase} {t r : Text} (h : Derives p t r) (ht : t = []) :
    p = .items [] ∨ p = .fields [] := by
  have skip : skipSpacing t = [] := by rw [ht]; rfl
  have nothing {g : Glyph} {u : Text} (hu : skipSpacing t = g :: u) : False := by
    rw [skip] at hu
    cases hu
  induction h with
  | itemsClosed hu | fieldsClosed hu => exact (nothing hu).elim
  | itemsEnded => exact .inl rfl
  | fieldsEnded => exact .inr rfl
  | literal hs | bareString hs => rw [skip] at hs; cases hs
  | list hu | unwrapped hu | bare hu | itemAfterComma hu | item hu | braces hu =>
    exact (nothing hu).elim
  | map _ ih | unnamed _ ih => rcases ih ht skip nothing with h | h <;> cases h
  | field hc _ _ ih =>
    cases hc with
    | absent => rcases ih ht skip nothing with h | h <;> cases h
    | present hu => exact (nothing hu).elim
  | @named _ _ _ _ name _ hn =>
    have run : Text.ofString "" = Text.ofString name := by rw [← hn.run, skip]; rfl
    exact (hn.nonempty (Text.ofString_inj run).symm).elim

theorem Derives.value_ne_nil {v : Value} {t r : Text} (h : Derives (.value v) t r) : t ≠ [] := by
  intro ht
  rcases h.eq_end_of_nil ht with h | h <;> cases h

theorem Derives.entry_ne_nil {key : Key} {v : Value} {t r : Text} (h : Derives (.entry key v) t r) :
    t ≠ [] := by
  intro ht
  rcases h.eq_end_of_nil ht with h | h <;> cases h

theorem suffix_of_skipSpacing {g : Glyph} {t u : Text} (h : skipSpacing t = g :: u) : u <:+ t := by
  have skipped := skipSpacing_suffix t
  rw [h] at skipped
  exact (List.suffix_cons g u).trans skipped

theorem CommaPassed.suffix {t u : Text} (h : CommaPassed t u) : u <:+ t := by
  cases h with
  | absent => exact List.suffix_refl _
  | present skip => exact suffix_of_skipSpacing skip

theorem IdentifierAt.suffix {t r : Text} {name : String} (h : IdentifierAt t name r) : r <:+ t := by
  have rest := List.dropWhile_suffix (l := t) Glyph.isIdentifier
  rwa [h.rest] at rest

/-- A phrase leaves the end of the text. -/
theorem Derives.suffix {p : Phrase} {t r : Text} (h : Derives p t r) : r <:+ t := by
  induction h with
  | @literal t _ _ read | @bareString t _ _ read =>
    have left := Literal.rest_read_suffix (skipSpacing t)
    rw [read] at left
    exact left.trans (skipSpacing_suffix t)
  | list skip _ _ ih | unwrapped skip _ ih => exact ih.trans (suffix_of_skipSpacing skip)
  | map _ ih | bare _ _ _ _ _ ih | unnamed _ ih => exact ih
  | itemsClosed skip => exact suffix_of_skipSpacing skip
  | itemsEnded | fieldsEnded => exact List.suffix_refl _
  | itemAfterComma skip _ _ value items =>
    exact items.trans (value.trans (suffix_of_skipSpacing skip))
  | item _ _ _ _ _ _ value items => exact items.trans value
  | @fieldsClosed t _ _ skip _ => exact skip ▸ skipSpacing_suffix t
  | field comma _ _ entry fields => exact fields.trans (entry.trans comma.suffix)
  | named name sign _ value =>
    exact value.trans ((suffix_of_skipSpacing sign).trans
      (name.suffix.trans (skipSpacing_suffix _)))
  | braces skip _ ih =>
    exact (List.suffix_cons _ _).trans (ih.trans (suffix_of_skipSpacing skip))

/-- Fields that start with an identifier are an item of a list, which passes over a comma before the
identifier as they do. If the list ends where they end, they are its only item. -/
theorem Derives.only_item {name : String} {v : Value} {entries : List (Key × Value)} {t r r' : Text}
    (fields : Derives (.fields ((.named name, v) :: entries)) t r)
    (ended : Derives (.items []) r r') :
    Derives (.items [.fields false ((.named name, v) :: entries)]) t r' := by
  cases fields with
  | @field _ u _ _ _ _ _ comma entry more =>
    have first : ∃ c w, skipSpacing u = Glyph.char c :: w ∧ (Glyph.char c).isIdentifier = true := by
      cases entry with
      | named at_ =>
        obtain ⟨c, -, w, -, skip, hc, -⟩ := at_.start
        exact ⟨c, w, skip, hc⟩
    obtain ⟨c, w, skip, hc⟩ := first
    have other {d : Char} (hd : (Glyph.char d).isIdentifier = false) :
        Glyph.char c ≠ Glyph.char d := by
      intro eq
      rw [eq, hd] at hc
      cases hc
    have value : Derives (.value (.fields false ((.named name, v) :: entries))) u r :=
      .bare skip (other rfl) (other rfl) (other rfl) (.field (.absent u) entry more)
    cases comma with
    | absent => exact .item skip (other rfl) (other rfl) (other rfl) value ended
    | present comma => exact .itemAfterComma comma value ended

end GdbMi
