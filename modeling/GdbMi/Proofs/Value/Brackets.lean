import GdbMi.Proofs.Value.RoundTrip

/-!
# Field lists in brackets

A bare field list can be read from brackets of its own, one pair inside the other. Behind each
bracket the list passes over a comma, as if it came before an item, and behind the innermost one the
fields pass over a comma of their own. Where both stand, the glyph behind them is read as the start
of an entry and no longer as that of an item, so a literal or a map gives an entry without
identifier; everywhere else the first entry has one (`first_key_in_brackets`).

`Phrase.KeyedAsOpened` is what the induction on a derivation carries.
-/

namespace GdbMi
set_option autoImplicit false

/-- The text begins with a literal or a map, which has no identifier before it. -/
def UnkeyedAhead (t : Text) : Prop :=
  ∃ g u, skipSpacing t = g :: u ∧ (g = '"' ∨ g = '\x7b')

/-- Behind a bracket, and any brackets inside it, stand two commas and what has no identifier. -/
inductive UnkeyedInside : Text → Prop where
  | here {t u w : Text} : skipSpacing t = Glyph.char ',' :: u →
      skipSpacing u = Glyph.char ',' :: w → UnkeyedAhead w → UnkeyedInside t
  | deeper {t u w : Text} : CommaPassed t u → skipSpacing u = Glyph.char '[' :: w →
      UnkeyedInside w → UnkeyedInside t

theorem unkeyedInside_iff {t : Text} :
    UnkeyedInside t ↔
      (∃ u, skipSpacing t = Glyph.char ',' :: u ∧
        ((∃ w, skipSpacing u = Glyph.char ',' :: w ∧ UnkeyedAhead w) ∨
          ∃ w, skipSpacing u = Glyph.char '[' :: w ∧ UnkeyedInside w)) ∨
      ∃ w, skipSpacing t = Glyph.char '[' :: w ∧ UnkeyedInside w := by
  constructor
  · intro h
    cases h with
    | here first second starts => exact .inl ⟨_, first, .inl ⟨_, second, starts⟩⟩
    | deeper comma bracket inside =>
      cases comma with
      | absent => exact .inr ⟨_, bracket, inside⟩
      | present first => exact .inl ⟨_, first, .inr ⟨_, bracket, inside⟩⟩
  · rintro (⟨u, first, ⟨w, second, starts⟩ | ⟨w, bracket, inside⟩⟩ | ⟨w, bracket, inside⟩)
    · exact .here first second starts
    · exact .deeper (.present first) bracket inside
    · exact .deeper (.absent t) bracket inside

theorem Derives.isUnkeyed_iff {key : Key} {v : Value} {t r : Text}
    (h : Derives (.entry key v) t r) : key.isUnkeyed = true ↔ UnkeyedAhead t := by
  obtain ⟨g, u, first, -, -, -, unkeyed⟩ := Reader.entry_start h
  rw [unkeyed]
  constructor
  · exact fun starts => ⟨g, u, first, starts⟩
  · rintro ⟨g', u', first', starts⟩
    rw [first] at first'
    cases first'
    exact starts

/-- Fields that begin no other value have an identifier first, unless a comma comes before it. -/
theorem Derives.isUnkeyed_iff_of_bare {key : Key} {v : Value} {entries : List (Key × Value)}
    {t u r : Text} {g : Glyph} (first : skipSpacing t = g :: u) (noQuote : g ≠ '"')
    (noBrace : g ≠ '\x7b') (h : Derives (.fields ((key, v) :: entries)) t r) :
    key.isUnkeyed = true ↔ ∃ w, skipSpacing t = Glyph.char ',' :: w ∧ UnkeyedAhead w := by
  cases h with
  | field comma entry =>
    cases comma with
    | absent =>
      obtain ⟨g', u', first', -, -, noComma, unkeyed⟩ := Reader.entry_start entry
      rw [first] at first'
      cases first'
      simp [first, noComma, unkeyed, noQuote, noBrace]
    | present comma => simp [comma, entry.isUnkeyed_iff]

/-- The first key of a field list in brackets is as what stands behind the brackets says. -/
def Phrase.KeyedAsOpened (t : Text) : Phrase → Prop
  | .value (.fields false ((key, _) :: _)) =>
    ∀ u, skipSpacing t = Glyph.char '[' :: u → (key.isUnkeyed = true ↔ UnkeyedInside u)
  | .items (.fields false ((key, _) :: _) :: _) => key.isUnkeyed = true ↔ UnkeyedInside t
  | _ => True

/-- A value in a list is bare fields, or it opens brackets. -/
theorem Derives.isUnkeyed_iff_of_value {key : Key} {v : Value} {entries : List (Key × Value)}
    {t r : Text} (h : Derives (.value (.fields false ((key, v) :: entries))) t r)
    (opened : (Phrase.value (.fields false ((key, v) :: entries))).KeyedAsOpened t) :
    key.isUnkeyed = true ↔
      (∃ w, skipSpacing t = Glyph.char ',' :: w ∧ UnkeyedAhead w) ∨
        ∃ w, skipSpacing t = Glyph.char '[' :: w ∧ UnkeyedInside w := by
  cases h with
  | unwrapped bracket items =>
    rw [opened _ bracket]
    simp [bracket]
  | bare first noQuote noBracket noBrace fields =>
    rw [fields.isUnkeyed_iff_of_bare first noQuote noBrace]
    simp [first, noBracket]

theorem Phrase.KeyedAsOpened.items {t : Text} {v : Value} {vs : List Value}
    (h : ∀ key w entries, v = .fields false ((key, w) :: entries) →
      (key.isUnkeyed = true ↔ UnkeyedInside t)) : (Phrase.items (v :: vs)).KeyedAsOpened t := by
  unfold KeyedAsOpened
  split
  · next eq => cases eq
  · next key w entries vs' eq =>
    cases eq
    exact h key w entries rfl
  · trivial

theorem keyedAsOpened_of_derives {p : Phrase} {t r : Text} (h : Derives p t r) :
    p.KeyedAsOpened t := by
  induction h with
  | @unwrapped t u r entries opens items ih =>
    cases entries with
    | nil => trivial
    | cons e entries =>
      intro w bracket
      rw [opens] at bracket
      cases bracket
      exact ih
  | @bare t u r g entries first noQuote noBracket noBrace fields =>
    cases entries with
    | nil => trivial
    | cons e entries =>
      intro w bracket
      rw [first] at bracket
      cases bracket
      exact absurd rfl noBracket
  | itemAfterComma comma value items ihv =>
    refine .items fun key w entries eq => ?_
    subst eq
    rw [value.isUnkeyed_iff_of_value ihv, unkeyedInside_iff]
    simp [comma]
  | item first noComma noBracket noBrace value items ihv =>
    refine .items fun key w entries eq => ?_
    subst eq
    rw [value.isUnkeyed_iff_of_value ihv, unkeyedInside_iff]
    simp [first, noComma]
  | literal | list | map | itemsClosed | itemsEnded | fieldsClosed | fieldsEnded | field | unnamed
  | bareString | named | braces => trivial

/-- **Field lists in brackets.** If a text that opens with a bracket is read as a field list, that
list is bare, and its first entry has an identifier unless behind the innermost bracket a second
comma stands, and no identifier behind it. -/
theorem first_key_in_brackets {t u : Text} {enclosed : Bool} {key : Key} {v : Value}
    {entries : List (Key × Value)} (bracket : skipSpacing t = Glyph.char '[' :: u)
    (h : Value.parse t = .ok (.fields enclosed ((key, v) :: entries))) :
    enclosed = false ∧ ((∃ name, key = .named name ∧ IsIdentifier name) ↔ ¬ UnkeyedInside u) := by
  obtain ⟨r, derived, -⟩ := Value.parse_eq_ok_iff.1 h
  obtain rfl : enclosed = false := by
    cases derived with
    | unwrapped => rfl
    | bare => rfl
    | map map =>
      cases map with
      | braces brace =>
        rw [bracket] at brace
        cases brace
  have asOpened := keyedAsOpened_of_derives derived u bracket
  have takes := (Value.shaped_fields_iff.1 (Value.shaped_of_parse h) _ List.mem_cons_self).1
  refine ⟨rfl, ?_⟩
  rw [← asOpened]
  cases key with
  | named name =>
    have identifier : IsIdentifier name := takes
    simp [Key.isUnkeyed, identifier]
  | unnamed | bare => simp [Key.isUnkeyed]

/-- The second comma makes the difference, in brackets inside brackets too. -/
theorem first_key_in_brackets_literal :
    ¬ UnkeyedInside (Text.ofString "[,a=\"x\"]]") ∧
      UnkeyedInside (Text.ofString "[,,\"x\"]]") := by
  have named : Value.parse (Text.ofString "[[,a=\"x\"]]")
      = .ok (.fields false [(.named "a", .text "x")]) := rfl
  have bare : Value.parse (Text.ofString "[[,,\"x\"]]")
      = .ok (.fields false [(.bare, .text "x")]) := rfl
  constructor
  · exact (first_key_in_brackets rfl named).2.1 ⟨"a", rfl, by decide⟩
  · by_contra inside
    obtain ⟨name, eq, -⟩ := (first_key_in_brackets rfl bare).2.2 inside
    cases eq

/-- Fields behind a bracket and two commas stand for the list, whatever they start with: each field
list that is written at the top can be read from brackets. -/
theorem FieldList.parse_after_commas {f : FieldList} (bare : f.enclosed = false)
    (h : f.toValue.Shaped) (nonempty : f.entries ≠ []) {s : Text} (hs : f.render = .ok s) :
    Value.parse (Text.ofString "[,," ++ s ++ Text.ofString "]") = .ok f.normal.toValue := by
  obtain ⟨parts, hp, rfl⟩ := FieldList.render_eq_ok_iff.1 hs
  have spelled := FieldList.forall₂_spelledBy h hp
  have fields := derives_afterCommas_fields spelled
    (r := [Glyph.char ']']) (.inr ⟨_, _, rfl, .inl rfl⟩)
  obtain ⟨part, more, rfl⟩ : ∃ part more, parts = part :: more := by
    cases parts with
    | nil =>
      rw [List.forall₂_nil_right_iff, normal, Value.normalEntries_eq_map, List.map_eq_nil_iff]
        at spelled
      exact absurd spelled nonempty
    | cons part more => exact ⟨part, more, rfl⟩
  have text : Text.ofString "[,," ++ separated (part :: more) ++ Text.ofString "]"
      = Glyph.char '[' :: Glyph.char ',' :: (afterCommas (part :: more) ++ [Glyph.char ']']) := by
    simp [separated_cons, afterCommas_cons_append, Text.ofString]
  have value : Derives (.value (.fields false f.normal.entries))
      (afterCommas (part :: more) ++ [Glyph.char ']']) [Glyph.char ']'] :=
    .bare rfl (by decide) (by decide) (by decide) fields
  have items : Derives (.items [.fields false f.normal.entries])
      (Glyph.char ',' :: (afterCommas (part :: more) ++ [Glyph.char ']'])) [] :=
    .itemAfterComma rfl value (.itemsClosed rfl)
  have toValue : f.normal.toValue = .fields false f.normal.entries := by
    rw [FieldList.toValue, normal, bare]
  rw [text, toValue]
  exact Value.parse_eq_ok_iff.2 ⟨[], .unwrapped rfl items, rfl⟩

/-- A literal behind two commas is an entry without identifier. -/
theorem not_forall_identifier_in_brackets :
    ¬ ∀ t u enclosed key v entries, skipSpacing t = Glyph.char '[' :: u →
      Value.parse t = .ok (.fields enclosed ((key, v) :: entries)) →
        ∃ name, key = .named name ∧ IsIdentifier name := by
  intro h
  let f : FieldList := { enclosed := false, entries := [(.bare, .text "x")] }
  have shaped : f.toValue.Shaped :=
    FieldList.shaped_of_parse (t := Text.ofString "\"x\"") (f := f) rfl
  have read := FieldList.parse_after_commas rfl shaped (List.cons_ne_nil _ _)
    (s := Text.ofString "\"x\"") rfl
  obtain ⟨name, named, -⟩ := h _ (Text.ofString ",,\"x\"]") _ _ _ _ rfl read
  cases named

end GdbMi
