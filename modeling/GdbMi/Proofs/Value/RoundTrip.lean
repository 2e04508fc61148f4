import GdbMi.Literal.RoundTrip
import GdbMi.Proofs.Value.Spelling
import GdbMi.Proofs.Value.Unwrapped

/-!
# Reading canonical text

The canonical text of a value whose keys take its values is a derivation of the value that
`Value.asRead` names, whatever follows the text (`Value.readsBack`). The induction is on how the
value is keyed: it supplies the keys that are identifiers and the entries without a key that are
maps and strings. For a value that was read, that is its normal value (`read_of_render`).
-/

namespace GdbMi
set_option autoImplicit false

open Reader

/-- The glyph is one that a value other than bare fields begins with. -/
def OpensValue (g : Glyph) : Prop := g = '"' ∨ g = '[' ∨ g = '\x7b'

theorem OpensValue.skipSpacing_eq {g : Glyph} (hg : OpensValue g) (t : Text) :
    skipSpacing (g :: t) = g :: t := by
  rcases hg with rfl | rfl | rfl <;> rfl

/-- The canonical text of a value stands between two quotes, brackets or braces. -/
theorem Value.delimited_of_render {v : Value} {s : Text} (h : v.render = .ok s) :
    ∃ (left right : Glyph) (inner : Text), s = left :: (inner ++ [right]) ∧ OpensValue left ∧
      (right = '"' ∨ right = ']' ∨ right = '\x7d') := by
  match v with
  | .text x =>
    rw [Value.render] at h
    cases h
    exact ⟨_, Glyph.char '"', _, rfl, .inl rfl, .inl rfl⟩
  | .list items =>
    obtain ⟨parts, -, rfl⟩ := Value.render_list_eq_ok_iff.1 h
    exact ⟨_, Glyph.char ']', _, rfl, .inr (.inl rfl), .inr (.inl rfl)⟩
  | .fields true entries =>
    obtain ⟨parts, -, rfl⟩ := Value.render_map_eq_ok_iff.1 h
    exact ⟨_, Glyph.char '\x7d', _, rfl, .inr (.inr rfl), .inr (.inr rfl)⟩
  | .fields false entries =>
    obtain ⟨-, parts, -, rfl⟩ := Value.render_bare_eq_ok_iff.1 h
    exact ⟨_, Glyph.char ']', _, rfl, .inr (.inl rfl), .inr (.inl rfl)⟩

/-- The canonical text of the value, if there is one, spells what the value is read as. -/
def Value.ReadsBack (v : Value) : Prop := ∀ s, v.render = .ok s → v.asRead.SpelledBy s

/-! ## The parts of aggregates -/

/-- A key takes what the value is read as if it takes the value. -/
theorem Key.Takes.asRead {key : Key} {v : Value} (h : key.Takes v) : key.Takes v.asRead := by
  match key, v, h with
  | .named name, v, identifier => exact identifier
  | .unnamed, .fields true entries, _ =>
    rw [Value.asRead_map]
    trivial
  | .bare, .text x, _ => trivial

theorem spelledBy_of_renderItems {items : List Value} (h : ∀ v ∈ items, v.ReadsBack)
    {parts : List Text} (hp : Value.renderItems items = .ok parts) :
    List.Forall₂ Value.SpelledBy (items.map Value.asRead) parts := by
  induction items generalizing parts with
  | nil =>
    cases hp
    exact .nil
  | cons v items ih =>
    obtain ⟨s, rest, hs, hrest, rfl⟩ := Value.renderItems_cons_eq_ok_iff.1 hp
    rw [List.forall_mem_cons] at h
    exact .cons (h.1 s hs) (ih h.2 hrest)

theorem spelledBy_of_renderEntries {entries : List (Key × Value)}
    (h : ∀ e ∈ entries, e.2.ReadsBack) (takes : ∀ e ∈ entries, e.1.Takes e.2)
    {parts : List Text} (hp : Value.renderEntries entries = .ok parts) :
    List.Forall₂ EntrySpelledBy (entries.map fun e => (e.1, e.2.asRead)) parts := by
  induction entries generalizing parts with
  | nil =>
    cases hp
    exact .nil
  | cons e entries ih =>
    obtain ⟨s, rest, hs, hrest, rfl⟩ := Value.renderEntries_cons_eq_ok_iff.1 hp
    rw [List.forall_mem_cons] at h takes
    exact .cons ((h.1 s hs).entry takes.1.asRead) (ih h.2 takes.2 hrest)

/-- The items of a list. -/
theorem derives_separated_items {items : List Value} (h : ∀ v ∈ items, v.ReadsBack)
    {parts : List Text} (hp : Value.renderItems items = .ok parts) (r : Text) :
    Derives (.items (items.map Value.asRead)) (separated parts ++ Glyph.char ']' :: r) r := by
  cases items with
  | nil =>
    cases hp
    exact .itemsClosed rfl
  | cons v items =>
    obtain ⟨s, rest, hs, hrest, rfl⟩ := Value.renderItems_cons_eq_ok_iff.1 hp
    rw [List.forall_mem_cons] at h
    have first := h.1 s hs (afterCommas rest ++ Glyph.char ']' :: r)
    have more := derives_afterCommas_items (spelledBy_of_renderItems h.2 hrest) r
    obtain ⟨g, right, inner, rfl, hg, -⟩ := Value.delimited_of_render hs
    rw [separated_cons, List.append_assoc]
    refine .item (hg.skipSpacing_eq _) ?_ ?_ ?_ first more
    all_goals rcases hg with rfl | rfl | rfl <;> decide

/-! ## Values -/

theorem enclosedIn_append (left right : Char) (parts : List Text) (r : Text) :
    enclosedIn left right parts ++ r
      = Glyph.char left :: (separated parts ++ Glyph.char right :: r) := by
  simp [enclosedIn]

/-- A bare field list that starts with an identifier stands for the list in brackets around it. -/
theorem derives_bare_in_brackets {name : String} {v : Value} {entries : List (Key × Value)}
    (h : ∀ e ∈ (Key.named name, v) :: entries, e.2.ReadsBack)
    (takes : ∀ e ∈ (Key.named name, v) :: entries, e.1.Takes e.2) {parts : List Text}
    (hp : Value.renderEntries ((.named name, v) :: entries) = .ok parts) (r : Text) :
    Derives (.value (.fields false (((.named name, v) :: entries).map fun e => (e.1, e.2.asRead))))
      (enclosedIn '[' ']' parts ++ r) r := by
  have ended : FieldsEnd (Glyph.char ']' :: r) := .inr ⟨_, _, rfl, .inl rfl⟩
  have fields := derives_separated_fields (spelledBy_of_renderEntries h takes hp) ended
  rw [enclosedIn_append]
  exact .unwrapped rfl (fields.only_item (.itemsClosed rfl))

/-- The canonical text of a value whose keys take its values. -/
theorem Value.readsBack {v : Value} (h : v.WellKeyed) : v.ReadsBack := by
  induction h with
  | text x =>
    intro s hs r
    rw [Value.render] at hs
    cases hs
    exact .literal (Literal.read_quote_append x r)
  | list _ ih =>
    intro s hs r
    obtain ⟨parts, hp, rfl⟩ := render_list_eq_ok_iff.1 hs
    rw [enclosedIn_append, asRead_list]
    exact .ofItems rfl (derives_separated_items ih hp r)
  | @fields enclosed entries takes _ ih =>
    intro s hs r
    cases enclosed with
    | true =>
      obtain ⟨parts, hp, rfl⟩ := render_map_eq_ok_iff.1 hs
      have ended : FieldsEnd (Glyph.char '\x7d' :: r) := .inr ⟨_, _, rfl, .inr rfl⟩
      rw [enclosedIn_append, asRead_map]
      exact .map (.braces rfl
        (derives_separated_fields (spelledBy_of_renderEntries ih takes hp) ended))
    | false =>
      obtain ⟨keyed, parts, hp, rfl⟩ := render_bare_eq_ok_iff.1 hs
      cases entries with
      | nil =>
        cases hp
        -- the empty field list is read as the empty list
        exact .list rfl (.itemsClosed rfl) (by simp [unwrappedItems])
      | cons e entries =>
        obtain ⟨key, v⟩ := e
        rw [asRead_bare]
        cases key with
        | named name => exact derives_bare_in_brackets ih takes hp r
        | bare => cases keyed
        | unnamed => cases keyed

/-- What follows the canonical text of a value is left when the text is read. -/
theorem Value.WellKeyed.read_render {v : Value} (h : v.WellKeyed) {s : Text}
    (hs : v.render = .ok s) (r : Text) : Value.read (s ++ r) = .ok v.asRead r :=
  Value.read_eq_ok_iff.2 (Value.readsBack h s hs r)

theorem Value.WellKeyed.parse_render {v : Value} (h : v.WellKeyed) {s : Text}
    (hs : v.render = .ok s) : Value.parse s = .ok v.asRead := by
  have read := h.read_render hs []
  rw [List.append_nil] at read
  rw [Value.parse, read]
  rfl

/-- The canonical text of a value of the shape that is read is read as its normal value. -/
theorem Value.Shaped.read_render {v : Value} (h : v.Shaped) {s : Text} (hs : v.render = .ok s)
    (r : Text) : Value.read (s ++ r) = .ok v.normal r := by
  rw [h.wellKeyed.read_render hs, Value.asRead_eq_normal h]

theorem Value.Shaped.parse_render {v : Value} (h : v.Shaped) {s : Text} (hs : v.render = .ok s) :
    Value.parse s = .ok v.normal := by
  rw [h.wellKeyed.parse_render hs, Value.asRead_eq_normal h]

theorem FieldList.render_eq_ok_iff {f : FieldList} {s : Text} :
    f.render = .ok s ↔
      ∃ parts, Value.renderEntries f.entries = .ok parts ∧ s = separated parts := by
  unfold FieldList.render
  cases Value.renderEntries f.entries with
  | ok parts => simp [Functor.map, Except.map, eq_comm]
  | error e => simp [Functor.map, Except.map]

/-- The entries of a field list that was read are spelled as they are written, with normal
values. -/
theorem FieldList.forall₂_spelledBy {f : FieldList} (h : f.toValue.Shaped)
    {parts : List Text} (hp : Value.renderEntries f.entries = .ok parts) :
    List.Forall₂ EntrySpelledBy f.normal.entries parts := by
  have each := Value.shaped_fields_iff.1 h
  have same := Value.asRead_entries_eq_normal fun e he => Value.asRead_eq_normal (each e he).2
  have spelled := spelledBy_of_renderEntries
    (fun e he => Value.readsBack (each e he).2.wellKeyed) (fun e he => (each e he).1) hp
  rwa [same] at spelled

/-- The canonical text of a bare field list is read as it is but for its values, which are
normal. -/
theorem FieldList.parse_render {f : FieldList} (bare : f.enclosed = false) (h : f.toValue.Shaped)
    {s : Text} (hs : f.render = .ok s) : FieldList.parse s = .ok f.normal := by
  obtain ⟨parts, hp, rfl⟩ := FieldList.render_eq_ok_iff.1 hs
  have fields := derives_separated_fields (FieldList.forall₂_spelledBy h hp) (.inl rfl)
  rw [List.append_nil] at fields
  exact FieldList.parse_eq_ok_iff.2 ⟨bare, [], fields, rfl⟩

theorem FieldList.render_normal {f : FieldList} {s : Text} (h : f.render = .ok s) :
    f.normal.render = .ok s := by
  obtain ⟨parts, hp, rfl⟩ := FieldList.render_eq_ok_iff.1 h
  have normal := Value.renderEntries_normal (fun _ _ _ => Value.render_normal) hp
  exact FieldList.render_eq_ok_iff.2 ⟨parts, normal, rfl⟩

/-- **Reading after writing.** The canonical text of a value that was read is read as its normal
value, whatever follows the text and with all of that left, and it is the canonical text of the
normal value too; if the value holds no empty bare field list, it is the value itself that is read.
The canonical text of a field list at the top is read as that field list with normal values. -/
theorem read_of_render :
    (∀ t v s, (Value.parse t = .ok v ∨ ∃ f, FieldList.parse t = .ok f ∧ v = f.toValue) →
      v.render = .ok s →
        (∀ r, Value.read (s ++ r) = .ok v.normal r) ∧ v.normal.render = .ok s ∧
          (¬ Value.Occurs (.fields false []) v → Value.parse s = .ok v ∧ v.same v = true)) ∧
      ∀ t f s, FieldList.parse t = .ok f → f.render = .ok s →
        FieldList.parse s = .ok f.normal ∧ f.normal.render = .ok s := by
  constructor
  · intro t v s read rendered
    have shaped : v.Shaped := by
      rcases read with h | ⟨f, h, rfl⟩
      · exact Value.shaped_of_parse h
      · exact FieldList.shaped_of_parse h
    refine ⟨shaped.read_render rendered, Value.render_normal rendered, ?_⟩
    intro none
    have parsed := shaped.parse_render rendered
    rw [Value.normal_eq_self none] at parsed
    exact ⟨parsed, Value.same_self v⟩
  · intro t f s parsed rendered
    have bare : f.enclosed = false := (FieldList.parse_eq_ok_iff.1 parsed).1
    have shaped := FieldList.shaped_of_parse parsed
    exact ⟨FieldList.parse_render bare shaped rendered, FieldList.render_normal rendered⟩

/-- A list that ends in a comma holds an empty bare field list; it reads back as an empty list. In
a value without one nothing changes, and neither does a field list but for its values. -/
theorem read_of_render_empty_item :
    (∀ r, Value.read (Text.ofString "[\"s\",[]]" ++ r) = .ok (.list [.text "s", .list []]) r) ∧
      Value.parse (Text.ofString "[k=\"s\"]") = .ok (.fields false [(.named "k", .text "s")]) ∧
      FieldList.parse (Text.ofString "x=[\"s\",[]]")
        = .ok { entries := [(.named "x", .list [.text "s", .list []])], enclosed := false } := by
  have item := read_of_render.1 (Text.ofString "[\"s\",]") _ _ (.inl rfl) rfl
  have whole := read_of_render.1 (Text.ofString "[k=\"s\"]") _ _ (.inl rfl) rfl
  have fields := read_of_render.2 (Text.ofString "x=[\"s\",]") _ _ rfl rfl
  refine ⟨item.1, (whole.2.2 ?_).1, fields.1⟩
  intro occurs
  cases occurs with
  | entry he inner =>
    cases List.mem_singleton.1 he
    cases inner

end GdbMi
