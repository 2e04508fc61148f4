import GdbMi.Proofs.Value.RoundTrip

/-!
# Compact text

What GDB prints, without any spacing: literals are canonical, results have identifiers, and maps and
lists are empty or hold parts with single commas between them. `Compact p t` says that the text `t`
is that of the phrase `p`. Such text is the canonical text of its phrase (`Compact.renders`), and
what it says is of the shape that is read and normal, so fields in it are read as what they are and
written back glyph by glyph.
-/

namespace GdbMi
set_option autoImplicit false

open Reader

/-- The text is what GDB prints for the phrase. A list that holds nothing but a list of results is
printed like that list of results, so it is left out. -/
inductive Compact : Phrase → Text → Prop where
  | literal (s : String) : Compact (.value (.text s)) (Literal.quote (Text.ofString s))
  | emptyMap : Compact (.value (.fields true [])) [Glyph.char '\x7b', Glyph.char '\x7d']
  | map {entries : List (Key × Value)} {t : Text} : Compact (.fields entries) t →
      Compact (.value (.fields true entries)) (Glyph.char '\x7b' :: (t ++ [Glyph.char '\x7d']))
  | emptyList : Compact (.value (.list [])) [Glyph.char '[', Glyph.char ']']
  | list {items : List Value} {t : Text} : Compact (.items items) t →
      (∀ entries, items ≠ [.fields false entries]) →
      Compact (.value (.list items)) (Glyph.char '[' :: (t ++ [Glyph.char ']']))
  /-- A list of results. -/
  | results {entries : List (Key × Value)} {t : Text} : Compact (.fields entries) t →
      Compact (.value (.fields false entries)) (Glyph.char '[' :: (t ++ [Glyph.char ']']))
  | lastItem {v : Value} {t : Text} : Compact (.value v) t → Compact (.items [v]) t
  | item {v : Value} {items : List Value} {s t : Text} : Compact (.value v) s →
      Compact (.items items) t → Compact (.items (v :: items)) (s ++ Glyph.char ',' :: t)
  | result {name : String} {v : Value} {t : Text} : IsIdentifier name → Compact (.value v) t →
      Compact (.entry (.named name) v) (Text.ofString name ++ Glyph.char '=' :: t)
  | lastResult {key : Key} {v : Value} {t : Text} : Compact (.entry key v) t →
      Compact (.fields [(key, v)]) t
  | nextResult {key : Key} {v : Value} {entries : List (Key × Value)} {s t : Text} :
      Compact (.entry key v) s → Compact (.fields entries) t →
      Compact (.fields ((key, v) :: entries)) (s ++ Glyph.char ',' :: t)

/-- The values in the phrase are normal, and there is some entry in fields. -/
def Phrase.Normal : Phrase → Prop
  | value v => v.normal = v
  | items vs => ∀ v ∈ vs, v.normal = v
  | fields entries => entries ≠ [] ∧ ∀ e ∈ entries, e.2.normal = e.2
  | entry _ v => v.normal = v
  | map entries => ∀ e ∈ entries, e.2.normal = e.2

/-- The canonical text of the phrase. Parts of lists and fields are separated, and fields do not
start without an identifier. -/
def Phrase.Renders (p : Phrase) (t : Text) : Prop :=
  match p with
  | value v => v.render = .ok t
  | items vs => ∃ part parts, Value.renderItems vs = .ok (part :: parts) ∧
      t = separated (part :: parts)
  | fields entries => startsUnkeyed entries = false ∧ ∃ part parts,
      Value.renderEntries entries = .ok (part :: parts) ∧ t = separated (part :: parts)
  | entry key v => key.isUnkeyed = false ∧ ∃ s, v.render = .ok s ∧ t = entryText key s
  | map entries => ∃ parts, Value.renderEntries entries = .ok parts ∧
      t = enclosedIn '\x7b' '\x7d' parts

theorem Value.normalEntries_eq_self {entries : List (Key × Value)}
    (h : ∀ e ∈ entries, e.2.normal = e.2) : Value.normalEntries entries = entries := by
  have each : entries.map (fun e => (e.1, e.2.normal)) = entries.map id := by
    apply List.map_congr_left
    intro e he
    rw [h e he]
    rfl
  rw [normalEntries_eq_map, each, List.map_id]

theorem Value.normalItems_eq_self {items : List Value} (h : ∀ v ∈ items, v.normal = v) :
    Value.normalItems items = items := by
  have each : items.map normal = items.map id := List.map_congr_left h
  rw [normalItems_eq_map, each, List.map_id]

namespace Compact

variable {p : Phrase} {t : Text}

theorem shaped (h : Compact p t) : p.Shaped := by
  induction h with
  | literal s => exact .text s
  | emptyMap => exact Value.shaped_fields_iff.2 nofun
  | map _ ih => exact Value.shaped_fields_iff.2 ih
  | emptyList => exact .list nofun nofun
  | list _ hne ih => exact .list hne ih
  | results _ ih => exact Value.shaped_fields_iff.2 ih
  | lastItem _ ih => exact List.forall_mem_singleton.2 ih
  | item _ _ ihv ihi => exact List.forall_mem_cons.2 ⟨ihv, ihi⟩
  | result identifier _ ih => exact ⟨identifier, ih⟩
  | lastResult _ ih => exact List.forall_mem_singleton.2 ih
  | nextResult _ _ ihe ihf => exact List.forall_mem_cons.2 ⟨ihe, ihf⟩

theorem normal (h : Compact p t) : p.Normal := by
  induction h with
  | literal s => exact Value.normal.eq_1 s
  | emptyMap => exact Value.normal.eq_5 []
  | @map entries t _ ih =>
    rw [Phrase.Normal, Value.normal, Value.normalEntries_eq_self ih.2]
  | emptyList => exact Value.normal.eq_2 []
  | list _ _ ih => rw [Phrase.Normal, Value.normal, Value.normalItems_eq_self ih]
  | @results entries t _ ih =>
    have kept : Value.fields false entries ≠ .fields false [] := by
      intro eq
      cases eq
      exact ih.1 rfl
    rw [Phrase.Normal, Value.normal_fields kept, Value.normalEntries_eq_self ih.2]
  | lastItem _ ih => exact List.forall_mem_singleton.2 ih
  | item _ _ ihv ihi => exact List.forall_mem_cons.2 ⟨ihv, ihi⟩
  | result _ _ ih => exact ih
  | lastResult _ ih => exact ⟨List.cons_ne_nil _ _, List.forall_mem_singleton.2 ih⟩
  | nextResult _ _ ihe ihf =>
    exact ⟨List.cons_ne_nil _ _, List.forall_mem_cons.2 ⟨ihe, ihf.2⟩⟩

/-- Compact text is canonical. -/
theorem renders (h : Compact p t) : p.Renders t := by
  induction h with
  | literal s => rw [Phrase.Renders, Value.render]
  | emptyMap => exact Value.render_map_eq_ok_iff.2 ⟨[], rfl, rfl⟩
  | map _ ih =>
    obtain ⟨-, part, parts, rendered, rfl⟩ := ih
    exact Value.render_map_eq_ok_iff.2 ⟨_, rendered, rfl⟩
  | emptyList => exact Value.render_list_eq_ok_iff.2 ⟨[], rfl, rfl⟩
  | list _ _ ih =>
    obtain ⟨part, parts, rendered, rfl⟩ := ih
    exact Value.render_list_eq_ok_iff.2 ⟨_, rendered, rfl⟩
  | results _ ih =>
    obtain ⟨keyed, part, parts, rendered, rfl⟩ := ih
    exact Value.render_bare_eq_ok_iff.2 ⟨keyed, _, rendered, rfl⟩
  | @lastItem v t _ ih =>
    refine ⟨t, [], ?_, (separated_singleton t).symm⟩
    exact Value.renderItems_cons_eq_ok_iff.2 ⟨t, [], ih, rfl, rfl⟩
  | @item v items s t _ _ ihv ihi =>
    obtain ⟨part, parts, rendered, rfl⟩ := ihi
    refine ⟨s, part :: parts, ?_, (separated_cons_cons s part parts).symm⟩
    exact Value.renderItems_cons_eq_ok_iff.2 ⟨s, _, ihv, rendered, rfl⟩
  | @result name v t _ _ ih => exact ⟨rfl, t, ih, rfl⟩
  | @lastResult key v t _ ih =>
    obtain ⟨keyed, s, rendered, rfl⟩ := ih
    refine ⟨keyed, _, [], ?_, (separated_singleton _).symm⟩
    exact Value.renderEntries_cons_eq_ok_iff.2 ⟨s, [], rendered, rfl, rfl⟩
  | @nextResult key v entries s t _ _ ihe ihf =>
    obtain ⟨keyed, text, value, rfl⟩ := ihe
    obtain ⟨-, part, parts, rendered, rfl⟩ := ihf
    refine ⟨keyed, _, part :: parts, ?_, (separated_cons_cons _ part parts).symm⟩
    exact Value.renderEntries_cons_eq_ok_iff.2 ⟨text, _, value, rendered, rfl⟩

end Compact

/-- **What GDB prints is reproduced.** Compact fields are read as the entries that they hold, and
these are written as the same text. -/
theorem render_parse_of_compact (t : Text) (entries : List (Key × Value))
    (h : Compact (.fields entries) t) :
    FieldList.parse t = .ok { entries } ∧ FieldList.render { entries } = .ok t := by
  obtain ⟨-, part, parts, rendered, text⟩ := h.renders
  have written : FieldList.render { entries } = .ok t :=
    FieldList.render_eq_ok_iff.2 ⟨_, rendered, text⟩
  have shaped : (FieldList.toValue { entries }).Shaped := Value.shaped_fields_iff.2 h.shaped
  have normal : FieldList.normal { entries } = { entries } := by
    rw [FieldList.normal, Value.normalEntries_eq_self h.normal.2]
  refine ⟨?_, written⟩
  have read := FieldList.parse_render rfl shaped written
  rwa [normal] at read

/-- A key that comes back, a list of results behind another item, and an empty list. -/
theorem render_parse_of_compact_repeated :
    FieldList.parse (Text.ofString "a=[\"1\",[b=\"2\"]],b={a=[]},a=\"3\"") = .ok { entries :=
        [(.named "a", .list [.text "1", .fields false [(.named "b", .text "2")]]),
         (.named "b", .fields true [(.named "a", .list [])]), (.named "a", .text "3")] } ∧
      FieldList.render { entries :=
        [(.named "a", .list [.text "1", .fields false [(.named "b", .text "2")]]),
         (.named "b", .fields true [(.named "a", .list [])]), (.named "a", .text "3")] }
        = .ok (Text.ofString "a=[\"1\",[b=\"2\"]],b={a=[]},a=\"3\"") := by
  have isA : IsIdentifier "a" := by decide
  have isB : IsIdentifier "b" := by decide
  have results := Compact.results (.lastResult (.result isB (.literal "2")))
  have first := Compact.result isA (.list (.item (.literal "1") (.lastItem results)) nofun)
  have map := Compact.map (.lastResult (.result isA .emptyList))
  have last := Compact.lastResult (.result isA (.literal "3"))
  exact render_parse_of_compact _ _ (.nextResult first (.nextResult (.result isB map) last))

end GdbMi
