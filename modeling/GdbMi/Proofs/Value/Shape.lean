import GdbMi.Proofs.Grammar.Completeness

/-!
# The shape of values that are read

A value that a text denotes is not any value. No list holds a bare field list as its only item,
since such a list stands for the field list. A key is an identifier, or its entry is a map without
an identifier or a bare string. `shaped_of_derives` says that every phrase of the grammar has this
shape at every depth, by induction on its derivation.
-/

namespace GdbMi
set_option autoImplicit false

/-- Induction on a value in which every value directly inside it is at hand. -/
@[elab_as_elim]
theorem Value.inductionOn {motive : Value → Prop} (v : Value) (text : ∀ s, motive (.text s))
    (list : ∀ items, (∀ v ∈ items, motive v) → motive (.list items))
    (fields : ∀ enclosed entries, (∀ e ∈ entries, motive e.2) → motive (.fields enclosed entries)) :
    motive v := by
  refine @Value.rec motive (fun items => ∀ v ∈ items, motive v)
    (fun entries => ∀ e ∈ entries, motive e.2) (fun e => motive e.2) text list fields
    nofun ?_ nofun ?_ (fun _ _ h => h) v
  · intro v items hv hi w hw
    rcases List.mem_cons.1 hw with rfl | hw
    · exact hv
    · exact hi w hw
  · intro e entries he hes e' he'
    rcases List.mem_cons.1 he' with rfl | he'
    · exact he
    · exact hes e' he'

/-- A non-empty run of the characters that identifiers are made of. -/
def IsIdentifier (name : String) : Prop :=
  name ≠ "" ∧ ∀ c ∈ name.toList, (Glyph.char c).isIdentifier = true

instance (name : String) : Decidable (IsIdentifier name) :=
  -- over the characters of the name, not over all characters
  have : Decidable (∀ c ∈ name.toList, (Glyph.char c).isIdentifier = true) := List.decidableBAll _ _
  inferInstanceAs (Decidable (_ ∧ _))

/-- Which values a key that is read may have: an identifier any, an entry without one a map or a
string. -/
def Key.Takes : Key → Value → Prop
  | named name, _ => IsIdentifier name
  | unnamed, .fields true _ => True
  | bare, .text _ => True
  | _, _ => False

/-- The shape, at every depth, of values that are read. -/
inductive Value.Shaped : Value → Prop where
  | text (s : String) : Shaped (.text s)
  | list {items : List Value} : (∀ entries, items ≠ [.fields false entries]) →
      (∀ v ∈ items, Shaped v) → Shaped (.list items)
  | fields {enclosed : Bool} {entries : List (Key × Value)} : (∀ e ∈ entries, e.1.Takes e.2) →
      (∀ e ∈ entries, Shaped e.2) → Shaped (.fields enclosed entries)

/-- The keys of the value take its values, at every depth. Lists may hold what they like. -/
inductive Value.WellKeyed : Value → Prop where
  | text (s : String) : WellKeyed (.text s)
  | list {items : List Value} : (∀ v ∈ items, WellKeyed v) → WellKeyed (.list items)
  | fields {enclosed : Bool} {entries : List (Key × Value)} : (∀ e ∈ entries, e.1.Takes e.2) →
      (∀ e ∈ entries, WellKeyed e.2) → WellKeyed (.fields enclosed entries)

theorem Value.Shaped.wellKeyed {v : Value} (h : v.Shaped) : v.WellKeyed := by
  induction h with
  | text s => exact .text s
  | list _ _ ih => exact .list ih
  | fields takes _ ih => exact .fields takes ih

/-- The shape of a phrase: that of the values in it. -/
def Phrase.Shaped : Phrase → Prop
  | value v => v.Shaped
  | items vs => ∀ v ∈ vs, v.Shaped
  | fields entries => ∀ e ∈ entries, e.1.Takes e.2 ∧ e.2.Shaped
  | entry key v => key.Takes v ∧ v.Shaped
  | map entries => ∀ e ∈ entries, e.1.Takes e.2 ∧ e.2.Shaped

theorem Value.shaped_fields_iff {enclosed : Bool} {entries : List (Key × Value)} :
    (Value.fields enclosed entries).Shaped ↔ ∀ e ∈ entries, e.1.Takes e.2 ∧ e.2.Shaped := by
  constructor
  · intro h
    cases h with
    | fields takes shaped => exact fun e he => ⟨takes e he, shaped e he⟩
  · intro h
    exact .fields (fun e he => (h e he).1) fun e he => (h e he).2

theorem IdentifierAt.isIdentifier {t r : Text} {name : String} (h : IdentifierAt t name r) :
    IsIdentifier name := by
  refine ⟨h.nonempty, ?_⟩
  intro c hc
  have mem : Glyph.char c ∈ t.takeWhile Glyph.isIdentifier := by
    rw [h.run]
    exact List.mem_map_of_mem hc
  exact List.all_eq_true.1 List.all_takeWhile _ mem

/-- Every phrase that a text begins with has its shape. -/
theorem shaped_of_derives {p : Phrase} {t r : Text} (h : Derives p t r) : p.Shaped := by
  induction h with
  | literal => exact .text _
  | list _ _ hne ih => exact .list hne ih
  | unwrapped _ _ ih => exact ih _ (List.mem_singleton_self _)
  | map _ ih => exact Value.shaped_fields_iff.2 ih
  | bare _ _ _ _ _ ih => exact Value.shaped_fields_iff.2 ih
  | itemsClosed | itemsEnded | fieldsClosed | fieldsEnded => exact nofun
  | itemAfterComma _ _ _ ihv ihi | item _ _ _ _ _ _ ihv ihi =>
    exact List.forall_mem_cons.2 ⟨ihv, ihi⟩
  | field _ _ _ ihe ihf => exact List.forall_mem_cons.2 ⟨ihe, ihf⟩
  | unnamed _ ih => exact ⟨trivial, Value.shaped_fields_iff.2 ih⟩
  | bareString => exact ⟨trivial, .text _⟩
  | named hn _ _ ih => exact ⟨hn.isIdentifier, ih⟩
  | braces _ _ ih => exact ih

theorem Value.shaped_of_parse {t : Text} {v : Value} (h : Value.parse t = .ok v) : v.Shaped := by
  obtain ⟨r, derived, -⟩ := Value.parse_eq_ok_iff.1 h
  exact shaped_of_derives derived

theorem FieldList.shaped_of_parse {t : Text} {f : FieldList} (h : FieldList.parse t = .ok f) :
    f.toValue.Shaped := by
  obtain ⟨-, r, derived, -⟩ := FieldList.parse_eq_ok_iff.1 h
  exact Value.shaped_fields_iff.2 (shaped_of_derives derived)

end GdbMi
