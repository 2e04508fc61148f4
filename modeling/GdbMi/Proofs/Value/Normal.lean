import GdbMi.Proofs.Value.Shape
import GdbMi.Payload
import GdbMi.Value.Same
import GdbMi.Value.Writer

/-!
# Normal values

An empty bare field list and an empty list have the same canonical text, which is read as the list.
`Value.normal` puts the list in place of the field list, at every depth. Neither the canonical text
(`render_normal`) nor plain data (`ofInner_normal`) can tell a value from its normal one, and a
value that holds no empty bare field list is normal (`normal_eq_self`).
-/

namespace GdbMi
set_option autoImplicit false

mutual

/-- The value with an empty list in place of every empty bare field list. -/
def Value.normal : Value → Value
  | .text s => .text s
  | .list items => .list (Value.normalItems items)
  | .fields false [] => .list []
  | .fields false (e :: entries) => .fields false (Value.normalEntries (e :: entries))
  | .fields true entries => .fields true (Value.normalEntries entries)

/-- The normal values of items. -/
def Value.normalItems : List Value → List Value
  | [] => []
  | v :: items => v.normal :: Value.normalItems items

/-- The entries with their values made normal. -/
def Value.normalEntries : List (Key × Value) → List (Key × Value)
  | [] => []
  | (key, v) :: entries => (key, v.normal) :: Value.normalEntries entries

end

/-- The field list with its values made normal; it stays a field list even if it is empty. -/
def FieldList.normal (f : FieldList) : FieldList :=
  { f with entries := Value.normalEntries f.entries }

/-- The value `w` stands somewhere in the value, which may be `w` itself. -/
inductive Value.Occurs (w : Value) : Value → Prop where
  | self : Occurs w w
  | item {v : Value} {items : List Value} : v ∈ items → Occurs w v → Occurs w (.list items)
  | entry {enclosed : Bool} {e : Key × Value} {entries : List (Key × Value)} :
      e ∈ entries → Occurs w e.2 → Occurs w (.fields enclosed entries)

namespace Value

theorem occurs_text_iff {w : Value} {s : String} : Occurs w (text s) ↔ w = text s := by
  constructor
  · intro h
    cases h
    rfl
  · rintro rfl
    exact .self

theorem occurs_list_iff {w : Value} {items : List Value} :
    Occurs w (list items) ↔ w = list items ∨ ∃ v ∈ items, Occurs w v := by
  constructor
  · intro h
    cases h with
    | self => exact .inl rfl
    | item hv inner => exact .inr ⟨_, hv, inner⟩
  · rintro (rfl | ⟨v, hv, inner⟩)
    · exact .self
    · exact .item hv inner

theorem occurs_fields_iff {w : Value} {enclosed : Bool} {entries : List (Key × Value)} :
    Occurs w (fields enclosed entries) ↔
      w = fields enclosed entries ∨ ∃ e ∈ entries, Occurs w e.2 := by
  constructor
  · intro h
    cases h with
    | self => exact .inl rfl
    | entry he inner => exact .inr ⟨_, he, inner⟩
  · rintro (rfl | ⟨e, he, inner⟩)
    · exact .self
    · exact .entry he inner

theorem normalItems_eq_map (items : List Value) : normalItems items = items.map normal := by
  induction items with
  | nil => rfl
  | cons v items ih => rw [normalItems, ih, List.map_cons]

theorem normalEntries_eq_map (entries : List (Key × Value)) :
    normalEntries entries = entries.map fun e => (e.1, e.2.normal) := by
  induction entries with
  | nil => rfl
  | cons e entries ih => rw [normalEntries, ih, List.map_cons]

/-- Only empty bare field lists lose their kind. -/
theorem normal_fields {enclosed : Bool} {entries : List (Key × Value)}
    (h : fields enclosed entries ≠ fields false []) :
    (fields enclosed entries).normal = fields enclosed (normalEntries entries) := by
  cases enclosed with
  | true => rw [normal]
  | false =>
    cases entries with
    | nil => exact absurd rfl h
    | cons e entries => rw [normal]

/-- A value is a bare field list if its normal one is. -/
theorem eq_bare_of_normal_eq {v : Value} {entries : List (Key × Value)}
    (h : v.normal = fields false entries) : ∃ before, v = fields false before := by
  cases v with
  | text s => simp [normal] at h
  | list items => simp [normal] at h
  | fields enclosed before =>
    cases enclosed with
    | true => simp [normal] at h
    | false => exact ⟨before, rfl⟩

theorem normal_eq_self {v : Value} (h : ¬ Occurs (fields false []) v) : v.normal = v := by
  induction v using Value.inductionOn with
  | text s => rw [normal]
  | list items ih =>
    have each : items.map normal = items.map id :=
      List.map_congr_left fun v hv => ih v hv fun occurs => h (.item hv occurs)
    rw [normal, normalItems_eq_map, each, List.map_id]
  | fields enclosed entries ih =>
    have each : entries.map (fun e => (e.1, e.2.normal)) = entries.map id := by
      refine List.map_congr_left ?_
      intro e he
      rw [ih e he fun occurs => h (.entry he occurs)]
      rfl
    have other : fields enclosed entries ≠ fields false [] := fun eq => h (eq ▸ .self)
    rw [normal_fields other, normalEntries_eq_map, each, List.map_id]

end Value

/-! ## Plain data -/

namespace Payload

theorem ofItems_eq_map (items : List Value) : ofItems items = items.map ofInner := by
  induction items with
  | nil => rfl
  | cons v items ih => rw [ofItems, ih, List.map_cons]

theorem ofInnerEntries_eq_map (entries : List (Key × Value)) :
    ofInnerEntries entries = entries.map fun e => (e.1, ofInner e.2) := by
  induction entries with
  | nil => rfl
  | cons e entries ih => rw [ofInnerEntries, ih, List.map_cons]

theorem ofInnerEntries_normal {entries : List (Key × Value)}
    (h : ∀ e ∈ entries, ofInner e.2.normal = ofInner e.2) :
    ofInnerEntries (Value.normalEntries entries) = ofInnerEntries entries := by
  rw [ofInnerEntries_eq_map, ofInnerEntries_eq_map, Value.normalEntries_eq_map, List.map_map]
  refine List.map_congr_left ?_
  intro e he
  simp only [Function.comp_apply, h e he]

/-- Plain data does not tell an empty bare field list from an empty list. -/
theorem ofInner_normal (v : Value) : ofInner v.normal = ofInner v := by
  induction v using Value.inductionOn with
  | text s => rw [Value.normal]
  | list items ih =>
    have each : items.map (ofInner ∘ Value.normal) = items.map ofInner :=
      List.map_congr_left ih
    rw [Value.normal, Value.normalItems_eq_map, ofInner, ofInner, ofItems_eq_map, ofItems_eq_map,
      List.map_map, each]
  | fields enclosed entries ih =>
    have each := ofInnerEntries_normal ih
    match enclosed, entries with
    | false, [] => rfl
    | false, e :: entries => rw [Value.normal, ofInner, ofInner, each]
    | true, entries => rw [Value.normal, ofInner, ofInner, each]

end Payload

theorem FieldList.toPayload_normal (f : FieldList) : f.normal.toPayload = f.toPayload := by
  have each := Payload.ofInnerEntries_normal fun e (_ : e ∈ f.entries) => Payload.ofInner_normal e.2
  simp only [toPayload, normal, each]

/-! ## Canonical text -/

theorem bind_eq_ok_iff {ε α β : Type} {x : Except ε α} {next : α → Except ε β} {b : β} :
    x >>= next = .ok b ↔ ∃ a, x = .ok a ∧ next a = .ok b := by
  cases x with
  | ok a => simp [bind, Except.bind]
  | error e => simp [bind, Except.bind]

namespace Value

theorem renderItems_cons_eq_ok_iff {v : Value} {items : List Value} {parts : List Text} :
    renderItems (v :: items) = .ok parts ↔
      ∃ s rest, v.render = .ok s ∧ renderItems items = .ok rest ∧ parts = s :: rest := by
  rw [renderItems]
  simp only [bind_eq_ok_iff, pure, Except.pure, Except.ok.injEq]
  constructor
  · rintro ⟨s, hs, rest, hrest, rfl⟩
    exact ⟨s, rest, hs, hrest, rfl⟩
  · rintro ⟨s, rest, hs, hrest, rfl⟩
    exact ⟨s, hs, rest, hrest, rfl⟩

theorem renderEntries_cons_eq_ok_iff {key : Key} {v : Value} {entries : List (Key × Value)}
    {parts : List Text} :
    renderEntries ((key, v) :: entries) = .ok parts ↔
      ∃ s rest, v.render = .ok s ∧ renderEntries entries = .ok rest ∧
        parts = entryText key s :: rest := by
  rw [renderEntries]
  simp only [bind_eq_ok_iff, pure, Except.pure, Except.ok.injEq]
  constructor
  · rintro ⟨s, hs, rest, hrest, rfl⟩
    exact ⟨s, rest, hs, hrest, rfl⟩
  · rintro ⟨s, rest, hs, hrest, rfl⟩
    exact ⟨s, hs, rest, hrest, rfl⟩

/-- The parts of a list are the texts of its items. -/
theorem exists_of_mem_renderItems {items : List Value} {parts : List Text}
    (h : renderItems items = .ok parts) : ∀ part ∈ parts, ∃ v ∈ items, v.render = .ok part := by
  induction items generalizing parts with
  | nil =>
    cases h
    nofun
  | cons v items ih =>
    obtain ⟨s, rest, hs, hrest, rfl⟩ := renderItems_cons_eq_ok_iff.1 h
    rw [List.forall_mem_cons]
    refine ⟨⟨v, List.mem_cons_self, hs⟩, ?_⟩
    intro part hp
    obtain ⟨w, hw, text⟩ := ih hrest part hp
    exact ⟨w, List.mem_cons_of_mem v hw, text⟩

/-- The parts of a field list are its keys with the texts of its values. -/
theorem exists_of_mem_renderEntries {entries : List (Key × Value)} {parts : List Text}
    (h : renderEntries entries = .ok parts) :
    ∀ part ∈ parts, ∃ e ∈ entries, ∃ s, e.2.render = .ok s ∧ part = entryText e.1 s := by
  induction entries generalizing parts with
  | nil =>
    cases h
    nofun
  | cons e entries ih =>
    obtain ⟨s, rest, hs, hrest, rfl⟩ := renderEntries_cons_eq_ok_iff.1 h
    rw [List.forall_mem_cons]
    refine ⟨⟨e, List.mem_cons_self, s, hs, rfl⟩, ?_⟩
    intro part hp
    obtain ⟨e', he', text⟩ := ih hrest part hp
    exact ⟨e', List.mem_cons_of_mem e he', text⟩

theorem render_list_eq_ok_iff {items : List Value} {s : Text} :
    (list items).render = .ok s ↔
      ∃ parts, renderItems items = .ok parts ∧ s = enclosedIn '[' ']' parts := by
  rw [render]
  simp only [bind_eq_ok_iff, pure, Except.pure, Except.ok.injEq, eq_comm (a := s)]

theorem render_map_eq_ok_iff {entries : List (Key × Value)} {s : Text} :
    (fields true entries).render = .ok s ↔
      ∃ parts, renderEntries entries = .ok parts ∧ s = enclosedIn '\x7b' '\x7d' parts := by
  rw [render]
  simp only [bind_eq_ok_iff, pure, Except.pure, Except.ok.injEq, eq_comm (a := s)]

theorem render_bare_eq_ok_iff {entries : List (Key × Value)} {s : Text} :
    (fields false entries).render = .ok s ↔ startsUnkeyed entries = false ∧
      ∃ parts, renderEntries entries = .ok parts ∧ s = enclosedIn '[' ']' parts := by
  rw [render]
  cases startsUnkeyed entries with
  | true => simp
  | false =>
    simp [bind_eq_ok_iff, pure, Except.pure, eq_comm (a := s)]

/-- Induction along canonical texts. What holds of literals, and is kept when a key is put before a
text or brackets or braces around parts, holds of the text of every value that is read. -/
theorem Shaped.render_induction {P : Text → Prop}
    (literal : ∀ x : String, P (Literal.quote (Text.ofString x)))
    (entry : ∀ (key : Key) (v : Value) (s : Text), key.Takes v → P s → P (entryText key s))
    (brackets : ∀ parts : List Text, (∀ part ∈ parts, P part) → P (enclosedIn '[' ']' parts))
    (braces : ∀ parts : List Text, (∀ part ∈ parts, P part) → P (enclosedIn '\x7b' '\x7d' parts))
    {v : Value} (h : v.Shaped) : ∀ s, v.render = .ok s → P s := by
  induction h with
  | text x =>
    intro s hs
    rw [render] at hs
    cases hs
    exact literal x
  | list _ _ ih =>
    intro s hs
    obtain ⟨parts, hp, rfl⟩ := render_list_eq_ok_iff.1 hs
    refine brackets parts fun part hpart => ?_
    obtain ⟨v, hv, text⟩ := exists_of_mem_renderItems hp part hpart
    exact ih v hv part text
  | @fields enclosed entries takes _ ih =>
    intro s hs
    have each {parts : List Text} (hp : renderEntries entries = .ok parts) :
        ∀ part ∈ parts, P part := by
      intro part hpart
      obtain ⟨e, he, x, hx, rfl⟩ := exists_of_mem_renderEntries hp part hpart
      exact entry e.1 e.2 x (takes e he) (ih e he x hx)
    cases enclosed with
    | true =>
      obtain ⟨parts, hp, rfl⟩ := render_map_eq_ok_iff.1 hs
      exact braces parts (each hp)
    | false =>
      obtain ⟨-, parts, hp, rfl⟩ := render_bare_eq_ok_iff.1 hs
      exact brackets parts (each hp)

theorem renderItems_normal {items : List Value} {parts : List Text}
    (ih : ∀ v ∈ items, ∀ s, v.render = .ok s → v.normal.render = .ok s)
    (h : renderItems items = .ok parts) : renderItems (normalItems items) = .ok parts := by
  induction items generalizing parts with
  | nil => exact h
  | cons v items each =>
    obtain ⟨s, rest, hs, hrest, rfl⟩ := renderItems_cons_eq_ok_iff.1 h
    rw [List.forall_mem_cons] at ih
    exact renderItems_cons_eq_ok_iff.2 ⟨s, rest, ih.1 s hs, each ih.2 hrest, rfl⟩

theorem renderEntries_normal {entries : List (Key × Value)} {parts : List Text}
    (ih : ∀ e ∈ entries, ∀ s, e.2.render = .ok s → e.2.normal.render = .ok s)
    (h : renderEntries entries = .ok parts) :
    renderEntries (normalEntries entries) = .ok parts := by
  induction entries generalizing parts with
  | nil => exact h
  | cons e entries each =>
    obtain ⟨s, rest, hs, hrest, rfl⟩ := renderEntries_cons_eq_ok_iff.1 h
    rw [List.forall_mem_cons] at ih
    exact renderEntries_cons_eq_ok_iff.2 ⟨s, rest, ih.1 s hs, each ih.2 hrest, rfl⟩

/-- A value and its normal one have the same canonical text. -/
theorem render_normal {v : Value} {s : Text} (h : v.render = .ok s) : v.normal.render = .ok s := by
  induction v using Value.inductionOn generalizing s with
  | text => exact h
  | list items ih =>
    obtain ⟨parts, hparts, rfl⟩ := render_list_eq_ok_iff.1 h
    exact render_list_eq_ok_iff.2 ⟨parts, renderItems_normal (fun v hv _ => ih v hv) hparts, rfl⟩
  | fields enclosed entries ih =>
    have each {parts : List Text} (h : renderEntries entries = .ok parts) :
        renderEntries (normalEntries entries) = .ok parts :=
      renderEntries_normal (fun e he _ => ih e he) h
    match enclosed, entries with
    | false, [] => exact h
    | false, (key, v) :: entries =>
      obtain ⟨keyed, parts, hparts, rfl⟩ := render_bare_eq_ok_iff.1 h
      exact render_bare_eq_ok_iff.2 ⟨keyed, parts, each hparts, rfl⟩
    | true, entries =>
      obtain ⟨parts, hparts, rfl⟩ := render_map_eq_ok_iff.1 h
      exact render_map_eq_ok_iff.2 ⟨parts, each hparts, rfl⟩

end Value

end GdbMi
