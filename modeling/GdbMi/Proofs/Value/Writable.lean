import GdbMi.Proofs.Value.RoundTrip

/-!
# Values that have a canonical text

One thing keeps a value from having a canonical text: a bare field list somewhere in it, with
brackets around it, that starts with an entry without an identifier (`Value.writtenUnless`). The
field list at the top of a record, which is written without brackets, may start as it likes, but no
bare field list in it may (`FieldList.writtenUnless`).
-/

namespace GdbMi
set_option autoImplicit false

/-- Writing gives a result, unless one of the field lists with the given entries is held, and then
the error that names one of them. -/
def WrittenUnless {α : Type} (holds : List (Key × Value) → Prop) (r : Except RenderError α) :
    Prop :=
  (∃ a, r = .ok a) ∧ (∀ entries, ¬ holds entries) ∨
    ∃ entries, holds entries ∧ r = .error (.startsUnkeyed { entries })

namespace WrittenUnless

variable {α β : Type} {holds : List (Key × Value) → Prop} {r : Except RenderError α}

theorem exists_ok_iff (h : WrittenUnless holds r) :
    (∃ a, r = .ok a) ↔ ∀ entries, ¬ holds entries := by
  rcases h with ⟨written, none⟩ | ⟨entries, held, refused⟩
  · exact ⟨fun _ => none, fun _ => written⟩
  · constructor
    · rintro ⟨a, ha⟩
      rw [refused] at ha
      cases ha
    · exact fun none => (none entries held).elim

/-- What is made of the result does not matter. -/
theorem map (h : WrittenUnless holds r) (f : α → β) : WrittenUnless holds (r.map f) := by
  rcases h with ⟨⟨a, rfl⟩, none⟩ | ⟨entries, held, rfl⟩
  · exact .inl ⟨⟨f a, rfl⟩, none⟩
  · exact .inr ⟨entries, held, rfl⟩

/-- Neither does another name for the field lists that are held. -/
theorem congr (h : WrittenUnless holds r) {holds' : List (Key × Value) → Prop}
    (same : ∀ entries, holds entries ↔ holds' entries) : WrittenUnless holds' r := by
  rwa [show holds' = holds from funext fun entries => propext (same entries).symm]

end WrittenUnless

/-- The bare field list of the entries stands somewhere in the value, and it starts with an entry
without an identifier. -/
def Value.HoldsUnkeyed (v : Value) (entries : List (Key × Value)) : Prop :=
  startsUnkeyed entries = true ∧ Value.Occurs (.fields false entries) v

namespace Value

/-- Entries are written as their values are, with their keys. -/
theorem renderEntries_eq_map_renderItems (entries : List (Key × Value)) :
    renderEntries entries = (renderItems (entries.map Prod.snd)).map fun texts =>
      List.zipWith (fun e s => entryText e.1 s) entries texts := by
  induction entries with
  | nil => rfl
  | cons e entries ih =>
    rw [List.map_cons, renderEntries, renderItems, ih]
    cases e.2.render with
    | error err => rfl
    | ok s => cases renderItems (entries.map Prod.snd) <;> rfl

/-- Items are all written, unless one of them is not. -/
theorem writtenUnless_renderItems {items : List Value}
    (h : ∀ v ∈ items, WrittenUnless v.HoldsUnkeyed v.render) :
    WrittenUnless (fun entries => ∃ v ∈ items, v.HoldsUnkeyed entries) (renderItems items) := by
  induction items with
  | nil => exact .inl ⟨⟨[], rfl⟩, nofun⟩
  | cons v items ih =>
    rw [List.forall_mem_cons] at h
    rcases h.1 with ⟨⟨s, hs⟩, none⟩ | ⟨entries, held, refused⟩
    · rw [renderItems, hs]
      refine ((ih h.2).map (s :: ·)).congr fun entries => ?_
      simp [none entries]
    · refine .inr ⟨entries, ⟨v, List.mem_cons_self, held⟩, ?_⟩
      rw [renderItems, refused]
      rfl

theorem writtenUnless_renderEntries {outer : List (Key × Value)}
    (h : ∀ e ∈ outer, WrittenUnless e.2.HoldsUnkeyed e.2.render) :
    WrittenUnless (fun entries => ∃ e ∈ outer, e.2.HoldsUnkeyed entries) (renderEntries outer) := by
  rw [renderEntries_eq_map_renderItems]
  refine ((writtenUnless_renderItems (List.forall_mem_map.2 h)).map _).congr fun entries => ?_
  constructor
  · rintro ⟨v, hv, held⟩
    obtain ⟨e, he, rfl⟩ := List.mem_map.1 hv
    exact ⟨e, he, held⟩
  · rintro ⟨e, he, held⟩
    exact ⟨e.2, List.mem_map_of_mem he, held⟩

theorem holdsUnkeyed_text_iff {s : String} {entries : List (Key × Value)} :
    (text s).HoldsUnkeyed entries ↔ False := by
  refine ⟨?_, False.elim⟩
  rintro ⟨-, occurs⟩
  cases occurs

theorem holdsUnkeyed_list_iff {items : List Value} {entries : List (Key × Value)} :
    (list items).HoldsUnkeyed entries ↔ ∃ v ∈ items, v.HoldsUnkeyed entries := by
  constructor
  · rintro ⟨unkeyed, occurs⟩
    cases occurs with
    | item hv inner => exact ⟨_, hv, unkeyed, inner⟩
  · rintro ⟨v, hv, unkeyed, occurs⟩
    exact ⟨unkeyed, .item hv occurs⟩

/-- A field list holds those in its values, and itself if it is bare and starts without an
identifier. -/
theorem holdsUnkeyed_fields_iff {enclosed : Bool} {outer entries : List (Key × Value)} :
    (fields enclosed outer).HoldsUnkeyed entries ↔
      (enclosed = false ∧ startsUnkeyed outer = true ∧ entries = outer) ∨
        ∃ e ∈ outer, e.2.HoldsUnkeyed entries := by
  constructor
  · rintro ⟨unkeyed, occurs⟩
    cases occurs with
    | self => exact .inl ⟨rfl, unkeyed, rfl⟩
    | entry he inner => exact .inr ⟨_, he, unkeyed, inner⟩
  · rintro (⟨rfl, unkeyed, rfl⟩ | ⟨e, he, unkeyed, occurs⟩)
    · exact ⟨unkeyed, .self⟩
    · exact ⟨unkeyed, .entry he occurs⟩

/-- A value has a canonical text, unless a bare field list in it starts without an identifier. -/
theorem writtenUnless (v : Value) : WrittenUnless v.HoldsUnkeyed v.render := by
  induction v using Value.inductionOn with
  | text x =>
    rw [render]
    exact .inl ⟨⟨_, rfl⟩, fun _ => holdsUnkeyed_text_iff.1⟩
  | list items ih =>
    rw [render]
    exact ((writtenUnless_renderItems ih).map _).congr fun _ => holdsUnkeyed_list_iff.symm
  | fields enclosed outer ih =>
    have inner := writtenUnless_renderEntries ih
    cases enclosed with
    | true =>
      rw [render]
      refine (inner.map _).congr fun entries => ?_
      simp [holdsUnkeyed_fields_iff]
    | false =>
      rw [render]
      by_cases unkeyed : startsUnkeyed outer = true
      · rw [if_pos unkeyed]
        exact .inr ⟨outer, ⟨unkeyed, .self⟩, rfl⟩
      · rw [if_neg unkeyed]
        refine (inner.map _).congr fun entries => ?_
        simp [holdsUnkeyed_fields_iff, unkeyed]

end Value

/-- A bare field list inside the field list, at any depth, starts with an entry without an
identifier. -/
def FieldList.HoldsUnkeyed (f : FieldList) (entries : List (Key × Value)) : Prop :=
  ∃ e ∈ f.entries, e.2.HoldsUnkeyed entries

/-- At the top of a record a field list is written, unless one inside starts without an
identifier. -/
theorem FieldList.writtenUnless (f : FieldList) : WrittenUnless f.HoldsUnkeyed f.render :=
  (Value.writtenUnless_renderEntries fun e _ => Value.writtenUnless e.2).map separated

end GdbMi
