import GdbMi.Proofs.Value.Writable
import GdbMi.Value.Builder

/-!
# Built values

Values built from strings, lists and field lists of a builder whose keys are identifiers: all their
field lists are bare and have names for keys (`Value.built_iff`). Other than lists that are read, a
list may be built around a single field list, and its text is read as that field list. So reading
the text of a built value gives its unwrapped value, which is the same exactly if there is no such
list in it (`Value.parse_render_of_built`).
-/

namespace GdbMi
set_option autoImplicit false

/-- The value stands in the plain data as it is. -/
inductive Plain.Holds (w : Value) : Plain → Prop where
  | self : Holds w (.value w)
  | item {p : Plain} {items : List Plain} : p ∈ items → Holds w p → Holds w (.list items)

/-- The builder after entries were added, each a name and plain data. -/
def Builder.addAll (b : Builder) (entries : List (String × Plain)) : Except PlainError Builder :=
  entries.foldlM (fun b e => b.add (.ofName e.1) e.2) b

/-- The value is built from strings, lists, and field lists that a builder handed over. -/
inductive Value.Built : Value → Prop where
  | converted {p : Plain} {v : Value} : (∀ w, p.Holds w → Built w) → p.toValue = .ok v → Built v
  | handedOver {entries : List (String × Plain)} {b : Builder} :
      (∀ e ∈ entries, IsIdentifier e.1) → (∀ e ∈ entries, ∀ w, e.2.Holds w → Built w) →
      Builder.addAll {} entries = .ok b → Built b.build.1.toValue

/-- The value is made of strings, lists, and bare field lists with names for keys. -/
inductive Value.NameKeyed : Value → Prop where
  | text (s : String) : NameKeyed (.text s)
  | list {items : List Value} : (∀ v ∈ items, NameKeyed v) → NameKeyed (.list items)
  | fields {entries : List (Key × Value)} :
      (∀ e ∈ entries, ∃ name, e.1 = .named name ∧ IsIdentifier name) →
      (∀ e ∈ entries, NameKeyed e.2) → NameKeyed (.fields false entries)

/-! ## Conversions -/

namespace Plain

/-- Items are converted one by one. -/
theorem toValues_eq_ok_iff {items : List Plain} {vs : List Value} :
    toValues items = .ok vs ↔ List.Forall₂ (fun p v => p.toValue = .ok v) items vs := by
  induction items generalizing vs with
  | nil => simp [toValues, eq_comm]
  | cons p items ih =>
    simp only [toValues, bind_eq_ok_iff, pure, Except.pure, Except.ok.injEq, ih,
      List.forall₂_cons_left_iff]
    constructor
    · rintro ⟨v, hv, vs, each, rfl⟩
      exact ⟨v, vs, hv, each, rfl⟩
    · rintro ⟨v, vs, hv, each, rfl⟩
      exact ⟨v, hv, vs, each, rfl⟩

end Plain

theorem Builder.addAll_cons_eq_ok_iff {b b' : Builder} {e : String × Plain}
    {entries : List (String × Plain)} :
    b.addAll (e :: entries) = .ok b' ↔
      ∃ v, e.2.toValue = .ok v ∧
        addAll { entries := b.entries ++ [(.ofName e.1, v)] } entries = .ok b' := by
  simp only [addAll, List.foldlM_cons, bind_eq_ok_iff, add, pure, Except.pure, Except.ok.injEq]
  constructor
  · rintro ⟨-, ⟨v, hv, rfl⟩, rest⟩
    exact ⟨v, hv, rest⟩
  · rintro ⟨v, hv, rest⟩
    exact ⟨_, ⟨v, hv, rfl⟩, rest⟩

/-- Entries are added one by one, behind those that are there. -/
theorem Builder.addAll_eq_ok_iff {b b' : Builder} {entries : List (String × Plain)} :
    b.addAll entries = .ok b' ↔
      ∃ added,
        List.Forall₂ (fun e a => a.1 = Key.ofName e.1 ∧ e.2.toValue = .ok a.2) entries added ∧
          b' = { entries := b.entries ++ added } := by
  induction entries generalizing b with
  | nil =>
    simp only [addAll, List.foldlM_nil, pure, Except.pure, Except.ok.injEq,
      List.forall₂_nil_left_iff, exists_eq_left, List.append_nil]
    exact eq_comm
  | cons e entries ih =>
    simp only [addAll_cons_eq_ok_iff, ih, List.forall₂_cons_left_iff]
    constructor
    · rintro ⟨v, hv, added, each, rfl⟩
      refine ⟨_, ⟨(.ofName e.1, v), added, ⟨rfl, hv⟩, each, rfl⟩, ?_⟩
      rw [List.append_assoc, List.singleton_append]
    · rintro ⟨-, ⟨⟨key, v⟩, added, ⟨rfl, hv⟩, each, rfl⟩, rfl⟩
      refine ⟨v, hv, added, each, ?_⟩
      rw [List.append_assoc, List.singleton_append]

/-- No identifier is the name of unnamed entries. -/
theorem IsIdentifier.ofName_eq {name : String} (h : IsIdentifier name) :
    Key.ofName name = .named name := by
  obtain ⟨c, more, rfl, hc, -⟩ := h.exists_cons
  exact Key.ofName_of_isIdentifier hc

/-! ## What is built -/

namespace Value

/-- Converted data is made of the values in it. -/
theorem NameKeyed.of_toValue {p : Plain} {v : Value} (held : ∀ w, p.Holds w → NameKeyed w)
    (h : p.toValue = .ok v) : NameKeyed v := by
  match p with
  | .value w =>
    rw [Plain.toValue] at h
    cases h
    exact held v .self
  | .text s =>
    rw [Plain.toValue] at h
    cases h
    exact .text s
  | .list items =>
    rw [Plain.toValue] at h
    obtain ⟨vs, hvs, made⟩ := bind_eq_ok_iff.1 h
    cases made
    refine .list fun v hv => ?_
    obtain ⟨p, hp, converted⟩ := exists_mem_of_forall₂ (Plain.toValues_eq_ok_iff.1 hvs) hv
    exact of_toValue (fun w hw => held w (.item hp hw)) converted
  | .none => cases h
  | .bool b => cases h
  | .int n => cases h
  | .float x => cases h
  | .dict members => cases h
  | .object kind shown => cases h
termination_by p

theorem Built.nameKeyed {v : Value} (h : Built v) : NameKeyed v := by
  induction h with
  | converted _ converted ih => exact .of_toValue ih converted
  | @handedOver entries _ identifiers _ collected ih =>
    obtain ⟨added, each, rfl⟩ := Builder.addAll_eq_ok_iff.1 collected
    refine .fields ?_ ?_
    · intro a ha
      obtain ⟨e, he, key, -⟩ := exists_mem_of_forall₂ each ha
      rw [(identifiers e he).ofName_eq] at key
      exact ⟨e.1, key, identifiers e he⟩
    · intro a ha
      obtain ⟨e, he, -, converted⟩ := exists_mem_of_forall₂ each ha
      exact .of_toValue (ih e he) converted

/-- Items that are built are the data of a list. -/
theorem Built.ofItems {items : List Value} (h : ∀ v ∈ items, Built v) : Built (.list items) := by
  have converted : Plain.toValues (items.map Plain.value) = .ok items := by
    rw [Plain.toValues_eq_ok_iff, List.forall₂_map_left_iff, List.forall₂_same]
    intro v _
    rw [Plain.toValue]
  refine .converted (p := .list (items.map Plain.value)) ?_ ?_
  · intro w hw
    cases hw with
    | item hp held =>
      obtain ⟨v, hv, rfl⟩ := List.mem_map.1 hp
      cases held
      exact h w hv
  · rw [Plain.toValue, converted]
    rfl

/-- Entries that are built are added to a builder by the names of their keys. -/
theorem Built.ofEntries {entries : List (Key × Value)}
    (names : ∀ e ∈ entries, ∃ name, e.1 = .named name ∧ IsIdentifier name)
    (h : ∀ e ∈ entries, Built e.2) : Built (.fields false entries) := by
  let given (e : Key × Value) : String × Plain := (e.1.name?.getD "", .value e.2)
  have named {e : Key × Value} (he : e ∈ entries) :
      IsIdentifier (given e).1 ∧ e.1 = .named (given e).1 := by
    obtain ⟨name, key, identifier⟩ := names e he
    have same : (given e).1 = name := by
      simp only [given, key]
      rfl
    rw [same]
    exact ⟨identifier, key⟩
  have collected : Builder.addAll {} (entries.map given) = .ok { entries } := by
    rw [Builder.addAll_eq_ok_iff]
    refine ⟨entries, ?_, rfl⟩
    rw [List.forall₂_map_left_iff, List.forall₂_same]
    intro e he
    obtain ⟨identifier, key⟩ := named he
    exact ⟨by rw [identifier.ofName_eq, key], by rw [Plain.toValue]⟩
  refine .handedOver (b := { entries }) ?_ ?_ collected
  · rw [List.forall_mem_map]
    exact fun e he => (named he).1
  · rw [List.forall_mem_map]
    intro e he w held
    cases held
    exact h e he

theorem NameKeyed.built {v : Value} (h : NameKeyed v) : Built v := by
  induction h with
  | text s =>
    refine .converted (p := .text s) nofun ?_
    rw [Plain.toValue]
  | list _ ih => exact .ofItems ih
  | fields names _ ih => exact .ofEntries names ih

theorem built_iff {v : Value} : Built v ↔ NameKeyed v :=
  ⟨Built.nameKeyed, NameKeyed.built⟩

/-! ## What reading gives back -/

theorem NameKeyed.wellKeyed {v : Value} (h : NameKeyed v) : WellKeyed v := by
  induction h with
  | text s => exact .text s
  | list _ ih => exact .list ih
  | fields names _ ih =>
    refine .fields ?_ ih
    intro e he
    obtain ⟨name, key, identifier⟩ := names e he
    rw [key]
    exact identifier

theorem NameKeyed.single {name : String} {v : Value} (identifier : IsIdentifier name)
    (h : NameKeyed v) : NameKeyed (.fields false [(.named name, v)]) :=
  .fields (List.forall_mem_singleton.2 ⟨name, rfl, identifier⟩) (List.forall_mem_singleton.2 h)

theorem NameKeyed.of_occurs {w v : Value} (occurs : Occurs w v) (h : NameKeyed v) :
    NameKeyed w := by
  induction occurs with
  | self => exact h
  | item hv _ ih =>
    cases h with
    | list each => exact ih (each _ hv)
  | entry he _ ih =>
    cases h with
    | fields _ each => exact ih (each _ he)

/-- No bare field list in such a value starts without an identifier. -/
theorem NameKeyed.not_holdsUnkeyed {v : Value} (h : NameKeyed v) (entries : List (Key × Value)) :
    ¬ v.HoldsUnkeyed entries := by
  rintro ⟨unkeyed, occurs⟩
  cases h.of_occurs occurs with
  | fields names _ =>
    cases entries with
    | nil => cases unkeyed
    | cons e entries =>
      obtain ⟨name, key, -⟩ := names e List.mem_cons_self
      simp only [startsUnkeyed, key] at unkeyed
      cases unkeyed

/-- **Reading the text of a built value.** A value built from strings, lists and field lists whose
keys are identifiers, none of them empty, has a canonical text. The text is read as the value with
every list unwrapped that holds a field list alone, so as the same value exactly if there is no such
list in it. -/
theorem parse_render_of_built (v : Value) (built : v.Built)
    (nonempty : ¬ Occurs (.fields false []) v) :
    ∃ s, v.render = .ok s ∧ Value.parse s = .ok v.unwrapped ∧
      (v.unwrapped.same v = true ↔ ¬ v.HasWrapped) := by
  have keyed := built.nameKeyed
  obtain ⟨s, rendered⟩ := v.writtenUnless.exists_ok_iff.2 keyed.not_holdsUnkeyed
  have parsed := keyed.wellKeyed.parse_render rendered
  rw [asRead_eq_unwrapped nonempty] at parsed
  exact ⟨s, rendered, parsed, same_unwrapped_iff⟩

theorem not_occurs_of_single (key : Key) (s : String) :
    ¬ Occurs (.fields false []) (.fields false [(key, .text s)]) := by
  intro occurs
  rcases occurs with _ | _ | ⟨he, inner⟩
  cases List.mem_singleton.1 he
  cases inner

/-- A list of a string and a field list is read back. -/
theorem parse_render_of_built_pair :
    Value.parse (Text.ofString "[\"0\",[frame=\"7\"]]")
      = .ok (.list [.text "0", .fields false [(.named "frame", .text "7")]]) := by
  let frame : Value := .fields false [(.named "frame", .text "7")]
  have keyed : NameKeyed (.list [.text "0", frame]) := by
    refine .list (List.forall_mem_cons.2 ⟨.text "0", List.forall_mem_singleton.2 ?_⟩)
    exact .single (by decide) (.text "7")
  have nonempty : ¬ Occurs (.fields false []) (.list [.text "0", frame]) := by
    intro occurs
    rcases occurs with _ | ⟨hv, inner⟩
    rcases List.mem_pair.1 hv with rfl | rfl
    · cases inner
    · exact not_occurs_of_single _ _ inner
  obtain ⟨s, rendered, parsed, -⟩ := parse_render_of_built _ keyed.built nonempty
  cases rendered
  exact parsed

/-- A list of a field list alone is read as that field list, which is another value. -/
theorem not_same_of_built_list :
    ∃ v : Value, v.Built ∧ ¬ Occurs (.fields false []) v ∧
      ∃ s w, v.render = .ok s ∧ Value.parse s = .ok w ∧ w.same v = false := by
  have keyed : NameKeyed (.list [.fields false [(.named "a", .text "1")]]) :=
    .list (List.forall_mem_singleton.2 (.single (by decide) (.text "1")))
  refine ⟨_, keyed.built, ?_, Text.ofString "[[a=\"1\"]]", _, rfl, rfl, rfl⟩
  intro occurs
  rcases occurs with _ | ⟨hv, inner⟩
  cases List.mem_singleton.1 hv
  exact not_occurs_of_single _ _ inner

end Value

end GdbMi
