import GdbMi.Proofs.Value.Normal

/-!
# Lists that stand for field lists

A list whose only item is a bare field list cannot be told, by its text, from that field list.
`Value.unwrapped` puts the field list in place of the list, the innermost ones first, so that lists
around lists around a field list go too. A value without such lists stays as it is
(`unwrapped_eq_self`), and every other one turns into a value that is not the same
(`same_unwrapped_iff`). Unwrapping the normal value gives what canonical text is read as
(`Value.asRead`); in a value that was read there is nothing to unwrap (`asRead_eq_normal`).
-/

namespace GdbMi
set_option autoImplicit false

mutual

/-- The value with the field list in place of every list whose only item is a bare one. -/
def Value.unwrapped : Value → Value
  | .text s => .text s
  | .list items => Reader.ofItems (Value.unwrappedItems items)
  | .fields enclosed entries => .fields enclosed (Value.unwrappedEntries entries)

/-- The items with their lists unwrapped. -/
def Value.unwrappedItems : List Value → List Value
  | [] => []
  | v :: items => v.unwrapped :: Value.unwrappedItems items

/-- The entries with the lists in their values unwrapped. -/
def Value.unwrappedEntries : List (Key × Value) → List (Key × Value)
  | [] => []
  | (key, v) :: entries => (key, v.unwrapped) :: Value.unwrappedEntries entries

end

/-- The value that the canonical text of the value is read as. -/
def Value.asRead (v : Value) : Value := v.normal.unwrapped

/-- A list whose only item is a bare field list stands somewhere in the value. -/
def Value.HasWrapped (v : Value) : Prop :=
  ∃ entries, Value.Occurs (.list [.fields false entries]) v

namespace Value

theorem unwrappedItems_eq_map (items : List Value) :
    unwrappedItems items = items.map unwrapped := by
  induction items with
  | nil => rfl
  | cons v items ih => rw [unwrappedItems, ih, List.map_cons]

theorem unwrappedEntries_eq_map (entries : List (Key × Value)) :
    unwrappedEntries entries = entries.map fun e => (e.1, e.2.unwrapped) := by
  induction entries with
  | nil => rfl
  | cons e entries ih => rw [unwrappedEntries, ih, List.map_cons]

theorem hasWrapped_of_item {v : Value} {items : List Value} (hv : v ∈ items)
    (h : v.HasWrapped) : (list items).HasWrapped := by
  obtain ⟨entries, occurs⟩ := h
  exact ⟨entries, .item hv occurs⟩

theorem hasWrapped_of_entry {enclosed : Bool} {e : Key × Value} {entries : List (Key × Value)}
    (he : e ∈ entries) (h : e.2.HasWrapped) : (fields enclosed entries).HasWrapped := by
  obtain ⟨inner, occurs⟩ := h
  exact ⟨inner, .entry he occurs⟩

/-- A value without such lists is unwrapped already. -/
theorem unwrapped_eq_self {v : Value} (h : ¬ v.HasWrapped) : v.unwrapped = v := by
  induction v using Value.inductionOn with
  | text s => rw [unwrapped]
  | list items ih =>
    have each : items.map unwrapped = items.map id :=
      List.map_congr_left fun v hv => ih v hv fun inner => h (hasWrapped_of_item hv inner)
    have kept : ∀ entries, items ≠ [fields false entries] := by
      rintro entries rfl
      exact h ⟨entries, .self⟩
    rw [unwrapped, unwrappedItems_eq_map, each, List.map_id, Reader.ofItems_of_ne kept]
  | fields enclosed entries ih =>
    have each : entries.map (fun e => (e.1, e.2.unwrapped)) = entries.map id := by
      refine List.map_congr_left ?_
      intro e he
      rw [ih e he fun inner => h (hasWrapped_of_entry he inner)]
      rfl
    rw [unwrapped, unwrappedEntries_eq_map, each, List.map_id]

/-! ## Sameness -/

/-- Items are the same if they are in turn. -/
theorem sameItems_map_iff {f : Value → Value} {items : List Value} :
    sameItems (items.map f) items = true ↔ ∀ v ∈ items, (f v).same v = true := by
  induction items with
  | nil => simp [sameItems]
  | cons v items ih => rw [List.map_cons, sameItems, Bool.and_eq_true, ih, List.forall_mem_cons]

/-- Entries whose keys have not changed are the same if their values are in turn. -/
theorem sameEntries_map_iff {f : Value → Value} {entries : List (Key × Value)} :
    sameEntries (entries.map fun e => (e.1, f e.2)) entries = true ↔
      ∀ e ∈ entries, (f e.2).same e.2 = true := by
  induction entries with
  | nil => simp [sameEntries]
  | cons e entries ih =>
    rw [List.map_cons, sameEntries, Keyed.extract?, if_pos rfl]
    simp only [Bool.and_eq_true, ih, List.forall_mem_cons]

/-- Every value is the same as itself. -/
theorem same_self (v : Value) : v.same v = true := by
  induction v using Value.inductionOn with
  | text s => simp [same]
  | list items ih =>
    have each : sameItems (items.map id) items = true := sameItems_map_iff.2 ih
    rwa [List.map_id] at each
  | fields enclosed entries ih =>
    have each : sameEntries (entries.map fun e => (e.1, id e.2)) entries = true :=
      sameEntries_map_iff.2 ih
    have kept : entries.map (fun e => (e.1, id e.2)) = entries := List.map_id entries
    rwa [kept] at each

/-- What is made of items is a list only if it is the list of them. -/
theorem ofItems_cases (items : List Value) :
    (∃ entries, items = [fields false entries] ∧ Reader.ofItems items = fields false entries) ∨
      (∀ entries, items ≠ [fields false entries]) ∧ Reader.ofItems items = list items := by
  by_cases wrapped : ∃ entries, items = [fields false entries]
  · obtain ⟨entries, rfl⟩ := wrapped
    exact .inl ⟨entries, rfl, rfl⟩
  · have kept := not_exists.1 wrapped
    exact .inr ⟨kept, Reader.ofItems_of_ne kept⟩

/-- An unwrapped value is the same only if there was nothing to unwrap. -/
theorem not_hasWrapped_of_same {v : Value} (h : v.unwrapped.same v = true) : ¬ v.HasWrapped := by
  rintro ⟨entries, occurs⟩
  induction v using Value.inductionOn with
  | text s => cases occurs
  | list items ih =>
    rw [unwrapped, unwrappedItems_eq_map] at h
    rcases ofItems_cases (items.map unwrapped) with ⟨inner, -, eq⟩ | ⟨kept, eq⟩
    · rw [eq] at h
      simp [same] at h
    · rw [eq, same, sameItems_map_iff] at h
      cases occurs with
      | self =>
        apply kept (unwrappedEntries entries)
        rw [List.map_singleton, unwrapped]
      | item hv inner => exact ih _ hv (h _ hv) inner
  | fields enclosed before ih =>
    rw [unwrapped, unwrappedEntries_eq_map, same, sameEntries_map_iff] at h
    cases occurs with
    | entry he inner => exact ih _ he (h _ he) inner

theorem same_unwrapped_iff {v : Value} : v.unwrapped.same v = true ↔ ¬ v.HasWrapped := by
  constructor
  · exact not_hasWrapped_of_same
  · intro h
    rw [unwrapped_eq_self h]
    exact same_self v

/-! ## What canonical text is read as -/

theorem asRead_list (items : List Value) :
    (list items).asRead = Reader.ofItems (items.map asRead) := by
  rw [asRead, normal, unwrapped, normalItems_eq_map, unwrappedItems_eq_map, List.map_map]
  rfl

theorem asRead_map (entries : List (Key × Value)) :
    (fields true entries).asRead = fields true (entries.map fun e => (e.1, e.2.asRead)) := by
  rw [asRead, normal, unwrapped, normalEntries_eq_map, unwrappedEntries_eq_map, List.map_map]
  rfl

theorem asRead_bare (e : Key × Value) (entries : List (Key × Value)) :
    (fields false (e :: entries)).asRead
      = fields false ((e :: entries).map fun e => (e.1, e.2.asRead)) := by
  rw [asRead, normal, unwrapped, normalEntries_eq_map, unwrappedEntries_eq_map, List.map_map]
  rfl

theorem asRead_entries_eq_normal {entries : List (Key × Value)}
    (h : ∀ e ∈ entries, e.2.asRead = e.2.normal) :
    entries.map (fun e => (e.1, e.2.asRead)) = normalEntries entries := by
  rw [normalEntries_eq_map]
  refine List.map_congr_left ?_
  intro e he
  rw [h e he]

/-- A value of the shape that is read holds no list that could be unwrapped. -/
theorem asRead_eq_normal {v : Value} (h : v.Shaped) : v.asRead = v.normal := by
  induction h with
  | text s => rfl
  | @list items hne _ ih =>
    have kept : ∀ entries, items.map Value.normal ≠ [fields false entries] := by
      intro entries eq
      obtain ⟨v, rfl, hv⟩ := List.map_eq_singleton_iff.1 eq
      obtain ⟨before, rfl⟩ := eq_bare_of_normal_eq hv
      exact hne before rfl
    rw [asRead_list, List.map_congr_left ih, Reader.ofItems_of_ne kept, Value.normal,
      normalItems_eq_map]
  | @fields enclosed entries _ _ ih =>
    have each := asRead_entries_eq_normal ih
    cases enclosed with
    | true => rw [asRead_map, each, Value.normal]
    | false =>
      cases entries with
      | nil => rfl
      | cons e entries => rw [asRead_bare, each, Value.normal]

/-- Without empty bare field lists, only lists that stand for field lists are read as another
value. -/
theorem asRead_eq_unwrapped {v : Value} (h : ¬ Occurs (fields false []) v) :
    v.asRead = v.unwrapped := by
  rw [asRead, normal_eq_self h]

end Value

end GdbMi
