import Mathlib.Data.List.Nodup
import GdbMi.Proofs.Payload
import GdbMi.Proofs.Record.Line

/-!
# Member names

The members of a dictionary have distinct keys, and yet a JSON object may have two members of one
name: the missing key of bare strings is written as `null`, which is an identifier too. No other two
keys of fields that were read have the same name (`Key.jsonName_eq_iff`), a key that repeats has one
member for all its values, and bare field lists become arrays. So the JSON of a record repeats a
name exactly if a dictionary in it is made of entries of both kinds (`repeatsName_iff`).
-/

namespace GdbMi
set_option autoImplicit false

/-- Two members of an object somewhere in the data have the same name. -/
inductive Json.RepeatsName : Json → Prop where
  | here {members : List (String × Json)} :
      ¬ (members.map Prod.fst).Nodup → RepeatsName (.object members)
  | item {j : Json} {items : List Json} : j ∈ items → RepeatsName j → RepeatsName (.array items)
  | member {m : String × Json} {members : List (String × Json)} :
      m ∈ members → RepeatsName m.2 → RepeatsName (.object members)

theorem Json.not_repeatsName_null : ¬ null.RepeatsName := nofun

theorem Json.not_repeatsName_number (n : Int) : ¬ (number n).RepeatsName := nofun

theorem Json.not_repeatsName_text (t : Text) : ¬ (text t).RepeatsName := nofun

/-- Among the entries is one without any key and one under the identifier `null`. -/
def HoldsNullTwice (entries : List (Key × Value)) : Prop :=
  (∃ v, (Key.bare, v) ∈ entries) ∧ ∃ v, (Key.named "null", v) ∈ entries

/-! ## Names of keys -/

namespace Key

/-- No identifier is the name of unnamed entries. -/
theorem Takes.ne_named_unnamedName {k : Key} {v : Value} (h : k.Takes v) :
    k ≠ .named unnamedName := by
  rintro rfl
  have identifier : IsIdentifier unnamedName := h
  revert identifier
  decide

/-- Two keys of fields that were read have one name only if both are written as `null`. -/
theorem jsonName_eq_iff {k k' : Key} (hk : k ≠ .named unnamedName) (hk' : k' ≠ .named unnamedName) :
    k.jsonName = k'.jsonName ↔
      k = k' ∨ k = .bare ∧ k' = .named "null" ∨ k = .named "null" ∧ k' = .bare := by
  have different : "null" ≠ unnamedName := by decide
  cases k <;> cases k' <;> simp_all [jsonName, name?, eq_comm]

/-- Names of distinct keys repeat exactly if the missing key and the identifier `null` are there. -/
theorem nodup_jsonName_iff {ks : List Key} (distinct : ks.Nodup)
    (proper : ∀ k ∈ ks, k ≠ .named unnamedName) :
    (ks.map jsonName).Nodup ↔ ¬ (.bare ∈ ks ∧ .named "null" ∈ ks) := by
  rw [List.nodup_map_iff_inj_on distinct]
  constructor
  · rintro injective ⟨bare, null⟩
    have same : Key.bare = .named "null" := injective _ bare _ null rfl
    cases same
  · intro apart k hk k' hk' same
    rcases (jsonName_eq_iff (proper k hk) (proper k' hk')).1 same with
      rfl | ⟨rfl, rfl⟩ | ⟨rfl, rfl⟩
    · rfl
    · exact absurd ⟨hk, hk'⟩ apart
    · exact absurd ⟨hk', hk⟩ apart

end Key

/-! ## Plain data as JSON -/

namespace Payload

theorem itemsToJson_eq_map (items : List Payload) : itemsToJson items = items.map toJson := by
  induction items with
  | nil => rfl
  | cons p items ih => rw [itemsToJson, ih, List.map_cons]

theorem membersToJson_eq_map (members : List (Key × Payload)) :
    membersToJson members = members.map fun m => (m.1.jsonName, m.2.toJson) := by
  induction members with
  | nil => rfl
  | cons m members ih => rw [membersToJson, ih, List.map_cons]

theorem not_repeatsName_text (s : String) : ¬ (text s).toJson.RepeatsName := by
  rw [toJson]
  exact Json.not_repeatsName_text _

theorem repeatsName_list_iff {items : List Payload} :
    (list items).toJson.RepeatsName ↔ ∃ p ∈ items, p.toJson.RepeatsName := by
  rw [toJson, itemsToJson_eq_map]
  constructor
  · intro h
    cases h with
    | item mem inner =>
      obtain ⟨p, hp, rfl⟩ := List.mem_map.1 mem
      exact ⟨p, hp, inner⟩
  · rintro ⟨p, hp, inner⟩
    exact .item (List.mem_map_of_mem hp) inner

theorem repeatsName_dict_iff {members : List (Key × Payload)} :
    (dict members).toJson.RepeatsName ↔
      ¬ ((members.map Prod.fst).map Key.jsonName).Nodup ∨
        ∃ m ∈ members, m.2.toJson.RepeatsName := by
  have names : (membersToJson members).map Prod.fst
      = (members.map Prod.fst).map Key.jsonName := by
    rw [membersToJson_eq_map, List.map_map, List.map_map]
    rfl
  rw [toJson]
  constructor
  · intro h
    cases h with
    | here repeated =>
      rw [names] at repeated
      exact .inl repeated
    | member mem inner =>
      rw [membersToJson_eq_map] at mem
      obtain ⟨m, hm, rfl⟩ := List.mem_map.1 mem
      exact .inr ⟨m, hm, inner⟩
  · rintro (repeated | ⟨m, hm, inner⟩)
    · exact .here (names ▸ repeated)
    · rw [membersToJson_eq_map]
      exact .member (List.mem_map_of_mem hm) inner

theorem repeatsName_ofValues_iff {ps : List Payload} :
    (ofValues ps).toJson.RepeatsName ↔ ∃ p ∈ ps, p.toJson.RepeatsName := by
  by_cases single : ps.length = 1
  · obtain ⟨p, rfl⟩ := List.length_eq_one_iff.1 single
    simp [ofValues]
  · rw [ofValues_of_length_ne_one single, repeatsName_list_iff]

/-- A dictionary of entries has one member for each key, so only names of different keys can be the
same. -/
theorem repeatsName_ofEntries_iff {entries : List (Key × Payload)} :
    (ofEntries entries).toJson.RepeatsName ↔
      ¬ ((Keyed.keys entries).map Key.jsonName).Nodup ∨
        ∃ e ∈ entries, e.2.toJson.RepeatsName := by
  rw [ofEntries_eq, repeatsName_dict_iff, map_fst_gathered]
  refine or_congr_right ?_
  constructor
  · rintro ⟨m, hm, inner⟩
    rw [eq_ofValues_of_mem_gathered hm, repeatsName_ofValues_iff] at inner
    obtain ⟨p, hp, inner⟩ := inner
    exact ⟨(m.1, p), Keyed.mem_get_iff.1 hp, inner⟩
  · rintro ⟨⟨k, p⟩, he, inner⟩
    have key : k ∈ Keyed.keys entries := Keyed.mem_keys_iff.2 ⟨p, he⟩
    refine ⟨(k, ofValues (Keyed.get k entries)), List.mem_map_of_mem key, ?_⟩
    exact repeatsName_ofValues_iff.2 ⟨p, Keyed.mem_get_iff.2 he, inner⟩

end Payload

/-! ## Values as JSON -/

namespace Value

/-- The dictionary of fields that were read. -/
theorem repeatsName_ofInnerEntries_iff {entries : List (Key × Value)}
    (takes : ∀ e ∈ entries, e.1.Takes e.2) :
    (Payload.ofEntries (Payload.ofInnerEntries entries)).toJson.RepeatsName ↔
      HoldsNullTwice entries ∨ ∃ e ∈ entries, (Payload.ofInner e.2).toJson.RepeatsName := by
  have keys : Keyed.keys (Payload.ofInnerEntries entries) = Keyed.keys entries := by
    rw [Keyed.keys, Keyed.keys, Payload.ofInnerEntries_eq_map, List.map_map]
    rfl
  have proper : ∀ k ∈ Keyed.keys entries, k ≠ .named Key.unnamedName := by
    intro k hk
    obtain ⟨v, he⟩ := Keyed.mem_keys_iff.1 hk
    exact (takes _ he).ne_named_unnamedName
  rw [Payload.repeatsName_ofEntries_iff, keys,
    Key.nodup_jsonName_iff (Keyed.nodup_keys entries) proper, not_not, Keyed.mem_keys_iff,
    Keyed.mem_keys_iff, Payload.ofInnerEntries_eq_map]
  refine or_congr_right ?_
  simp only [List.mem_map, exists_exists_and_eq_and]

/-- A name repeats in a value inside another one if it does in the dictionary of an enclosed field
list. A bare one has none. -/
theorem repeatsName_ofInner_iff {v : Value} (h : v.Shaped) :
    (Payload.ofInner v).toJson.RepeatsName ↔
      ∃ entries, Occurs (.fields true entries) v ∧ HoldsNullTwice entries := by
  induction h with
  | text s => simp [Payload.ofInner, Payload.not_repeatsName_text, occurs_text_iff]
  | @list items _ _ ih =>
    rw [Payload.ofInner, Payload.repeatsName_list_iff, Payload.ofItems_eq_map]
    simp only [List.mem_map, exists_exists_and_eq_and, occurs_list_iff, reduceCtorEq, false_or]
    constructor
    · rintro ⟨v, hv, inner⟩
      obtain ⟨entries, occurs, twice⟩ := (ih v hv).1 inner
      exact ⟨entries, ⟨v, hv, occurs⟩, twice⟩
    · rintro ⟨entries, ⟨v, hv, occurs⟩, twice⟩
      exact ⟨v, hv, (ih v hv).2 ⟨entries, occurs, twice⟩⟩
  | @fields enclosed entries takes _ ih =>
    have inside : (∃ e ∈ entries, (Payload.ofInner e.2).toJson.RepeatsName) ↔
        ∃ inner, (∃ e ∈ entries, Occurs (.fields true inner) e.2) ∧ HoldsNullTwice inner := by
      constructor
      · rintro ⟨e, he, repeated⟩
        obtain ⟨inner, occurs, twice⟩ := (ih e he).1 repeated
        exact ⟨inner, ⟨e, he, occurs⟩, twice⟩
      · rintro ⟨inner, ⟨e, he, occurs⟩, twice⟩
        exact ⟨e, he, (ih e he).2 ⟨inner, occurs, twice⟩⟩
    simp only [occurs_fields_iff, fields.injEq]
    cases enclosed with
    | true =>
      rw [Payload.ofInner, repeatsName_ofInnerEntries_iff takes, inside]
      simp only [true_and, or_and_right, exists_or, exists_eq_left]
    | false =>
      rw [Payload.ofInner, Payload.repeatsName_list_iff, Payload.ofInnerEntries_eq_map]
      simpa only [List.mem_map, exists_exists_and_eq_and, Bool.true_eq_false, false_and,
        false_or] using inside

end Value

/-- A name repeats in the dictionary of a field list that was read if it does in that of the entries
or in that of an enclosed field list inside. -/
theorem FieldList.repeatsName_toPayload_iff {f : FieldList} (h : f.toValue.Shaped) :
    f.toPayload.toJson.RepeatsName ↔ HoldsNullTwice f.entries ∨
      ∃ e ∈ f.entries, ∃ inner, Value.Occurs (.fields true inner) e.2 ∧ HoldsNullTwice inner := by
  have each := Value.shaped_fields_iff.1 h
  rw [toPayload, Value.repeatsName_ofInnerEntries_iff fun e he => (each e he).1]
  refine or_congr_right (exists_congr fun e => and_congr_right fun he => ?_)
  exact Value.repeatsName_ofInner_iff (each e he).2

/-! ## Records as JSON -/

/-- The names of a response are distinct, so what repeats is in the payload. -/
theorem Response.repeatsName_toJson_iff {r : Response} :
    r.toJson.RepeatsName ↔ r.payload.toJson.RepeatsName := by
  constructor
  · intro h
    cases h with
    | here repeated =>
      have distinct : ["type", "message", "payload", "token", "stream"].Nodup := by decide
      exact absurd distinct repeated
    | member mem inner =>
      simp only [List.mem_cons, List.not_mem_nil, or_false] at mem
      rcases mem with rfl | rfl | rfl | rfl | rfl
      · exact absurd inner (Json.not_repeatsName_text _)
      · cases message : r.message with
        | none => simp [message, Json.not_repeatsName_null] at inner
        | some t => simp [message, Json.not_repeatsName_text] at inner
      · exact inner
      · cases token : r.token with
        | none => simp [token, Json.not_repeatsName_null] at inner
        | some n => simp [token, Json.not_repeatsName_number] at inner
      · exact absurd inner (Json.not_repeatsName_text _)
  · intro h
    exact .member (m := ("payload", r.payload.toJson)) (by simp) h

/-- Fields of a record come from a body that parses. -/
theorem Record.shaped_of_read {line : Text} {r : Record} (h : Record.read line = .ok r)
    {f : FieldList} (data : r.payload = .data f) : f.toValue.Shaped := by
  rcases Record.read_eq_ok_cases h with rfl | ⟨head, -, converted⟩ |
      ⟨kind, literal, s, -, -, rfl⟩ | ⟨rfl, -⟩
  · cases data
  · obtain ⟨token, payload, -, fields, rfl⟩ := Record.ofHead_eq_ok_iff.1 converted
    rcases Record.fields?_eq_ok_cases fields with ⟨-, rfl⟩ | ⟨t, g, -, parsed, rfl⟩
    · cases data
    · cases data
      exact FieldList.shaped_of_parse parsed
  · cases data
  · cases data

/-- **Member names.** The JSON of a record that was read has an object with two members of one name
exactly if the payload is a field list, and it or an enclosed field list anywhere inside it has both
an entry without any key and one under the identifier `null`. -/
theorem repeatsName_iff (line : Text) (r : Record) (h : Record.read line = .ok r) :
    r.toResponse.toJson.RepeatsName ↔
      ∃ f, r.payload = .data f ∧ ∃ entries,
        (entries = f.entries ∨ ∃ e ∈ f.entries, Value.Occurs (.fields true entries) e.2) ∧
          HoldsNullTwice entries := by
  rw [Response.repeatsName_toJson_iff, Record.toResponse]
  cases data : r.payload with
  | absent => simp [Content.map, Content.toJson, Json.not_repeatsName_null]
  | text t => simp [Content.map, Content.toJson, Json.not_repeatsName_text]
  | data f =>
    rw [Content.map, Content.toJson,
      FieldList.repeatsName_toPayload_iff (Record.shaped_of_read h data)]
    constructor
    · rintro (twice | ⟨e, he, inner, occurs, twice⟩)
      · exact ⟨f, rfl, f.entries, .inl rfl, twice⟩
      · exact ⟨f, rfl, inner, .inr ⟨e, he, occurs⟩, twice⟩
    · rintro ⟨g, same, entries, place, twice⟩
      cases same
      rcases place with rfl | ⟨e, he, occurs⟩
      · exact .inl twice
      · exact .inr ⟨e, he, entries, occurs, twice⟩

/-- A bare string and the identifier `null` between braces, beside a key that repeats. -/
theorem repeatsName_iff_null :
    ∃ r, Record.read (Text.ofString "^done,b=\"1\",a=\x7b\"x\",null=\"2\"\x7d,b=\"3\"") = .ok r ∧
      r.toResponse.toJson.RepeatsName := by
  let inner : List (Key × Value) := [(.bare, .text "x"), (.named "null", .text "2")]
  let r : Record :=
    { kind := .result
      recordClass := some (Text.ofString "done")
      payload := .data { entries := [(.named "b", .text "1"), (.named "a", .fields true inner),
        (.named "b", .text "3")] } }
  have read : Record.read (Text.ofString
      "^done,b=\"1\",a=\x7b\"x\",null=\"2\"\x7d,b=\"3\"") = .ok r := rfl
  have twice : HoldsNullTwice inner := ⟨⟨_, .head _⟩, _, .tail _ (.head _)⟩
  refine ⟨r, read, (repeatsName_iff _ r read).2 ⟨_, rfl, inner, .inr ?_, twice⟩⟩
  exact ⟨(.named "a", .fields true inner), .tail _ (.head _), .self⟩

end GdbMi
