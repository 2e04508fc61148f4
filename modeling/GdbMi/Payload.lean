import GdbMi.Value.Keyed

/-!
# Payloads

Values in the shape of plain nested data: strings, lists and dictionaries. A field list at the top
or between braces becomes a dictionary of its distinct keys, in which a repeated key holds the list
of its values; a bare field list inside another value becomes the list of its values. These are
`to_payload` (`Value.toPayload`), `fields_to_dict` (`FieldList.toPayload`) and `_convert`
(`Payload.ofInner`).
-/

namespace GdbMi
set_option autoImplicit false

/-- Plain nested data. -/
inductive Payload where
  | text (s : String)
  | list (items : List Payload)
  | dict (members : List (Key × Payload))

namespace Payload

/-- What a dictionary holds under a key with the given values: a single one as it is. -/
def ofValues : List Payload → Payload
  | [p] => p
  | ps => .list ps

/-- A dictionary of the distinct keys, in order of first appearance. -/
def ofEntries (entries : List (Key × Payload)) : Payload :=
  .dict ((Keyed.group entries).map fun (k, ps) => (k, ofValues ps))

mutual

/-- A value inside another one as plain data. -/
def ofInner : Value → Payload
  | .text s => .text s
  | .list items => .list (ofItems items)
  | .fields true entries => ofEntries (ofInnerEntries entries)
  | .fields false entries => .list ((ofInnerEntries entries).map Prod.snd)

/-- The items of a list as plain data. -/
def ofItems : List Value → List Payload
  | [] => []
  | v :: items => ofInner v :: ofItems items

/-- Entries with their values as plain data. -/
def ofInnerEntries : List (Key × Value) → List (Key × Payload)
  | [] => []
  | (k, v) :: entries => (k, ofInner v) :: ofInnerEntries entries

end

end Payload

/-- A field list as a dictionary. -/
def FieldList.toPayload (f : FieldList) : Payload :=
  Payload.ofEntries (Payload.ofInnerEntries f.entries)

/-- A value as plain data. -/
def Value.toPayload : Value → Payload
  | .fields enclosed entries => FieldList.toPayload { enclosed, entries }
  | v => Payload.ofInner v

end GdbMi
