import GdbMi.Value.Keyed

/-!
# Display of values

How messages show a value: its kind and, in quotes, its strings. A field list is shown by key, each
distinct key with all its values, so the display does not tell entries of different keys apart by
order, nor an enclosed field list from a bare one (`__repr__` of `FieldList`).
-/

namespace GdbMi
set_option autoImplicit false

/-- Items in brackets. -/
def bracketed (items : List String) : String := "[" ++ ", ".intercalate items ++ "]"

/-- Items as a tuple, in which a single one is followed by a comma. -/
def tupled : List String → String
  | [item] => "(" ++ item ++ ",)"
  | items => "(" ++ ", ".intercalate items ++ ")"

/-- A field list by key, given how its values are shown. -/
def displayFields (entries : List (Key × String)) : String :=
  let member := fun (k, values) => Key.display k ++ ": " ++ bracketed values
  "FieldList(\x7b" ++ ", ".intercalate ((Keyed.group entries).map member) ++ "\x7d)"

mutual

/-- How messages show a value. -/
def Value.display : Value → String
  | .text s => "Text(text=" ++ displayString s ++ ")"
  | .list items => "ValueList(items=" ++ tupled (Value.displayItems items) ++ ")"
  | .fields _ entries => displayFields (Value.displayEntries entries)

/-- How messages show the items of a list. -/
def Value.displayItems : List Value → List String
  | [] => []
  | v :: items => v.display :: Value.displayItems items

/-- How messages show the values of entries. -/
def Value.displayEntries : List (Key × Value) → List (Key × String)
  | [] => []
  | (k, v) :: entries => (k, v.display) :: Value.displayEntries entries

end

/-- How messages show a field list. -/
def FieldList.display (f : FieldList) : String := f.toValue.display

end GdbMi
