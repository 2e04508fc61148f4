import GdbMi.Text.Display

/-!
# Values

A GDB/MI value is a decoded string, a list of values, or a field list: entries in order, whose keys
may repeat. A field list between braces is `enclosed`; the outermost one of a record, and one that
stands for the list around it, as in `[frame={...},frame={...}]`, is bare. The entries are all that
a field list stores. Keys, values by key and the grouping by key are computed from them.

`Value.text`, `Value.list` and `Value.fields` are the classes `Text`, `ValueList` and `FieldList`,
the last without its index, which `Indexed` adds. `Key.unnamed` is the key `UNNAMED`.
-/

namespace GdbMi
set_option autoImplicit false

/-- What an entry is filed under. -/
inductive Key where
  /-- A bare string has no key at all. -/
  | bare
  /-- A nested object without an identifier. -/
  | unnamed
  | named (name : String)
deriving DecidableEq, Repr

namespace Key

/-- The name that unnamed entries are filed under where a name is needed. -/
def unnamedName : String := "<unnamed>"

/-- The key with the given name. -/
def ofName (name : String) : Key := if name = unnamedName then unnamed else named name

/-- The name of the key. -/
def name? : Key → Option String
  | bare => none
  | unnamed => some unnamedName
  | named name => some name

/-- Whether entries under the key are written without an identifier. -/
def isUnkeyed : Key → Bool
  | named _ => false
  | _ => true

/-- How messages show the key. -/
def display (k : Key) : String :=
  match k.name? with
  | none => "None"
  | some name => displayString name

theorem name?_ofName (name : String) : (ofName name).name? = some name := by
  simp only [ofName]
  split
  · next h => rw [h]; rfl
  · rfl

end Key

/-- A GDB/MI value. -/
inductive Value where
  | text (s : String)
  | list (items : List Value)
  | fields (enclosed : Bool) (entries : List (Key × Value))

/-- A field list: its entries in order, and whether it is written between braces. -/
structure FieldList where
  enclosed : Bool := false
  entries : List (Key × Value) := []

/-- A field list as a value. -/
def FieldList.toValue (f : FieldList) : Value := .fields f.enclosed f.entries

/-- The entries of a field list. Other values have none. -/
def Value.entries : Value → List (Key × Value)
  | fields _ entries => entries
  | _ => []

/-- The field list that the value is, if it is one. -/
def Value.toFieldList? : Value → Option FieldList
  | fields enclosed entries => some { enclosed, entries }
  | _ => none

theorem FieldList.toFieldList?_toValue (f : FieldList) : f.toValue.toFieldList? = some f := rfl

end GdbMi
