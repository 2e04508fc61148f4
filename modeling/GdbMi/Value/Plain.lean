import GdbMi.Decimal
import GdbMi.Value.Display

/-!
# Plain data

Data from which values are built: strings, lists and values convert, the rest does not. The error
names the kind of the first part, in order of writing, that does not convert. `Plain.display` shows
any plain data in a message. `Plain.toValue` is `as_value`, and `Plain.asValue` the refusal of
`format_value` to write what is no value.
-/

namespace GdbMi
set_option autoImplicit false

/-- Data of the kinds that a caller may offer as a value. -/
inductive Plain where
  | none
  | bool (b : Bool)
  | int (n : Int)
  | float (x : Float)
  | text (s : String)
  | list (items : List Plain)
  | dict (members : List (String × Plain))
  /-- Any other object, by the name of its kind and as messages show it. -/
  | object (kind shown : String)
  | value (v : Value)

instance : Inhabited Plain := ⟨.none⟩

/-- Why plain data is refused. -/
inductive PlainError where
  /-- Data of the given kind is no value. -/
  | notConvertible (kind : String)
  /-- The data, as displayed, is no value as it is. -/
  | notValue (display : String)
deriving DecidableEq, Repr

/-- The wording of an error. -/
def PlainError.message : PlainError → String
  | notConvertible kind => "Cannot convert " ++ kind ++ " to an MI value"
  | notValue display => "Not an MI value: " ++ display

namespace Plain

/-- The name of the kind of data. -/
def kindName : Plain → String
  | none => "NoneType"
  | bool _ => "bool"
  | int _ => "int"
  | float _ => "float"
  | text _ => "str"
  | list _ => "list"
  | dict _ => "dict"
  | object kind _ => kind
  | value (.text _) => "Text"
  | value (.list _) => "ValueList"
  | value (.fields _ _) => "FieldList"

mutual

/-- The value that the data stands for. -/
def toValue : Plain → Except PlainError Value
  | value v => .ok v
  | text s => .ok (.text s)
  | list items => do return .list (← toValues items)
  | other => .error (.notConvertible other.kindName)

/-- The values that a list of data stands for. -/
def toValues : List Plain → Except PlainError (List Value)
  | [] => .ok []
  | p :: items => do
    let v ← p.toValue
    return v :: (← toValues items)

end

mutual

/-- How messages show plain data. -/
def display : Plain → String
  | none => "None"
  | bool true => "True"
  | bool false => "False"
  | int n => toString n
  | float x => displayFloat x
  | text s => displayString s
  | list items => bracketed (displayItems items)
  | dict members => "\x7b" ++ ", ".intercalate (displayMembers members) ++ "\x7d"
  | object _ shown => shown
  | value v => v.display

/-- How messages show the items of a list. -/
def displayItems : List Plain → List String
  | [] => []
  | p :: items => p.display :: displayItems items

/-- How messages show the members of a dictionary. -/
def displayMembers : List (String × Plain) → List String
  | [] => []
  | (name, p) :: members => (displayString name ++ ": " ++ p.display) :: displayMembers members

end

/-- The data as a value, without any conversion. -/
def asValue : Plain → Except PlainError Value
  | value v => .ok v
  | other => .error (.notValue other.display)

end Plain

end GdbMi
