import GdbMi.Value.Display

/-!
# Looking up fields

Values of a field list by key, and the reading of a single value as a string, a list or a field
list. `single?` refuses a key with several values; the typed look-ups refuse a value of another
kind. An empty list counts as an empty field list, because that is how one is printed. The look-ups
`single?`, `string?`, `items?` and `fieldList?` are `get_singleton`, `get_string`, `get_list_of` and
`get_field_list`, and `multiValued` is `MultiValuedKeyError`.
`single?_eq_ok_some_iff` says when there is a single value.
-/

namespace GdbMi
set_option autoImplicit false

/-- Why a look-up is refused. -/
inductive QueryError where
  /-- The key has more than one value. -/
  | multiValued (key : Key) (values : List Value)
  | notString (key : Key) (value : Value)
  | notList (key : Key) (value : Value)
  | notFieldList (key : Key) (value : Value)
  /-- A list has no item at the index. -/
  | outOfRange

namespace QueryError

/-- The wording of a refusal because of the kind of a value. -/
def wrongKind (key : Key) (wanted : String) (value : Value) : String :=
  "Field " ++ key.display ++ " is not a " ++ wanted ++ ": " ++ value.display

/-- The wording of an error. -/
def message : QueryError → String
  | multiValued key values =>
    "Key " ++ key.display ++ " is multi-valued: " ++ bracketed (Value.displayItems values)
  | notString key value => wrongKind key "string" value
  | notList key value => wrongKind key "list" value
  | notFieldList key value => wrongKind key "field list" value
  | outOfRange => "tuple index out of range"

end QueryError

namespace FieldList

/-- The number of entries. -/
def size (f : FieldList) : Nat := f.entries.length

/-- The distinct keys, in order of first appearance. -/
def keys (f : FieldList) : List Key := Keyed.keys f.entries

/-- All values of the key, in order. -/
def get (f : FieldList) (k : Key) : List Value := Keyed.get k f.entries

/-- Whether there is an entry with the key. -/
def contains (f : FieldList) (k : Key) : Bool := Keyed.contains k f.entries

/-- The only value of the key, or `none` if it has no value. -/
def single? (f : FieldList) (k : Key) : Except QueryError (Option Value) :=
  match f.get k with
  | [] => .ok none
  | [v] => .ok (some v)
  | values => .error (.multiValued k values)

/-- The only value of the key, if there is one, read by `view`. -/
def singleAs? {α : Type} (view : Value → Except QueryError α) (f : FieldList) (k : Key) :
    Except QueryError (Option α) := do
  match ← f.single? k with
  | none => return none
  | some v => return some (← view v)

/-- The only value of the key as a string. -/
def string? (f : FieldList) (k : Key) : Except QueryError (Option String) :=
  f.singleAs? (fun
    | .text s => .ok s
    | v => .error (.notString k v)) k

/-- The only value of the key as the items of a list. -/
def items? (f : FieldList) (k : Key) : Except QueryError (Option (List Value)) :=
  f.singleAs? (fun
    | .list items => .ok items
    | v => .error (.notList k v)) k

/-- The only value of the key as a field list. -/
def fieldList? (f : FieldList) (k : Key) : Except QueryError (Option FieldList) :=
  f.singleAs? (fun
    | .list [] => .ok {}
    | .fields enclosed entries => .ok { enclosed, entries }
    | v => .error (.notFieldList k v)) k

variable {f : FieldList} {k : Key} {v : Value}

theorem single?_eq_ok_some_iff : f.single? k = .ok (some v) ↔ f.get k = [v] := by
  simp only [single?]
  split <;> simp_all

theorem single?_eq_ok_none_iff : f.single? k = .ok none ↔ f.get k = [] := by
  simp only [single?]
  split <;> simp_all

end FieldList

/-- The item at an index, which counts from the end if it is negative. -/
def itemAt (items : List Value) (i : Int) : Except QueryError Value :=
  let j := if i < 0 then i + items.length else i
  match if j < 0 then none else items[j.toNat]? with
  | some v => .ok v
  | none => .error .outOfRange

end GdbMi
