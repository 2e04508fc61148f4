import GdbMi.Value.Keyed

/-!
# Sameness of values

Two strings are the same if they are equal, two lists if their items are in turn. Two field lists
are the same if every key has the same values in the same order: neither the order between
different keys nor the braces count. `Value.same` decides it by taking the first value of each
entry's key out of the other list. This is the equality of values, for which `__eq__` of `FieldList`
compares what each key has in the two indexes.
-/

namespace GdbMi
set_option autoImplicit false

mutual

/-- Whether two values are the same. -/
def Value.same : Value → Value → Bool
  | .text s, .text t => s == t
  | .list items, .list others => Value.sameItems items others
  | .fields _ entries, .fields _ others => Value.sameEntries entries others
  | _, _ => false

/-- Whether two lists of items are the same. -/
def Value.sameItems : List Value → List Value → Bool
  | [], others => others.isEmpty
  | _ :: _, [] => false
  | v :: items, w :: others => v.same w && Value.sameItems items others

/-- Whether two lists of entries are the same. -/
def Value.sameEntries : List (Key × Value) → List (Key × Value) → Bool
  | [], others => others.isEmpty
  | (k, v) :: entries, others =>
    match Keyed.extract? k others with
    | none => false
    | some (w, others) => v.same w && Value.sameEntries entries others

end

/-- Whether two field lists are the same. -/
def FieldList.same (f g : FieldList) : Bool := f.toValue.same g.toValue

example : Value.same (.fields true [(.named "a", .text "1"), (.named "b", .text "2")])
    (.fields false [(.named "b", .text "2"), (.named "a", .text "1")]) = true := by decide

end GdbMi
