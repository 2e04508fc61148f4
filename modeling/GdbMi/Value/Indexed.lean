import GdbMi.Value.Builder
import GdbMi.Value.Query

/-!
# Field lists with an index

A field list that keeps, beside its entries, an index of them: each key with all its values. An
entry that is added goes to the end of the entries, and in the index under its key, where it comes
behind the values that are there already. Nothing else keeps the two in step. Keys and values are
looked up in the index alone, the size is the number of entries. This is `FieldList` with all that
it stores, `_entries` and `_index`, and `add` is `_add`.
-/

namespace GdbMi
set_option autoImplicit false

/-- Files a thing under its key: behind those that are there, or under a new key at the end. -/
def Keyed.file {β : Type} (k : Key) (b : β) : List (Key × List β) → List (Key × List β)
  | [] => [(k, [b])]
  | (k', bs) :: index =>
    if k' = k then (k', bs ++ [b]) :: index else (k', bs) :: file k b index

/-- A field list with an index of its entries. -/
structure Indexed where
  enclosed : Bool := false
  entries : List (Key × Value) := []
  index : List (Key × List Value) := []

namespace Indexed

/-- Adds an entry, to the entries and to the index. -/
def add (s : Indexed) (k : Key) (v : Value) : Indexed :=
  { s with entries := s.entries ++ [(k, v)], index := Keyed.file k v s.index }

/-- The field list without the index. -/
def toFieldList (s : Indexed) : FieldList := { enclosed := s.enclosed, entries := s.entries }

/-- The number of entries. -/
def size (s : Indexed) : Nat := s.entries.length

/-- The keys in the index. -/
def keys (s : Indexed) : List Key := s.index.map Prod.fst

/-- All values of the key in the index. -/
def get (s : Indexed) (k : Key) : List Value := (s.index.lookup k).getD []

/-- Whether the key is in the index. -/
def contains (s : Indexed) (k : Key) : Bool := (s.index.lookup k).isSome

/-- The only value of the key in the index, or `none` if it has no value there. -/
def single? (s : Indexed) (k : Key) : Except QueryError (Option Value) :=
  match s.index.lookup k with
  | none | some [] => .ok none
  | some [v] => .ok (some v)
  | some values => .error (.multiValued k values)

end Indexed

/-- What is done with a builder. -/
inductive BuilderStep where
  | add (key : Key) (p : Plain)
  | build

/-- The field lists that a builder hands over in a run of steps, in order. A refused addition leaves
the builder as it is. -/
def Builder.handOver (b : Builder) : List BuilderStep → List FieldList
  | [] => []
  | .add key p :: steps =>
    match b.add key p with
    | .ok b => b.handOver steps
    | .error _ => b.handOver steps
  | .build :: steps => b.build.1 :: b.build.2.handOver steps

/-- The field lists, with their indexes, that come of a run of steps of a builder which holds the
given one. -/
def Indexed.handOver (s : Indexed) : List BuilderStep → List Indexed
  | [] => []
  | .add key p :: steps =>
    match p.toValue with
    | .ok v => (s.add key v).handOver steps
    | .error _ => s.handOver steps
  | .build :: steps => s :: Indexed.handOver {} steps

end GdbMi
