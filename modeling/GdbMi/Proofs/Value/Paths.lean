import GdbMi.Proofs.Value.RoundTrip
import GdbMi.Value.Query

/-!
# Look-ups after reading back

The canonical text of a field list is read as its normal one, in which empty lists stand for empty
bare field lists. A look-up of a field list takes an empty list for an empty field list, so it
gives on the normal field list what it gives on the original one, made normal (`fieldList?_normal`),
and so it is with look-ups one after the other along a path of keys. Main statement: nothing that
they tell but values is changed when a field list is written and read back (`alike_after_render`).
-/

namespace GdbMi
set_option autoImplicit false

/-- What comes of looking up a field list. -/
abbrev Found := Except QueryError (Option FieldList)

/-- The error of the same look-up on the normal field list. -/
def QueryError.normal : QueryError → QueryError
  | multiValued key values => multiValued key (values.map Value.normal)
  | notString key value => notString key value.normal
  | notList key value => notList key value.normal
  | notFieldList key value => notFieldList key value.normal
  | outOfRange => outOfRange

/-- What comes of the same look-up on the normal field list. -/
def Found.normal : Found → Found
  | .ok found => .ok (found.map FieldList.normal)
  | .error e => .error e.normal

/-- Nobody can tell the two apart who does not look at values: both are absent, the key has as many
values, its value is no field list, or the field lists found have the same keys in the same
order. -/
inductive Found.Alike : Found → Found → Prop where
  | absent : Alike (.ok none) (.ok none)
  | multiValued (key : Key) {values others : List Value} : values.length = others.length →
      Alike (.error (.multiValued key values)) (.error (.multiValued key others))
  | notFieldList (key : Key) (v w : Value) :
      Alike (.error (.notFieldList key v)) (.error (.notFieldList key w))
  | found {f g : FieldList} : f.entries.map Prod.fst = g.entries.map Prod.fst →
      Alike (.ok (some f)) (.ok (some g))

namespace FieldList

/-- Looks up one key after the other, each in the field list found under the one before, and gives
what comes of every step. The first step that finds no field list is the last one. -/
def follow (f : FieldList) : List Key → List Found
  | [] => []
  | k :: path =>
    let found := f.fieldList? k
    found :: match found with
      | .ok (some g) => g.follow path
      | _ => []

theorem get_normal (f : FieldList) (k : Key) : f.normal.get k = (f.get k).map Value.normal := by
  simp only [get, Keyed.get, normal, Value.normalEntries_eq_map, List.filter_map, List.map_map]
  rfl

theorem map_fst_normal (f : FieldList) :
    f.normal.entries.map Prod.fst = f.entries.map Prod.fst := by
  rw [normal, Value.normalEntries_eq_map, List.map_map]
  rfl

/-! ## One look-up -/

/-- What comes of a look-up under a key that has the one value. -/
def viewAt (k : Key) : Value → Found
  | .list [] => .ok (some {})
  | .fields enclosed entries => .ok (some { enclosed, entries })
  | v => .error (.notFieldList k v)

theorem fieldList?_eq (f : FieldList) (k : Key) :
    f.fieldList? k = match f.get k with
      | [] => .ok none
      | [v] => viewAt k v
      | values => .error (.multiValued k values) := by
  rw [fieldList?, singleAs?, single?]
  rcases f.get k with _ | ⟨v, _ | _⟩
  · rfl
  · rcases v with _ | (_ | _) | _ <;> rfl
  · rfl

/-- An empty list is taken for an empty field list, so nothing is lost where the one stands in place
of the other. -/
theorem viewAt_normal (k : Key) (v : Value) : viewAt k v.normal = (viewAt k v).normal := by
  cases v with
  | text => rfl
  | list items => cases items <;> rfl
  | fields enclosed entries => cases enclosed <;> cases entries <;> rfl

/-- A look-up on the normal field list gives what it gives on the field list, made normal. -/
theorem fieldList?_normal (f : FieldList) (k : Key) :
    f.normal.fieldList? k = Found.normal (f.fieldList? k) := by
  rw [fieldList?_eq, fieldList?_eq, get_normal]
  rcases f.get k with _ | ⟨v, _ | _⟩
  · rfl
  · exact viewAt_normal k v
  · rfl

theorem alike_normal (f : FieldList) (k : Key) :
    Found.Alike (f.fieldList? k) (Found.normal (f.fieldList? k)) := by
  rw [fieldList?_eq]
  rcases f.get k with _ | ⟨v, _ | _⟩
  · exact .absent
  · rcases v with _ | (_ | _) | _
    · exact .notFieldList k _ _
    · exact .found rfl
    · exact .notFieldList k _ _
    · exact .found (map_fst_normal _).symm
  · exact .multiValued k (List.length_map _).symm

/-! ## Look-ups along a path -/

/-- The induction is on the path: a step finds a field list exactly if it finds one in the normal
field list, and that is then the normal one of it. -/
theorem forall₂_alike_follow (f : FieldList) (path : List Key) :
    List.Forall₂ Found.Alike (f.follow path) (f.normal.follow path) := by
  induction path generalizing f with
  | nil => exact .nil
  | cons k path ih =>
    have first := alike_normal f k
    rw [follow, follow, fieldList?_normal]
    rcases looked : f.fieldList? k with e | (_ | g) <;> rw [looked] at first
    · exact .cons first .nil
    · exact .cons first .nil
    · exact .cons first (ih g)

end FieldList

/-- **Look-ups do not see that a field list was written and read back.** The canonical text of a
field list that was read is read as a field list with the same keys in the same order. Along every
path of keys, look-ups in the two come to the same: they end at the same step, and at every step
both find nothing, or both are refused for as many values of the same key or because its value is no
field list, or both find field lists with the same keys in the same order. That holds for an empty
bare field list too, although it is read back as an empty list. -/
theorem alike_after_render (t s : Text) (f : FieldList) (h : FieldList.parse t = .ok f)
    (hs : f.render = .ok s) :
    ∃ g, FieldList.parse s = .ok g ∧ f.entries.map Prod.fst = g.entries.map Prod.fst ∧
      (∀ path, List.Forall₂ Found.Alike (f.follow path) (g.follow path)) ∧
      ∀ k, f.get k = [.fields false []] → g.get k = [.list []] ∧
        f.fieldList? k = .ok (some {}) ∧ g.fieldList? k = .ok (some {}) := by
  have bare : f.enclosed = false := (FieldList.parse_eq_ok_iff.1 h).1
  have again := FieldList.parse_render bare (FieldList.shaped_of_parse h) hs
  refine ⟨f.normal, again, f.map_fst_normal.symm, f.forall₂_alike_follow, ?_⟩
  intro k empty
  have other : f.normal.get k = [.list []] := by
    rw [f.get_normal, empty]
    rfl
  refine ⟨other, ?_, ?_⟩
  · rw [f.fieldList?_eq, empty]
    rfl
  · rw [f.normal.fieldList?_eq, other]
    rfl

/-- The value of `a` between the braces is an empty bare field list, which is written as an empty
list; below it there is nothing. -/
theorem alike_after_render_empty :
    ∃ g, FieldList.parse (Text.ofString "x=\x7ba=[]\x7d") = .ok g ∧
      List.Forall₂ Found.Alike
        [.ok (some { enclosed := true, entries := [(.named "a", .fields false [])] }),
          .ok (some {}), .ok none]
        (g.follow [.named "x", .named "a", .named "b"]) := by
  obtain ⟨g, again, -, follows, -⟩ :=
    alike_after_render (Text.ofString "x=\x7ba=\x7d") (Text.ofString "x=\x7ba=[]\x7d")
      { entries := [(.named "x", .fields true [(.named "a", .fields false [])])] } rfl rfl
  exact ⟨g, again, follows [.named "x", .named "a", .named "b"]⟩

end GdbMi
