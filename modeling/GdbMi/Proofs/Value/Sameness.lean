import GdbMi.Proofs.Value.Interleaving
import GdbMi.Proofs.Value.Unwrapped
import GdbMi.Value.Query

/-!
# Equal values

Two field lists are equal if one becomes the other when neighbouring entries with different keys
change places and values are replaced by equal ones, and so on inside the values. `Value.Equal` says
so without an algorithm; it knows texts, lists and field lists apart and does not see braces.
Main statement: sameness decides it (`same_iff_equal`).

What both come to is that under each key the values are equal in turn (`same_fields_iff`), and from
this sameness is seen to be an equivalence.
-/

namespace GdbMi
set_option autoImplicit false

/-- Equality of values. The entries of equal field lists are brought to the same order of keys by
swaps of neighbours with different keys, and then their values are equal in turn. -/
inductive Value.Equal : Value → Value → Prop where
  | text (s : String) : Equal (.text s) (.text s)
  | list {items others : List Value} :
      List.Forall₂ Equal items others → Equal (.list items) (.list others)
  | fields {enclosed enclosed' : Bool} {entries middle others : List (Key × Value)} :
      Keyed.Interleaved entries middle → middle.map Prod.fst = others.map Prod.fst →
      List.Forall₂ Equal (middle.map Prod.snd) (others.map Prod.snd) →
      Equal (.fields enclosed entries) (.fields enclosed' others)

/-! ## Lists of related things -/

theorem forall₂_imp_of_mem {α β : Type} {R S : α → β → Prop} {xs : List α} {ys : List β}
    (h : ∀ x ∈ xs, ∀ y, R x y → S x y) (related : List.Forall₂ R xs ys) : List.Forall₂ S xs ys :=
  ((List.forall₂_and_left xs ys).2 ⟨h, related⟩).imp fun _ y each => each.1 y each.2

theorem forall₂_congr_of_mem {α β : Type} {R S : α → β → Prop} {xs : List α} {ys : List β}
    (h : ∀ x ∈ xs, ∀ y, R x y ↔ S x y) : List.Forall₂ R xs ys ↔ List.Forall₂ S xs ys :=
  ⟨forall₂_imp_of_mem fun x hx y => (h x hx y).1, forall₂_imp_of_mem fun x hx y => (h x hx y).2⟩

theorem forall₂_trans_of_mem {α : Type} {R : α → α → Prop} {xs ys zs : List α}
    (h : ∀ x ∈ xs, ∀ y z, R x y → R y z → R x z) (first : List.Forall₂ R xs ys)
    (second : List.Forall₂ R ys zs) : List.Forall₂ R xs zs := by
  induction first generalizing zs with
  | nil => exact second
  | cons related _ ih =>
    rw [List.forall_mem_cons] at h
    cases second with
    | cons related' rest => exact .cons (h.1 _ _ related related') (ih h.2 rest)

namespace Value

/-! ## Key by key -/

/-- The values are the same. -/
def Same (v w : Value) : Prop := v.same w = true

theorem same_text_iff {s : String} {w : Value} : (text s).Same w ↔ w = text s := by
  rw [eq_comm]
  cases w <;> simp [Same, same]

theorem sameItems_iff {items others : List Value} :
    sameItems items others = true ↔ List.Forall₂ Same items others := by
  induction items generalizing others with
  | nil => cases others <;> simp [sameItems]
  | cons v items ih =>
    cases others with
    | nil => simp [sameItems]
    | cons w others => rw [sameItems, Bool.and_eq_true, ih, List.forall₂_cons, Same]

theorem same_list_iff {items : List Value} {w : Value} :
    (list items).Same w ↔ ∃ others, w = list others ∧ List.Forall₂ Same items others := by
  cases w <;> simp [Same, same, sameItems_iff]

theorem sameEntries_iff {entries others : List (Key × Value)} :
    sameEntries entries others = true ↔
      ∀ k, List.Forall₂ Same (Keyed.get k entries) (Keyed.get k others) := by
  induction entries generalizing others with
  | nil =>
    rw [sameEntries, List.isEmpty_iff, Keyed.eq_nil_iff_get]
    simp only [Keyed.get_nil, List.forall₂_nil_left_iff]
  | cons e entries ih =>
    obtain ⟨k, v⟩ := e
    cases under : Keyed.get k others with
    | nil =>
      rw [sameEntries, Keyed.extract?_of_get_eq_nil under]
      refine ⟨fun same => absurd same Bool.false_ne_true, fun each => ?_⟩
      have first := each k
      rw [under, Keyed.get_cons, if_pos rfl] at first
      cases first
    | cons w ws =>
      obtain ⟨front, back, rfl, other⟩ := Keyed.exists_split_of_get under
      rw [sameEntries, Keyed.extract?_append w other, Bool.and_eq_true, ih,
        Keyed.forall_forall₂_get_cons_iff other]
      rfl

/-- Field lists are the same if each key has the same values in turn. -/
theorem same_fields_iff {enclosed : Bool} {entries : List (Key × Value)} {w : Value} :
    (fields enclosed entries).Same w ↔
      ∃ enclosed' others, w = fields enclosed' others ∧
        ∀ k, List.Forall₂ Same (Keyed.get k entries) (Keyed.get k others) := by
  cases w <;> simp [Same, same, sameEntries_iff]

theorem equal_fields_iff {enclosed enclosed' : Bool} {entries others : List (Key × Value)} :
    (fields enclosed entries).Equal (fields enclosed' others) ↔
      ∃ middle, Keyed.Interleaved entries middle ∧
        List.Forall₂ (fun e e' => e.1 = e'.1 ∧ e.2.Equal e'.2) middle others := by
  constructor
  · intro h
    cases h with
    | fields swaps keys values =>
      exact ⟨_, swaps, Keyed.forall₂_keyed_iff.2 ⟨keys, values⟩⟩
  · rintro ⟨middle, swaps, related⟩
    obtain ⟨keys, values⟩ := Keyed.forall₂_keyed_iff.1 related
    exact .fields swaps keys values

/-- Sameness decides equality. -/
theorem same_iff {v w : Value} : v.Same w ↔ v.Equal w := by
  induction v using Value.inductionOn generalizing w with
  | text s =>
    rw [same_text_iff]
    constructor
    · rintro rfl
      exact .text s
    · intro h
      cases h
      rfl
  | list items ih =>
    rw [same_list_iff]
    constructor
    · rintro ⟨others, rfl, each⟩
      exact .list ((forall₂_congr_of_mem fun v hv _ => ih v hv).1 each)
    · intro h
      cases h with
      | list each => exact ⟨_, rfl, (forall₂_congr_of_mem fun v hv _ => ih v hv).2 each⟩
  | fields enclosed entries ih =>
    have under (k : Key) (others : List (Key × Value)) :
        List.Forall₂ Same (Keyed.get k entries) (Keyed.get k others) ↔
          List.Forall₂ Equal (Keyed.get k entries) (Keyed.get k others) :=
      forall₂_congr_of_mem fun v hv _ => ih (k, v) (Keyed.mem_get_iff.1 hv)
    simp only [same_fields_iff, under, ← Keyed.exists_interleaved_iff]
    constructor
    · rintro ⟨enclosed', others, rfl, related⟩
      exact equal_fields_iff.2 related
    · intro h
      cases h with
      | fields swaps keys values =>
        exact ⟨_, _, rfl, _, swaps, Keyed.forall₂_keyed_iff.2 ⟨keys, values⟩⟩

/-! ## An equivalence -/

theorem same_symm {v w : Value} (h : v.Same w) : w.Same v := by
  induction v using Value.inductionOn generalizing w with
  | text s =>
    obtain rfl := same_text_iff.1 h
    exact same_text_iff.2 rfl
  | list items ih =>
    obtain ⟨others, rfl, each⟩ := same_list_iff.1 h
    exact same_list_iff.2 ⟨items, rfl, (forall₂_imp_of_mem (fun v hv _ => ih v hv) each).flip⟩
  | fields enclosed entries ih =>
    obtain ⟨enclosed', others, rfl, each⟩ := same_fields_iff.1 h
    refine same_fields_iff.2 ⟨enclosed, entries, rfl, fun k => ?_⟩
    exact (forall₂_imp_of_mem (fun v hv _ => ih (k, v) (Keyed.mem_get_iff.1 hv)) (each k)).flip

theorem same_trans {u v w : Value} (h : u.Same v) (h' : v.Same w) : u.Same w := by
  induction u using Value.inductionOn generalizing v w with
  | text s =>
    obtain rfl := same_text_iff.1 h
    exact h'
  | list items ih =>
    obtain ⟨others, rfl, first⟩ := same_list_iff.1 h
    obtain ⟨thirds, rfl, second⟩ := same_list_iff.1 h'
    exact same_list_iff.2
      ⟨thirds, rfl, forall₂_trans_of_mem (fun v hv _ _ => ih v hv) first second⟩
  | fields enclosed entries ih =>
    obtain ⟨_, others, rfl, first⟩ := same_fields_iff.1 h
    obtain ⟨enclosed', thirds, rfl, second⟩ := same_fields_iff.1 h'
    refine same_fields_iff.2 ⟨enclosed', thirds, rfl, fun k => ?_⟩
    exact forall₂_trans_of_mem (fun v hv _ _ => ih (k, v) (Keyed.mem_get_iff.1 hv))
      (first k) (second k)

end Value

namespace FieldList

theorem same_equivalence : Equivalence fun f g : FieldList => f.same g = true where
  refl f := Value.same_self f.toValue
  symm h := Value.same_symm h
  trans h h' := Value.same_trans h h'

theorem same_iff {f g : FieldList} :
    f.same g = true ↔ ∃ middle, Keyed.Interleaved f.entries middle ∧
      List.Forall₂ (fun e e' => e.1 = e'.1 ∧ e.2.Equal e'.2) middle g.entries :=
  Value.same_iff.trans Value.equal_fields_iff

/-- Equal field lists look alike: they have the same number of entries, the same keys, and under
each key equal values in turn. -/
theorem views_of_same {f g : FieldList} (h : f.same g = true) :
    f.size = g.size ∧ (∀ k, k ∈ f.keys ↔ k ∈ g.keys) ∧
      ∀ k, List.Forall₂ Value.Equal (f.get k) (g.get k) := by
  obtain ⟨middle, swaps, related⟩ := same_iff.1 h
  have each := Keyed.exists_interleaved_iff.1 ⟨middle, swaps, related⟩
  refine ⟨swaps.perm.length_eq.trans related.length_eq, fun k => ?_, each⟩
  rw [keys, keys, Keyed.mem_keys_iff_get, Keyed.mem_keys_iff_get, ← List.length_eq_zero_iff.ne,
    (each k).length_eq, List.length_eq_zero_iff.ne]

end FieldList

/-- **Equality of field lists.** Sameness decides whether entries come to be the same when
neighbours with different keys change places and values are replaced by equal ones. It is an
equivalence, and field lists that are the same have the same size, the same keys and, under each
key, equal values in turn. -/
theorem same_iff_equal :
    (∀ v w : Value, v.same w = true ↔ v.Equal w) ∧
      (∀ f g : FieldList, f.same g = true ↔ ∃ middle, Keyed.Interleaved f.entries middle ∧
        List.Forall₂ (fun e e' => e.1 = e'.1 ∧ e.2.Equal e'.2) middle g.entries) ∧
      (Equivalence fun f g : FieldList => f.same g = true) ∧
      ∀ f g : FieldList, f.same g = true →
        f.size = g.size ∧ (∀ k, k ∈ f.keys ↔ k ∈ g.keys) ∧
          ∀ k, List.Forall₂ Value.Equal (f.get k) (g.get k) :=
  ⟨fun _ _ => Value.same_iff, fun _ _ => FieldList.same_iff, FieldList.same_equivalence,
    fun _ _ => FieldList.views_of_same⟩

/-- The entry under `b` passes both entries under `a`, which stay in order, and the braces of the
last value do not count. -/
theorem same_iff_equal_repeated :
    Value.Equal
      (.fields false [(.named "a", .text "1"), (.named "a", .list [.fields true []]),
        (.named "b", .text "2")])
      (.fields true [(.named "b", .text "2"), (.named "a", .text "1"),
        (.named "a", .list [.fields false []])]) :=
  (same_iff_equal.1 _ _).1 (by decide)

end GdbMi
