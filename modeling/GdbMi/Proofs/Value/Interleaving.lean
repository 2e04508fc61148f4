import Mathlib.Data.List.Forall2
import Mathlib.Logic.Relation
import GdbMi.Value.Keyed

/-!
# Interleavings

Two lists of keyed things are interleavings of each other if one becomes the other when neighbours
with different keys change places, again and again. Things under one key never overtake each other,
so every key keeps its things in order (`Interleaved.get_eq`), and that is all that is kept: lists
whose keys have the same things in the same order are interleavings of each other. With things that
are related instead of the same, this is `exists_interleaved_iff`.

Both the swaps and the look-up that decides take the first thing under a key out of a list
(`forall_forall₂_get_cons_iff`).
-/

namespace GdbMi.Keyed
set_option autoImplicit false

variable {β γ : Type}

/-- Two neighbours with different keys change places. -/
inductive Swapped : List (Key × β) → List (Key × β) → Prop where
  | neighbours (front : List (Key × β)) {e e' : Key × β} (back : List (Key × β)) : e.1 ≠ e'.1 →
      Swapped (front ++ e :: e' :: back) (front ++ e' :: e :: back)

/-- Neighbours with different keys change places any number of times. -/
def Interleaved : List (Key × β) → List (Key × β) → Prop := Relation.ReflTransGen Swapped

theorem get_cons (k : Key) (e : Key × β) (l : List (Key × β)) :
    get k (e :: l) = if e.1 = k then e.2 :: get k l else get k l := by
  by_cases h : e.1 = k <;> simp [get, h]

theorem mem_get_iff {k : Key} {b : β} {l : List (Key × β)} : b ∈ get k l ↔ (k, b) ∈ l := by
  simp [get]

theorem get_eq_nil_iff {k : Key} {l : List (Key × β)} : get k l = [] ↔ ∀ e ∈ l, e.1 ≠ k := by
  simp [get]

theorem mem_keys_iff_get {k : Key} {l : List (Key × β)} : k ∈ keys l ↔ get k l ≠ [] := by
  simp [keys, get]

theorem eq_nil_iff_get {l : List (Key × β)} : l = [] ↔ ∀ k, get k l = [] := by
  constructor
  · rintro rfl k
    exact get_nil k
  · intro each
    rw [List.eq_nil_iff_forall_not_mem]
    intro e he
    exact get_eq_nil_iff.1 (each e.1) e he rfl

/-! ## Swaps -/

theorem Swapped.get_eq {l m : List (Key × β)} (h : Swapped l m) (k : Key) : get k l = get k m := by
  cases h with
  | neighbours front back other =>
    simp only [get_append, get_cons]
    split
    · next first =>
      subst first
      rw [if_neg other.symm, if_neg other.symm]
    · rfl

theorem Interleaved.get_eq {l m : List (Key × β)} (h : Interleaved l m) (k : Key) :
    get k l = get k m := by
  induction h with
  | refl => rfl
  | tail _ swap ih => exact ih.trans (swap.get_eq k)

theorem Swapped.perm {l m : List (Key × β)} (h : Swapped l m) : l.Perm m := by
  cases h with
  | neighbours front back => exact (List.Perm.swap _ _ back).append_left front

theorem Interleaved.perm {l m : List (Key × β)} (h : Interleaved l m) : l.Perm m := by
  induction h with
  | refl => exact .refl l
  | tail _ swap ih => exact ih.trans swap.perm

theorem Swapped.cons {l m : List (Key × β)} (h : Swapped l m) (e : Key × β) :
    Swapped (e :: l) (e :: m) := by
  cases h with
  | neighbours front back other => exact .neighbours (e :: front) back other

theorem Interleaved.cons {l m : List (Key × β)} (h : Interleaved l m) (e : Key × β) :
    Interleaved (e :: l) (e :: m) :=
  Relation.ReflTransGen.lift (e :: ·) (fun _ _ swap => Swapped.cons swap e) _ _ h

/-- A thing moves behind others under other keys. -/
theorem interleaved_behind (e : Key × β) {front : List (Key × β)} (h : ∀ x ∈ front, x.1 ≠ e.1)
    (back : List (Key × β)) : Interleaved (e :: (front ++ back)) (front ++ e :: back) := by
  induction front with
  | nil => exact .refl
  | cons x front ih =>
    rw [List.forall_mem_cons] at h
    have first : Swapped (e :: x :: (front ++ back)) (x :: e :: (front ++ back)) :=
      .neighbours [] _ h.1.symm
    exact .head first ((ih h.2).cons x)

/-! ## The first thing under a key -/

/-- The first thing under a key divides the list. -/
theorem exists_split_of_get {k : Key} {b : β} {bs : List β} {l : List (Key × β)}
    (h : get k l = b :: bs) :
    ∃ front back, l = front ++ (k, b) :: back ∧ ∀ x ∈ front, x.1 ≠ k := by
  obtain ⟨⟨k', b'⟩, es, filtered, rfl, -⟩ := List.map_eq_cons_iff.1 h
  obtain ⟨front, back, rfl, other, same, -⟩ := List.filter_eq_cons_iff.1 filtered
  obtain rfl : k' = k := by simpa using same
  exact ⟨front, back, rfl, by simpa using other⟩

theorem extract?_of_get_eq_nil {k : Key} {l : List (Key × β)} (h : get k l = []) :
    extract? k l = none := by
  rw [get_eq_nil_iff] at h
  induction l with
  | nil => rfl
  | cons e l ih =>
    rw [List.forall_mem_cons] at h
    rw [extract?, if_neg h.1, ih h.2]
    rfl

theorem extract?_append {k : Key} (b : β) {front : List (Key × β)} (h : ∀ x ∈ front, x.1 ≠ k)
    (back : List (Key × β)) :
    extract? k (front ++ (k, b) :: back) = some (b, front ++ back) := by
  induction front with
  | nil => rw [List.nil_append, extract?, if_pos rfl, List.nil_append]
  | cons x front ih =>
    rw [List.forall_mem_cons] at h
    rw [List.cons_append, extract?, if_neg h.1, ih h.2]
    rfl

/-- A thing in front is related to the first one under its key in the other list, and the things
left over on either side are related in turn, key by key. -/
theorem forall_forall₂_get_cons_iff {R : β → γ → Prop} {k : Key} {b : β} {c : γ}
    {l : List (Key × β)} {front : List (Key × γ)} (h : ∀ x ∈ front, x.1 ≠ k)
    {back : List (Key × γ)} :
    (∀ k', List.Forall₂ R (get k' ((k, b) :: l)) (get k' (front ++ (k, c) :: back))) ↔
      R b c ∧ ∀ k', List.Forall₂ R (get k' l) (get k' (front ++ back)) := by
  have here : get k (front ++ (k, c) :: back) = c :: get k (front ++ back) := by
    rw [get_append, get_append, get_eq_nil_iff.2 h, get_cons, if_pos rfl]
    rfl
  have elsewhere {k' : Key} (other : k ≠ k') :
      get k' (front ++ (k, c) :: back) = get k' (front ++ back) := by
    rw [get_append, get_append, get_cons, if_neg other]
  constructor
  · intro each
    have first := each k
    rw [here, get_cons, if_pos rfl, List.forall₂_cons] at first
    refine ⟨first.1, fun k' => ?_⟩
    by_cases same : k = k'
    · exact same ▸ first.2
    · have rest := each k'
      rwa [elsewhere same, get_cons, if_neg same] at rest
  · rintro ⟨related, each⟩ k'
    rw [get_cons]
    by_cases same : k = k'
    · subst same
      rw [here, if_pos rfl]
      exact .cons related (each k)
    · rw [elsewhere same, if_neg same]
      exact each k'

/-! ## Interleavings of related things -/

theorem forall₂_keyed_iff {R : β → γ → Prop} {l : List (Key × β)} {m : List (Key × γ)} :
    List.Forall₂ (fun e e' => e.1 = e'.1 ∧ R e.2 e'.2) l m ↔
      l.map Prod.fst = m.map Prod.fst ∧ List.Forall₂ R (l.map Prod.snd) (m.map Prod.snd) := by
  induction l generalizing m with
  | nil => cases m <;> simp
  | cons e l ih =>
    cases m with
    | nil => simp
    | cons e' m =>
      simp only [List.forall₂_cons, List.map_cons, List.cons.injEq, ih]
      exact and_and_and_comm

theorem forall₂_get {R : β → γ → Prop} {l : List (Key × β)} {m : List (Key × γ)}
    (h : List.Forall₂ (fun e e' => e.1 = e'.1 ∧ R e.2 e'.2) l m) (k : Key) :
    List.Forall₂ R (get k l) (get k m) := by
  induction h with
  | nil => exact .nil
  | @cons e e' l m related _ ih =>
    obtain ⟨same, related⟩ := related
    rw [get_cons, get_cons, same]
    split
    · exact .cons related ih
    · exact ih

/-- **Key by key.** A list is, up to swaps of neighbours with different keys, related to another one
thing by thing if the things under each key are related in turn. -/
theorem exists_interleaved_iff {R : β → γ → Prop} {l : List (Key × β)} {m : List (Key × γ)} :
    (∃ middle, Interleaved l middle ∧
      List.Forall₂ (fun e e' => e.1 = e'.1 ∧ R e.2 e'.2) middle m) ↔
      ∀ k, List.Forall₂ R (get k l) (get k m) := by
  constructor
  · rintro ⟨middle, swaps, related⟩ k
    rw [swaps.get_eq k]
    exact forall₂_get related k
  · intro each
    induction l generalizing m with
    | nil =>
      obtain rfl := eq_nil_iff_get.2 fun k => List.forall₂_nil_left_iff.1 (each k)
      exact ⟨[], .refl, .nil⟩
    | cons e l ih =>
      obtain ⟨k, b⟩ := e
      -- the first thing under the key in the other list is where this one has to go
      have first := each k
      rw [get_cons, if_pos rfl, List.forall₂_cons_left_iff] at first
      obtain ⟨c, cs, -, -, under⟩ := first
      obtain ⟨front, back, rfl, other⟩ := exists_split_of_get under
      rw [forall_forall₂_get_cons_iff other] at each
      obtain ⟨middle, swaps, related⟩ := ih each.2
      have before := List.forall₂_take_append middle front back related
      have after := List.forall₂_drop_append middle front back related
      have passed := forall₂_get before k
      rw [get_eq_nil_iff.2 other, List.forall₂_nil_right_iff, get_eq_nil_iff] at passed
      have behind := interleaved_behind (k, b) passed (middle.drop front.length)
      rw [List.take_append_drop] at behind
      exact ⟨middle.take front.length ++ (k, b) :: middle.drop front.length,
        (swaps.cons (k, b)).trans behind, List.rel_append before (.cons ⟨rfl, each.1⟩ after)⟩

end GdbMi.Keyed
