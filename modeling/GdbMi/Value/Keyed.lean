import GdbMi.Value.Basic

/-!
# Entries by key

Views of a list of keyed things in which keys may repeat: the distinct keys in order of first
appearance, all things under one key in order, the grouping by key, and the first thing under a key
taken out. Main statements: `mem_keys_iff`, `nodup_keys`, and `get_append`, which says that a key's
things in a longer list are those of its parts in order. `group` is what a `FieldList` keeps as its
`_index`.
-/

namespace GdbMi.Keyed
set_option autoImplicit false

variable {β : Type}

/-- The distinct keys, in order of first appearance. -/
def keys (l : List (Key × β)) : List Key := (l.map Prod.fst).eraseDups

/-- All things under the key, in order. -/
def get (k : Key) (l : List (Key × β)) : List β := (l.filter fun e => e.1 == k).map Prod.snd

/-- Whether there is a thing under the key. -/
def contains (k : Key) (l : List (Key × β)) : Bool := l.any fun e => e.1 == k

/-- Each distinct key with all the things under it. -/
def group (l : List (Key × β)) : List (Key × List β) := (keys l).map fun k => (k, get k l)

/-- The first thing under the key, and the list without it. -/
def extract? (k : Key) : List (Key × β) → Option (β × List (Key × β))
  | [] => none
  | e :: l =>
    if e.1 = k then some (e.2, l)
    else (extract? k l).map fun (b, l) => (b, e :: l)

theorem mem_keys_iff {k : Key} {l : List (Key × β)} : k ∈ keys l ↔ ∃ b, (k, b) ∈ l := by
  simp [keys]

theorem nodup_keys (l : List (Key × β)) : (keys l).Nodup := by
  have nodup (n : Nat) (as : List Key) (h : as.length ≤ n) : as.eraseDups.Nodup := by
    induction n generalizing as with
    | zero => rw [List.length_eq_zero_iff.1 (Nat.le_zero.1 h)]; simp
    | succ n ih =>
      cases as with
      | nil => simp
      | cons a as =>
        rw [List.eraseDups_cons, List.nodup_cons]
        have := List.length_filter_le (fun b => !b == a) as
        exact ⟨by simp, ih _ (by simp only [List.length_cons] at h; omega)⟩
  exact nodup _ _ (Nat.le_refl _)

theorem get_nil (k : Key) : get k ([] : List (Key × β)) = [] := rfl

theorem get_append (k : Key) (l m : List (Key × β)) : get k (l ++ m) = get k l ++ get k m := by
  simp [get]

theorem contains_iff {k : Key} {l : List (Key × β)} : contains k l = true ↔ get k l ≠ [] := by
  simp [contains, get]

end GdbMi.Keyed
