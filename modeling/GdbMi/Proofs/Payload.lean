import Mathlib.Data.List.Induction
import Mathlib.Data.List.Nodup
import Mathlib.Data.List.Perm.Basic
import GdbMi.Payload
import GdbMi.Proofs.Value.Normal
import GdbMi.Proofs.Value.Sameness

/-!
# Values as plain data

`Value.Converts` describes what a value comes to as plain data without grouping anything: a
dictionary is told by the entries that it is made of (`Payload.DictOf`), the order of its members by
where each key first appears among them. Main statement: the conversion gives what is described and
nothing else, and no string is lost or doubled on the way (`toPayload_conserves`).

Strings do change places, because a dictionary brings the values of a key together. That this is all
that happens to them is `Keyed.flatMap_get_perm`.
-/

namespace GdbMi
set_option autoImplicit false

/-! ## Grouping -/

namespace Keyed

variable {β : Type}

theorem sizeOf_snd_lt [SizeOf β] {e : Key × β} {l : List (Key × β)} (h : e ∈ l) :
    sizeOf e.2 < sizeOf l := by
  have inside : sizeOf e.2 < sizeOf e := by
    obtain ⟨k, b⟩ := e
    change sizeOf b < sizeOf (k, b)
    rw [Prod.mk.sizeOf_spec]
    omega
  exact Nat.lt_trans inside (List.sizeOf_lt_of_mem h)

/-- Without their repetitions, keys stand in the order in which they first appear. The induction
adds keys at the end, where nothing that was there changes its place. -/
theorem pairwise_idxOf_eraseDups (ks : List Key) :
    ks.eraseDups.Pairwise fun a b => ks.idxOf a < ks.idxOf b := by
  induction ks using List.reverseRecOn with
  | nil => simp
  | append_singleton ks k ih =>
    have before : ks.eraseDups.Pairwise
        fun a b => (ks ++ [k]).idxOf a < (ks ++ [k]).idxOf b := by
      refine ih.imp_of_mem fun ha hb first => ?_
      rw [List.mem_eraseDups] at ha hb
      rwa [List.idxOf_append_of_mem ha, List.idxOf_append_of_mem hb]
    rw [List.eraseDups_append]
    by_cases old : k ∈ ks
    · simpa [List.removeAll, old] using before
    · have last : ([k].removeAll ks).eraseDups = [k] := by
        simp [List.removeAll, old, List.eraseDups_cons]
      rw [last, List.pairwise_append]
      refine ⟨before, List.pairwise_singleton _ _, fun a ha b hb => ?_⟩
      obtain rfl := List.mem_singleton.1 hb
      rw [List.mem_eraseDups] at ha
      rw [List.idxOf_append_of_mem ha, List.idxOf_append_of_notMem old]
      exact Nat.lt_add_right _ (List.idxOf_lt_length_of_mem ha)

/-- The things under each key, one key after the other, are all things in another order. -/
theorem flatMap_get_perm {ks : List Key} (distinct : ks.Nodup) {l : List (Key × β)}
    (covered : ∀ e ∈ l, e.1 ∈ ks) : (ks.flatMap fun k => get k l).Perm (l.map Prod.snd) := by
  induction l with
  | nil => simp [get_nil]
  | cons e l ih =>
    rw [List.forall_mem_cons] at covered
    have rest := ih covered.2
    obtain ⟨front, back, rfl⟩ := List.append_of_mem covered.1
    have new := (List.nodup_cons.1 (List.nodup_middle.1 distinct)).1
    rw [List.mem_append, not_or] at new
    have elsewhere {part : List Key} (other : e.1 ∉ part) :
        (part.flatMap fun k => get k (e :: l)) = part.flatMap fun k => get k l := by
      refine List.flatMap_congr fun k hk => ?_
      rw [get_cons, if_neg fun same : e.1 = k => other (same ▸ hk)]
    rw [List.flatMap_append, List.flatMap_cons] at rest ⊢
    rw [elsewhere new.1, elsewhere new.2, get_cons, if_pos rfl, List.cons_append]
    exact List.perm_middle.trans (rest.cons e.2)

end Keyed

/-! ## What values come to -/

/-- The strings in plain data, in order. -/
def Payload.leaves : Payload → List String
  | .text s => [s]
  | .list items => items.flatMap leaves
  | .dict members => members.flatMap fun m => m.2.leaves
decreasing_by
  · decreasing_tactic
  · have := Keyed.sizeOf_snd_lt ‹m ∈ members›
    decreasing_tactic

/-- The strings in a value, in order. -/
def Value.texts : Value → List String
  | .text s => [s]
  | .list items => items.flatMap texts
  | .fields _ entries => entries.flatMap fun e => e.2.texts
decreasing_by
  · decreasing_tactic
  · have := Keyed.sizeOf_snd_lt ‹e ∈ entries›
    decreasing_tactic

/-- What a dictionary of entries has as its members: each key once, and what it holds. -/
structure Payload.DictOf (entries members : List (Key × Payload)) : Prop where
  /-- The keys of the entries are there, and no others. -/
  keys : ∀ k, k ∈ members.map Prod.fst ↔ k ∈ entries.map Prod.fst
  /-- They stand in the order in which they first appear. -/
  order : (members.map Prod.fst).Pairwise fun k k' =>
    (entries.map Prod.fst).idxOf k < (entries.map Prod.fst).idxOf k'
  /-- A key that occurs once holds its value. -/
  single : ∀ k p q, (k, p) ∈ members → Keyed.get k entries = [q] → p = q
  /-- Any other key holds the list of its values, in the order of the entries. -/
  several : ∀ k p, (k, p) ∈ members → (Keyed.get k entries).length ≠ 1 →
    p = .list (Keyed.get k entries)

/-- A value inside another one comes to the plain data. A field list between braces becomes a
dictionary of its entries with their values converted, a bare one the list of these values. -/
inductive Value.ConvertsInside : Value → Payload → Prop where
  | text (s : String) : ConvertsInside (.text s) (.text s)
  | list {items : List Value} {ps : List Payload} :
      List.Forall₂ ConvertsInside items ps → ConvertsInside (.list items) (.list ps)
  | enclosed {entries : List (Key × Value)} {converted members : List (Key × Payload)} :
      entries.map Prod.fst = converted.map Prod.fst →
      List.Forall₂ ConvertsInside (entries.map Prod.snd) (converted.map Prod.snd) →
      Payload.DictOf converted members → ConvertsInside (.fields true entries) (.dict members)
  | bare {entries : List (Key × Value)} {ps : List Payload} :
      List.Forall₂ ConvertsInside (entries.map Prod.snd) ps →
      ConvertsInside (.fields false entries) (.list ps)

/-- The value comes to the plain data. At the top, a field list counts as one between braces. -/
def Value.Converts (v : Value) (p : Payload) : Prop :=
  match v with
  | .fields _ entries => (Value.fields true entries).ConvertsInside p
  | v => v.ConvertsInside p

namespace Payload

variable {entries members : List (Key × Payload)}

/-! ## Dictionaries -/

/-- What the grouping of entries comes to, key by key. -/
def gathered (entries : List (Key × Payload)) : List (Key × Payload) :=
  (Keyed.keys entries).map fun k => (k, ofValues (Keyed.get k entries))

theorem ofEntries_eq (entries : List (Key × Payload)) :
    ofEntries entries = .dict (gathered entries) := by
  rw [ofEntries, Keyed.group, List.map_map]
  rfl

theorem map_fst_gathered (entries : List (Key × Payload)) :
    (gathered entries).map Prod.fst = Keyed.keys entries := by
  rw [gathered, List.map_map]
  exact List.map_id _

theorem eq_ofValues_of_mem_gathered {m : Key × Payload} (hm : m ∈ gathered entries) :
    m.2 = ofValues (Keyed.get m.1 entries) := by
  obtain ⟨k, -, rfl⟩ := List.mem_map.1 hm
  rfl

theorem ofValues_of_length_ne_one {ps : List Payload} (h : ps.length ≠ 1) :
    ofValues ps = .list ps := by
  match ps with
  | [] => rfl
  | [p] => exact absurd rfl h
  | p :: q :: ps => rfl

theorem DictOf.map_fst_eq (h : DictOf entries members) :
    members.map Prod.fst = Keyed.keys entries := by
  have distinct : (members.map Prod.fst).Nodup := h.order.imp fun first same => by
    rw [same] at first
    exact Nat.lt_irrefl _ first
  have same : (members.map Prod.fst).Perm (Keyed.keys entries) := by
    rw [List.perm_ext_iff_of_nodup distinct (Keyed.nodup_keys entries)]
    intro k
    rw [h.keys, Keyed.keys, List.mem_eraseDups]
  exact same.eq_of_pairwise (fun _ _ _ _ first second => absurd second (Nat.lt_asymm first))
    h.order (Keyed.pairwise_idxOf_eraseDups _)

theorem DictOf.eq_ofValues (h : DictOf entries members) {m : Key × Payload} (hm : m ∈ members) :
    m.2 = ofValues (Keyed.get m.1 entries) := by
  by_cases single : (Keyed.get m.1 entries).length = 1
  · obtain ⟨q, value⟩ := List.length_eq_one_iff.1 single
    rw [value]
    exact h.single m.1 m.2 q hm value
  · rw [ofValues_of_length_ne_one single]
    exact h.several m.1 m.2 hm single

theorem dictOf_gathered (entries : List (Key × Payload)) :
    DictOf entries (gathered entries) := by
  constructor
  case keys =>
    intro k
    rw [map_fst_gathered, Keyed.keys, List.mem_eraseDups]
  case order =>
    rw [map_fst_gathered]
    exact Keyed.pairwise_idxOf_eraseDups _
  case single =>
    intro k p q hm value
    have held : p = ofValues (Keyed.get k entries) := eq_ofValues_of_mem_gathered hm
    rw [held, value]
    rfl
  case several =>
    intro k p hm more
    have held : p = ofValues (Keyed.get k entries) := eq_ofValues_of_mem_gathered hm
    rw [held, ofValues_of_length_ne_one more]

/-- The description fits what a dictionary is made of, and nothing else. -/
theorem dictOf_iff : DictOf entries members ↔ ofEntries entries = .dict members := by
  rw [ofEntries_eq, dict.injEq]
  constructor
  · intro h
    rw [gathered, ← h.map_fst_eq, List.map_map]
    refine (List.map_congr_left fun m hm => ?_).trans (List.map_id members)
    rw [Function.comp_apply, ← h.eq_ofValues hm, id]
  · rintro rfl
    exact dictOf_gathered entries

/-! ## Strings -/

theorem leaves_ofValues (ps : List Payload) : (ofValues ps).leaves = ps.flatMap leaves := by
  by_cases h : ps.length = 1
  · obtain ⟨p, rfl⟩ := List.length_eq_one_iff.1 h
    simp [ofValues]
  · rw [ofValues_of_length_ne_one h, leaves]

/-- A dictionary has the strings of its entries, in another order. -/
theorem leaves_ofEntries_perm (entries : List (Key × Payload)) :
    (ofEntries entries).leaves.Perm (entries.flatMap fun e => e.2.leaves) := by
  have grouped := Keyed.flatMap_get_perm (Keyed.nodup_keys entries) fun e he =>
    Keyed.mem_keys_iff.2 ⟨e.2, he⟩
  have strings := grouped.flatMap_right leaves
  rw [List.flatMap_assoc, List.flatMap_map] at strings
  rw [ofEntries_eq, leaves, gathered, List.flatMap_map]
  simpa only [leaves_ofValues] using strings

end Payload

namespace Value

theorem leaves_ofInner_perm (v : Value) : (Payload.ofInner v).leaves.Perm v.texts := by
  induction v using Value.inductionOn with
  | text s => rw [Payload.ofInner, Payload.leaves, texts]
  | list items ih =>
    rw [Payload.ofInner, Payload.leaves, texts, Payload.ofItems_eq_map, List.flatMap_map]
    exact List.Perm.flatMap_left items ih
  | fields enclosed entries ih =>
    have each : ((Payload.ofInnerEntries entries).flatMap fun e => e.2.leaves).Perm
        (fields enclosed entries).texts := by
      rw [Payload.ofInnerEntries_eq_map, texts, List.flatMap_map]
      exact List.Perm.flatMap_left entries ih
    cases enclosed with
    | true => exact (Payload.leaves_ofEntries_perm _).trans each
    | false =>
      rw [Payload.ofInner, Payload.leaves, List.flatMap_map]
      exact each

theorem leaves_toPayload_perm (v : Value) : v.toPayload.leaves.Perm v.texts := by
  cases v with
  | text | list => exact leaves_ofInner_perm _
  | fields enclosed entries =>
    have inside := leaves_ofInner_perm (fields true entries)
    rwa [texts] at inside ⊢

/-! ## The conversion -/

theorem forall₂_convertsInside_iff {items : List Value} {ps : List Payload}
    (ih : ∀ v ∈ items, ∀ p, v.ConvertsInside p ↔ Payload.ofInner v = p) :
    List.Forall₂ ConvertsInside items ps ↔ items.map Payload.ofInner = ps := by
  rw [forall₂_congr_of_mem ih, ← List.forall₂_map_left_iff, List.forall₂_eq_eq_eq]

theorem convertsInside_iff {v : Value} {p : Payload} :
    v.ConvertsInside p ↔ Payload.ofInner v = p := by
  induction v using Value.inductionOn generalizing p with
  | text s =>
    constructor
    · intro h
      cases h
      rw [Payload.ofInner]
    · rintro rfl
      exact .text s
  | list items ih =>
    have each {ps : List Payload} :
        List.Forall₂ ConvertsInside items ps ↔ items.map Payload.ofInner = ps :=
      forall₂_convertsInside_iff fun v hv _ => ih v hv
    rw [Payload.ofInner, Payload.ofItems_eq_map]
    constructor
    · intro h
      cases h with
      | list converted => rw [each.1 converted]
    · rintro rfl
      exact .list (each.2 rfl)
  | fields enclosed entries ih =>
    have each {ps : List Payload} : List.Forall₂ ConvertsInside (entries.map Prod.snd) ps ↔
        (Payload.ofInnerEntries entries).map Prod.snd = ps := by
      rw [forall₂_convertsInside_iff (List.forall_mem_map.2 fun e he _ => ih e he),
        Payload.ofInnerEntries_eq_map, List.map_map, List.map_map]
      rfl
    have keys : (Payload.ofInnerEntries entries).map Prod.fst = entries.map Prod.fst := by
      rw [Payload.ofInnerEntries_eq_map, List.map_map]
      rfl
    constructor
    · intro h
      cases h with
      | enclosed names values members =>
        have same := (List.zip_of_prod (keys.trans names) rfl).trans
          (List.zip_of_prod rfl (each.1 values).symm).symm
        rw [Payload.ofInner, same, Payload.dictOf_iff.1 members]
      | bare values => rw [Payload.ofInner, each.1 values]
    · rintro rfl
      cases enclosed with
      | true =>
        rw [Payload.ofInner, Payload.ofEntries_eq]
        exact .enclosed keys.symm (each.2 rfl) (Payload.dictOf_gathered _)
      | false => exact .bare (each.2 rfl)

theorem converts_iff {v : Value} {p : Payload} : v.Converts p ↔ v.toPayload = p := by
  cases v with
  | text | list => exact convertsInside_iff
  | fields enclosed entries => exact convertsInside_iff (v := .fields true entries)

end Value

/-- **Conversion conserves data.** Plain data has the strings of the value that it is made of, each
as often as there, and it is what the value is described to come to, and nothing else. -/
theorem toPayload_conserves (v : Value) :
    v.toPayload.leaves.Perm v.texts ∧ ∀ p, v.Converts p ↔ p = v.toPayload :=
  ⟨v.leaves_toPayload_perm, fun _ => Value.converts_iff.trans eq_comm⟩

/-- The repeated key `a` collects its values, and the bare field list under `b` loses its key. -/
theorem toPayload_conserves_regrouped :
    Value.Converts
      (.fields false [(.named "a", .text "1"),
        (.named "b", .fields false [(.named "c", .text "2")]),
        (.named "a", .fields true [(.named "d", .text "3")])])
      (.dict [(.named "a", .list [.text "1", .dict [(.named "d", .text "3")]]),
        (.named "b", .list [.text "2"])]) :=
  ((toPayload_conserves _).2 _).2 rfl

end GdbMi
