import GdbMi.Proofs.Grammar.Completeness
import GdbMi.Proofs.Payload
import GdbMi.Proofs.Value.Descent.Termination
import GdbMi.Value.Indexed
import Mathlib.Algebra.Ring.Nat

/-!
# The index of a field list

An addition keeps the index in step with the entries: if it was the grouping of the entries by key,
it is that of the longer entries (`Indexed.Agrees.add`). So it is the grouping wherever a field list
comes from, since a reader adds entry after entry in the turns of its loop (`Indexed.map_read`), and
a builder does so in its steps (`Indexed.map_handOver`). Main statement: what is looked up in the
index is what the entries hold (`index_follows_entries`).
-/

namespace GdbMi
set_option autoImplicit false

/-! ## Grouping -/

namespace Keyed

variable {β : Type}

theorem keys_append_singleton (l : List (Key × β)) (k : Key) (b : β) :
    keys (l ++ [(k, b)]) = if k ∈ keys l then keys l else keys l ++ [k] := by
  rw [keys, List.map_append, List.eraseDups_append, keys]
  by_cases old : k ∈ l.map Prod.fst
  · simp [List.removeAll, old]
  · simp [List.removeAll, old, List.eraseDups_cons]

/-- A thing of a new key is filed behind all the others. -/
theorem file_of_notMem {k : Key} (b : β) {index : List (Key × List β)}
    (new : k ∉ index.map Prod.fst) : file k b index = index ++ [(k, [b])] := by
  induction index with
  | nil => rfl
  | cons e index ih =>
    rw [List.map_cons, List.mem_cons, not_or] at new
    rw [file, if_neg (Ne.symm new.1), ih new.2, List.cons_append]

/-- A thing of a key that is there is filed under this key only. -/
theorem file_map_of_mem {k : Key} (b : β) (g : Key → List β) {ks : List Key} (distinct : ks.Nodup)
    (old : k ∈ ks) :
    file k b (ks.map fun k' => (k', g k'))
      = ks.map fun k' => (k', if k = k' then g k' ++ [b] else g k') := by
  induction ks with
  | nil => cases old
  | cons k' ks ih =>
    rw [List.nodup_cons] at distinct
    rw [List.map_cons, List.map_cons, file]
    by_cases same : k' = k
    · subst same
      have others : ∀ k'' ∈ ks, (k'', g k'') = (k'', if k' = k'' then g k'' ++ [b] else g k'') := by
        intro k'' hk
        rw [if_neg (by rintro rfl; exact distinct.1 hk)]
      rw [if_pos rfl, if_pos rfl, List.map_congr_left others]
    · have rest : k ∈ ks := (List.mem_cons.1 old).resolve_left (Ne.symm same)
      rw [if_neg same, if_neg (Ne.symm same), ih distinct.2 rest]

/-- To file a thing in the grouping of a list is to group the list with the thing at its end. -/
theorem file_group (k : Key) (b : β) (l : List (Key × β)) :
    file k b (group l) = group (l ++ [(k, b)]) := by
  have last (k' : Key) : get k' (l ++ [(k, b)]) = if k = k' then get k' l ++ [b] else get k' l := by
    rw [get_append, get_cons, get_nil]
    split <;> simp
  rw [group, group, keys_append_singleton]
  by_cases old : k ∈ keys l
  · rw [if_pos old, file_map_of_mem b (get · l) (nodup_keys l) old]
    simp only [last]
  · have new : k ∉ ((keys l).map fun k' => (k', get k' l)).map Prod.fst := by
      simpa [List.map_map] using old
    have before : ∀ k' ∈ keys l, (k', get k' l) = (k', get k' (l ++ [(k, b)])) := by
      intro k' hk
      rw [last, if_neg (by rintro rfl; exact old hk)]
    have first : get k l = [] := by
      simpa [mem_keys_iff_get] using old
    rw [if_neg old, file_of_notMem b new, List.map_append, List.map_congr_left before]
    simp [last, first]

theorem lookup_group (k : Key) (l : List (Key × β)) :
    (group l).lookup k = if k ∈ keys l then some (get k l) else none := by
  rw [group]
  induction keys l with
  | nil => rfl
  | cons k' ks ih =>
    rw [List.map_cons, List.lookup_cons, ih]
    by_cases same : k = k'
    · simp [same]
    · simp [same, beq_eq_false_iff_ne.2 same]

end Keyed

theorem FieldList.get_eq_nil_of_notMem_keys {f : FieldList} {k : Key} (h : k ∉ f.keys) :
    f.get k = [] :=
  not_not.1 (mt Keyed.mem_keys_iff_get.2 h)

/-! ## In step -/

namespace Indexed

variable {s : Indexed}

/-- The index is the grouping of the entries by key. -/
def Agrees (s : Indexed) : Prop := s.index = Keyed.group s.entries

theorem agrees_empty (enclosed : Bool) : Agrees { enclosed } := rfl

theorem Agrees.add (h : s.Agrees) (k : Key) (v : Value) : (s.add k v).Agrees := by
  rw [Agrees, Indexed.add, h]
  exact Keyed.file_group k v s.entries

namespace Agrees

theorem index_eq (h : s.Agrees) : s.index = Keyed.group s.entries := h

theorem lookup_eq (h : s.Agrees) (k : Key) :
    s.index.lookup k
      = if k ∈ s.toFieldList.keys then some (s.toFieldList.get k) else none := by
  rw [h.index_eq]
  exact Keyed.lookup_group k s.entries

theorem keys_eq (h : s.Agrees) : s.keys = s.toFieldList.keys := by
  rw [Indexed.keys, h.index_eq, Keyed.group, List.map_map]
  exact List.map_id _

theorem get_eq (h : s.Agrees) (k : Key) : s.get k = s.toFieldList.get k := by
  rw [Indexed.get, h.lookup_eq]
  by_cases found : k ∈ s.toFieldList.keys
  · rw [if_pos found, Option.getD_some]
  · rw [if_neg found, FieldList.get_eq_nil_of_notMem_keys found, Option.getD_none]

theorem contains_iff (h : s.Agrees) (k : Key) : s.contains k = true ↔ s.get k ≠ [] := by
  rw [Indexed.contains, h.lookup_eq, h.get_eq]
  by_cases found : k ∈ s.toFieldList.keys
  · rw [if_pos found]
    exact iff_of_true rfl (Keyed.mem_keys_iff_get.1 found)
  · rw [if_neg found]
    exact iff_of_false Bool.false_ne_true (mt Keyed.mem_keys_iff_get.2 found)

theorem single?_eq (h : s.Agrees) (k : Key) : s.single? k = s.toFieldList.single? k := by
  rw [Indexed.single?, h.lookup_eq, FieldList.single?]
  by_cases found : k ∈ s.toFieldList.keys
  · rw [if_pos found]
    rcases s.toFieldList.get k with _ | ⟨_, _ | _⟩ <;> rfl
  · rw [if_neg found, FieldList.get_eq_nil_of_notMem_keys found]

/-- The values of the keys, one key after the other, are as many as the entries. -/
theorem size_eq_sum (h : s.Agrees) :
    s.size = (s.keys.map fun k => (s.get k).length).sum := by
  have covered : ∀ e ∈ s.entries, e.1 ∈ s.toFieldList.keys :=
    fun e he => Keyed.mem_keys_iff.2 ⟨e.2, he⟩
  have all := (Keyed.flatMap_get_perm (Keyed.nodup_keys s.entries) covered).length_eq
  simp only [h.keys_eq, h.get_eq]
  rw [List.length_flatMap, List.length_map] at all
  exact all.symm

end Agrees

/-- What is looked up in the index is what the entries hold. -/
structure Follows (s : Indexed) : Prop where
  /-- Under a key are the values of its entries, in order. -/
  get : ∀ k, s.get k = (s.entries.filter fun e => e.1 = k).map Prod.snd
  mem_keys : ∀ k, k ∈ s.keys ↔ k ∈ s.entries.map Prod.fst
  /-- A key stands once among the keys, before those that first appear after it. -/
  order : s.keys.Pairwise fun k k' =>
    (s.entries.map Prod.fst).idxOf k < (s.entries.map Prod.fst).idxOf k'
  contains : ∀ k, s.contains k = true ↔ s.get k ≠ []
  size : s.size = s.entries.length
  sum : s.size = (s.keys.map fun k => (s.get k).length).sum
  absent : ∀ k, s.get k = [] → s.single? k = .ok none
  single : ∀ k v, s.get k = [v] → s.single? k = .ok (some v)
  several : ∀ k, 2 ≤ (s.get k).length → s.single? k = .error (.multiValued k (s.get k))

/-- Look-ups in the index give what look-ups in the entries give. -/
structure LooksUpAs (s : Indexed) (f : FieldList) : Prop where
  keys : s.keys = f.keys
  get : ∀ k, s.get k = f.get k
  contains : ∀ k, s.contains k = f.contains k
  size : s.size = f.size
  single? : ∀ k, s.single? k = f.single? k

namespace Agrees

theorem looksUpAs (h : s.Agrees) : s.LooksUpAs s.toFieldList where
  keys := h.keys_eq
  get := h.get_eq
  contains k := by
    rw [Bool.eq_iff_iff, h.contains_iff, h.get_eq]
    exact Keyed.contains_iff.symm
  size := rfl
  single? := h.single?_eq

theorem follows (h : s.Agrees) : s.Follows where
  get k := by
    rw [h.get_eq]
    simp only [FieldList.get, Keyed.get, toFieldList, beq_eq_decide]
  mem_keys k := by
    rw [h.keys_eq]
    exact List.mem_eraseDups
  order := by
    rw [h.keys_eq]
    exact Keyed.pairwise_idxOf_eraseDups _
  contains := h.contains_iff
  size := rfl
  sum := h.size_eq_sum
  absent k none := by
    rw [h.get_eq] at none
    rw [h.single?_eq]
    exact FieldList.single?_eq_ok_none_iff.2 none
  single k v one := by
    rw [h.get_eq] at one
    rw [h.single?_eq]
    exact FieldList.single?_eq_ok_some_iff.2 one
  several k two := by
    rw [h.get_eq] at two ⊢
    rw [h.single?_eq, FieldList.single?]
    rcases values : s.toFieldList.get k with _ | ⟨_, _ | _⟩
    · simp [values] at two
    · simp [values] at two
    · rfl

end Agrees

/-! ## Reading -/

open Reader

/-- Reads entries turn by turn and adds each of them. -/
def readOn (s : Indexed) (t : Text) : Reading Indexed :=
  match _ : entryTurn t with
  | .leave rest => .ok s rest
  | .fail e rest => .fail e rest
  | .take e rest => (s.add e.1 e.2).readOn rest
  | .call make u =>
    match _ : Value.read u with
    | .ok v rest => (s.add (make v).1 (make v).2).readOn rest
    | .fail e rest => .fail e rest
termination_by t.length
decreasing_by
  · exact length_lt_of_entryTurn (e := e) (by rw [‹entryTurn t = _›]; exact .take)
  · exact length_lt_of_entryTurn (e := make v)
      (by rw [‹entryTurn t = _›]; exact .call ‹Value.read u = _›)

/-- Reads fields up to a closing bracket or brace or the end of the text. -/
def read (enclosed : Bool) (t : Text) : Reading Indexed := readOn { enclosed } t

/-- What every addition keeps is kept from the start of the loop to its end. -/
theorem readOn_keeps {P : Indexed → Prop} (add : ∀ s k v, P s → P (s.add k v)) {s s' : Indexed}
    {t rest : Text} (start : P s) (read : s.readOn t = .ok s' rest) : P s' := by
  fun_induction Indexed.readOn s t with
  | case1 s t left turn =>
    cases read
    exact start
  | case2 s t e left turn => cases read
  | case3 s t e left turn ih => exact ih (add s e.1 e.2 start) read
  | case4 s t make u turn v left called ih => exact ih (add s _ _ start) read
  | case5 s t make u turn e left called => cases read

theorem agrees_of_read {enclosed : Bool} {t rest : Text} (h : read enclosed t = .ok s rest) :
    s.Agrees :=
  readOn_keeps (fun _ k v agrees => agrees.add k v) (agrees_empty enclosed) h

theorem enclosed_of_read {enclosed : Bool} {t rest : Text} (h : read enclosed t = .ok s rest) :
    s.enclosed = enclosed :=
  readOn_keeps (P := fun s => s.enclosed = enclosed) (fun _ _ _ same => same) rfl h

/-- The reader holds the entries that were added, the latest first, and goes on in the same
turns. -/
theorem run_entries_eq_map_readOn (s : Indexed) (t : Text) :
    run (.entries false (fenceOf s.enclosed) s.entries.reverse []) t
      = (s.readOn t).map fun s' => s'.toFieldList.toValue := by
  fun_induction Indexed.readOn s t with
  | case1 s t left turn =>
    rw [run_entries_eq_goOn_ok (fenceOf_ne_braces _), turn, Turn.goOn, Fence.fields,
      isEnclosed_fenceOf, List.reverse_reverse]
    rfl
  | case2 s t e left turn =>
    rw [run_entries_eq_goOn_ok (fenceOf_ne_braces _), turn]
    rfl
  | case3 s t e left turn ih =>
    rw [run_entries_eq_goOn_ok (fenceOf_ne_braces _), turn, ← ih, Indexed.add, List.reverse_append]
    rfl
  | case4 s t make u turn v left called ih =>
    rw [run_entries_eq_goOn_ok (fenceOf_ne_braces _), turn, Turn.goOn, called, ← ih, Indexed.add,
      List.reverse_append]
    rfl
  | case5 s t make u turn e left called =>
    rw [run_entries_eq_goOn_ok (fenceOf_ne_braces _), turn, Turn.goOn, called]
    rfl

/-- The reader of field lists adds entry after entry, in the turns of its loop. -/
theorem map_read (enclosed : Bool) (t : Text) :
    (read enclosed t).map toFieldList = FieldList.read enclosed t := by
  have turns : run (.entries false (fenceOf enclosed) [] []) t
      = (readOn { enclosed } t).map fun s => s.toFieldList.toValue :=
    run_entries_eq_map_readOn { enclosed } t
  have unfolded : FieldList.read enclosed t
      = (run (.entries false (fenceOf enclosed) [] []) t).map fun v =>
        { enclosed, entries := v.entries } := rfl
  rw [unfolded, turns, ← read]
  cases added : read enclosed t with
  | fail e rest => rfl
  | ok s rest =>
    have same := enclosed_of_read added
    simp [Reading.map, toFieldList, FieldList.toValue, Value.entries, same]

/-! ## Building -/

theorem agrees_of_mem_handOver (h : s.Agrees) (steps : List BuilderStep) :
    ∀ s' ∈ s.handOver steps, s'.Agrees := by
  fun_induction Indexed.handOver s steps with
  | case1 s => simp
  | case2 s key p steps v converted ih => exact ih (h.add key v)
  | case3 s key p steps e refused ih => exact ih h
  | case4 s steps ih => exact List.forall_mem_cons.2 ⟨h, ih (agrees_empty false)⟩

/-- A builder hands over what was added to it, step by step. -/
theorem map_handOver (s : Indexed) (bare : s.enclosed = false) (steps : List BuilderStep) :
    (s.handOver steps).map toFieldList = Builder.handOver { entries := s.entries } steps := by
  fun_induction Indexed.handOver s steps with
  | case1 s => rfl
  | case2 s key p steps v converted ih =>
    have added : Builder.add { entries := s.entries } key p
        = .ok { entries := s.entries ++ [(key, v)] } := by
      rw [Builder.add, converted]
      rfl
    rw [ih bare, Builder.handOver, added]
    rfl
  | case3 s key p steps e refused ih =>
    have left : Builder.add { entries := s.entries } key p = .error e := by
      rw [Builder.add, refused]
      rfl
    rw [ih bare, Builder.handOver, left]
  | case4 s steps ih =>
    rw [List.map_cons, ih rfl, Builder.handOver, toFieldList, bare]
    rfl

end Indexed

/-! ## Field lists inside -/

/-- The entries are those of fields at some place of the text. -/
def FieldsAt (entries : List (Key × Value)) (t : Text) : Prop :=
  ∃ u rest, u <:+ t ∧ Derives (.fields entries) u rest

theorem FieldsAt.of_suffix {entries : List (Key × Value)} {t u : Text} (h : FieldsAt entries u)
    (suffix : u <:+ t) : FieldsAt entries t := by
  obtain ⟨w, rest, inside, derived⟩ := h
  exact ⟨w, rest, inside.trans suffix, derived⟩

/-- The value occurs in one that the phrase is made of. -/
def Phrase.Holds (w : Value) : Phrase → Prop
  | .value v => Value.Occurs w v
  | .items vs => ∃ v ∈ vs, Value.Occurs w v
  | .fields entries => ∃ e ∈ entries, Value.Occurs w e.2
  | .entry _ v => Value.Occurs w v
  | .map entries => ∃ e ∈ entries, Value.Occurs w e.2

theorem fieldsAt_of_map {t r : Text} {entries : List (Key × Value)}
    (h : Derives (.map entries) t r) : FieldsAt entries t := by
  cases h with
  | braces skip fields => exact ⟨_, _, suffix_of_skipSpacing skip, fields⟩

/-- A field list that occurs in a phrase is read at some place of its text. -/
theorem Derives.fieldsAt {p : Phrase} {t r : Text} (h : Derives p t r) {enclosed : Bool}
    {entries : List (Key × Value)} (holds : p.Holds (.fields enclosed entries)) :
    FieldsAt entries t := by
  -- the field list is what the production makes, or it is in a part, which begins later in the text
  induction h with
  | literal | bareString => cases holds
  | list skip _ _ ih =>
    rcases Value.occurs_list_iff.1 holds with same | inside
    · cases same
    · exact (ih inside).of_suffix (suffix_of_skipSpacing skip)
  | unwrapped skip _ ih => exact (ih ⟨_, .head _, holds⟩).of_suffix (suffix_of_skipSpacing skip)
  | map derived ih | unnamed derived ih =>
    rcases Value.occurs_fields_iff.1 holds with same | inside
    · cases same
      exact fieldsAt_of_map derived
    · exact ih inside
  | @bare t _ r _ _ _ _ _ _ derived ih =>
    rcases Value.occurs_fields_iff.1 holds with same | inside
    · cases same
      exact ⟨t, r, List.suffix_refl t, derived⟩
    · exact ih inside
  | itemsClosed | itemsEnded | fieldsClosed | fieldsEnded =>
    obtain ⟨_, none, -⟩ := holds
    cases none
  | itemAfterComma skip derived _ value items =>
    have after := suffix_of_skipSpacing skip
    obtain ⟨v, hv, occurs⟩ := holds
    rcases List.mem_cons.1 hv with rfl | more
    · exact (value occurs).of_suffix after
    · exact (items ⟨v, more, occurs⟩).of_suffix (derived.suffix.trans after)
  | item _ _ _ _ derived _ value items =>
    obtain ⟨v, hv, occurs⟩ := holds
    rcases List.mem_cons.1 hv with rfl | more
    · exact value occurs
    · exact (items ⟨v, more, occurs⟩).of_suffix derived.suffix
  | field comma derived _ entry fields =>
    obtain ⟨e, he, occurs⟩ := holds
    rcases List.mem_cons.1 he with rfl | more
    · exact (entry occurs).of_suffix comma.suffix
    · exact (fields ⟨e, more, occurs⟩).of_suffix (derived.suffix.trans comma.suffix)
  | named name sign _ value =>
    have after := (suffix_of_skipSpacing sign).trans (name.suffix.trans (skipSpacing_suffix _))
    exact (value holds).of_suffix after
  | braces skip _ ih => exact (ih holds).of_suffix (suffix_of_skipSpacing skip)

/-- The field list is read at some place of the text. -/
def Indexed.ReadIn (s : Indexed) (t : Text) : Prop :=
  ∃ u rest, u <:+ t ∧ Indexed.read s.enclosed u = .ok s rest

theorem FieldsAt.exists_readIn {f : FieldList} {t : Text} (h : FieldsAt f.entries t) :
    ∃ s : Indexed, s.ReadIn t ∧ s.toFieldList = f := by
  obtain ⟨u, rest, place, derived⟩ := h
  have read : FieldList.read f.enclosed u = .ok f rest :=
    FieldList.read_eq_ok_iff.2 ⟨rfl, derived⟩
  rw [← Indexed.map_read, Reading.map_eq_ok_iff] at read
  obtain ⟨s, added, same⟩ := read
  have enclosed : s.enclosed = f.enclosed := congrArg FieldList.enclosed same
  exact ⟨s, ⟨u, rest, place, by rw [enclosed]; exact added⟩, same⟩

/-- How a field list comes about: it is read, or handed over by a builder. -/
inductive Indexed.ComesAbout (s : Indexed) : Prop where
  | read {t : Text} : s.ReadIn t → ComesAbout s
  | handedOver {steps : List BuilderStep} : s ∈ Indexed.handOver {} steps → ComesAbout s

theorem Indexed.ComesAbout.agrees {s : Indexed} (h : s.ComesAbout) : s.Agrees := by
  cases h with
  | read place =>
    obtain ⟨u, rest, -, read⟩ := place
    exact agrees_of_read read
  | handedOver mem => exact agrees_of_mem_handOver (agrees_empty false) _ s mem

/-- **The index of a field list follows its entries.** Wherever a field list comes about with its
index, look-ups in the index tell what the entries hold, and they give what look-ups in the
entries give. Every field list comes about so: those anywhere in what a command reads are read with
their indexes at some place of the text, and a builder that keeps indexes hands over the same field
lists in every run of steps. -/
theorem index_follows_entries :
    (∀ s : Indexed, s.ComesAbout → s.Follows ∧ s.LooksUpAs s.toFieldList) ∧
      (∀ (c : Command) t v rest, c.run t = .ok (.value v) rest →
        ∀ f : FieldList, Value.Occurs f.toValue v →
          ∃ s : Indexed, s.ReadIn t ∧ s.toFieldList = f) ∧
      (∀ enclosed t,
        (Indexed.read enclosed t).map Indexed.toFieldList = FieldList.read enclosed t) ∧
      ∀ steps, Builder.handOver {} steps = (Indexed.handOver {} steps).map Indexed.toFieldList := by
  refine ⟨?laws, ?inside, Indexed.map_read, ?built⟩
  case laws => exact fun s h => ⟨h.agrees.follows, h.agrees.looksUpAs⟩
  case inside =>
    intro c t v rest ran f occurs
    rcases c.derives_of_run ran with derived | ⟨enclosed, entries, rfl, derived⟩
    · exact (derived.fieldsAt occurs).exists_readIn
    · rcases Value.occurs_fields_iff.1 occurs with same | inside
      · have own : f.entries = entries := (Value.fields.inj same).2
        have place : FieldsAt f.entries t := ⟨t, rest, List.suffix_refl t, own ▸ derived⟩
        exact place.exists_readIn
      · exact (derived.fieldsAt inside).exists_readIn
  case built => exact fun steps => (Indexed.map_handOver {} rfl steps).symm

/-- A key that repeats beside a bare string, inside a list; and a builder that refuses a number. -/
theorem index_follows_entries_repeated :
    (∃ s : Indexed, s.ReadIn (Text.ofString "[\"0\",\x7ba=\"1\",\"x\",a=\"2\"\x7d]") ∧
      s.get (.named "a") = [.text "1", .text "2"] ∧
      s.single? (.named "a") = .error (.multiValued (.named "a") [.text "1", .text "2"]) ∧
      s.single? .bare = .ok (some (.text "x")) ∧ s.single? .unnamed = .ok none) ∧
    ∃ s ∈ Indexed.handOver {} [.add .bare (.text "x"), .add .bare (.int 1), .build],
      s.get .bare = [.text "x"] ∧ s.size = 1 := by
  obtain ⟨laws, inside, -, -⟩ := index_follows_entries
  constructor
  · let f : FieldList :=
      { enclosed := true
        entries := [(.named "a", .text "1"), (.bare, .text "x"), (.named "a", .text "2")] }
    have read : Command.run .list (Text.ofString "[\"0\",\x7ba=\"1\",\"x\",a=\"2\"\x7d]")
        = .ok (.value (.list [.text "0", f.toValue])) [] := rfl
    obtain ⟨s, place, same⟩ := inside _ _ _ _ read f (.item (.tail _ (.head _)) .self)
    have law := (laws s (.read place)).1
    have entries : s.entries = f.entries := congrArg FieldList.entries same
    have twice : s.get (.named "a") = [.text "1", .text "2"] := by
      rw [law.get, entries]
      rfl
    have once : s.get .bare = [.text "x"] := by
      rw [law.get, entries]
      rfl
    have never : s.get .unnamed = [] := by
      rw [law.get, entries]
      rfl
    refine ⟨s, place, twice, ?_, law.single _ _ once, law.absent _ never⟩
    rw [law.several _ (by rw [twice]; decide), twice]
  · let s : Indexed :=
      { entries := [(.bare, .text "x")], index := [(.bare, [.text "x"])] }
    have mem : s ∈ Indexed.handOver {} [.add .bare (.text "x"), .add .bare (.int 1), .build] :=
      .head _
    have law := (laws s (.handedOver mem)).1
    refine ⟨s, mem, ?_, law.size⟩
    rw [law.get]
    rfl

end GdbMi
