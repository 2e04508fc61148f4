import GdbMi.Proofs.Value.Descent.Loops

/-!
# Recursive descent ends

The calls that a procedure makes are of a lower rank or come after something that has been read.
So length and rank together bound how deep calls are nested (`measure`), and every call is answered,
as the reader does (`exec_eq_reading`). Main statement: `exec_ends_and_advances`, which says this of
every text, and what each turn of a loop, each list, each map and each value takes of it.
-/

namespace GdbMi.Reader
set_option autoImplicit false

/-- The fence of the fields that the loop over entries collects. -/
def fenceOf (enclosed : Bool) : Fence := if enclosed then .inside else .bare

theorem fenceOf_ne_braces (enclosed : Bool) : fenceOf enclosed ≠ .braces := by
  cases enclosed <;> decide

theorem isEnclosed_fenceOf (enclosed : Bool) : (fenceOf enclosed).isEnclosed = enclosed := by
  cases enclosed <;> rfl

namespace Procedure

/-- What the reader makes of the text where the procedure is called. -/
def reading : Procedure → Text → Reading Value
  | value => Value.read
  | list => Value.readList
  | map => Value.readMap
  | items held => run (.items false held [])
  | entries enclosed held => run (.entries false (fenceOf enclosed) held [])

/-- How the procedures rank that are called at one place of the text, callers above those they call.
A value that begins with a brace is called by the loop over entries, and any other one calls it. -/
def rank (t : Text) : Procedure → Nat
  | list => 1
  | map => 1
  | value => if (skipSpacing t).head? = some (Glyph.char '\x7b') then 2 else 4
  | entries _ _ => 3
  | items _ => 5

/-- How deep the calls of a procedure may be nested. -/
def measure (p : Procedure) (t : Text) : Nat := 5 * t.length + p.rank t

theorem rank_bounds (t : Text) (p : Procedure) : 1 ≤ p.rank t ∧ p.rank t ≤ 5 := by
  cases p with
  | value =>
    rw [rank]
    split <;> omega
  | _ => simp [rank]

/-- What is left after a glyph counts more than the rank. -/
theorem measure_lt_of_shorter {t u : Text} (h : u.length < t.length) (p q : Procedure) :
    q.measure u < p.measure t := by
  have := rank_bounds u q
  have := rank_bounds t p
  simp only [measure]
  omega

theorem measure_lt_of_rank {t u : Text} (h : u.length ≤ t.length) {p q : Procedure}
    (lower : q.rank u < p.rank t) : q.measure u < p.measure t := by
  simp only [measure]
  omega

end Procedure

/-! ## Every call is answered -/

/-- A turn goes on as the reader does, if the calls that it makes are answered so. -/
theorem Turn.next_eq_goOn {α : Type} {turn : Turn α} {value : Text → Option (Reading Value)}
    {again : α → Text → Option (Reading Value)} {again' : α → Text → Reading Value}
    (called : ∀ make u, turn = .call make u → value u = some (Value.read u))
    (goesOn : ∀ a rest, turn.GoesOn a rest → again a rest = some (again' a rest)) (v : Value) :
    turn.next value again v = some (turn.goOn again' (.ok v)) := by
  cases turn with
  | leave rest => rfl
  | fail e rest => rfl
  | take a rest => exact goesOn a rest .take
  | call make u =>
    rw [next, called make u rfl, goOn]
    cases read : Value.read u with
    | fail e rest => rfl
    | ok w rest => exact goesOn _ _ (.call read)

namespace Procedure

/-- Calls of less than the measure are answered as the reader does. -/
def Answers (call : Procedure → Text → Option (Reading Value)) (bound : Nat) : Prop :=
  ∀ q u, measure q u < bound → call q u = some (q.reading u)

section
variable {call : Procedure → Text → Option (Reading Value)} {t : Text}

/-- One glyph decides which procedure reads a value. -/
theorem body_value (h : Answers call (measure value t)) :
    body call value t = some (Value.read t) := by
  rw [Value.read, run_value_skipSpacing, body]
  cases skip : skipSpacing t with
  | nil => rfl
  | cons g u =>
    have noLonger : (g :: u).length ≤ t.length := by
      rw [← skip]
      exact length_skipSpacing_le t
    have noSpacing := not_spacing_of_skipSpacing_eq skip
    dsimp only
    by_cases quote : g = '"'
    · subst quote
      rw [if_pos rfl, Literal.read_opening_quote]
      have step : run (.value []) (Glyph.char '"' :: u) = run (.literal {} []) u := rfl
      rw [step, run_literal]
      cases Literal.scan {} u with
      | ok bytes rest => exact congrArg some (run_done _ rest).symm
      | fail e rest => rfl
    rw [if_neg quote]
    by_cases bracket : g = '['
    · subst bracket
      have lower : rank (Glyph.char '[' :: u) list < rank t value := by simp [rank, skip]
      exact h list _ (measure_lt_of_rank noLonger lower)
    rw [if_neg bracket]
    by_cases brace : g = '\x7b'
    · subst brace
      have lower : rank (Glyph.char '\x7b' :: u) map < rank t value := by simp [rank, skip]
      exact h map _ (measure_lt_of_rank noLonger lower)
    rw [if_neg brace]
    have lower : rank (g :: u) (entries false []) < rank t value := by simp [rank, skip, brace]
    rw [h _ _ (measure_lt_of_rank noLonger lower)]
    have step : (State.entries false .bare [] []).step g = (State.value []).step g := by
      simp [State.step, State.stepValue, noSpacing, quote, bracket, brace]
    exact congrArg some (run_cons_congr step u)

theorem body_list (h : Answers call (measure list t)) :
    body call list t = some (Value.readList t) := by
  rw [body, Value.readList]
  cases opened : Token.listOpen.read (skipSpacing t) with
  | fail e rest => rfl
  | ok lexeme rest =>
    have shorter := Nat.lt_of_lt_of_le (length_rest_token_lt opened) (length_skipSpacing_le t)
    exact h (items []) rest (measure_lt_of_shorter shorter _ _)

theorem body_map (h : Answers call (measure map t)) :
    body call map t = some (Value.readMap t) := by
  rw [body, Value.readMap]
  cases opened : Token.mapOpen.read (skipSpacing t) with
  | fail e rest => rfl
  | ok lexeme rest =>
    have shorter := Nat.lt_of_lt_of_le (length_rest_token_lt opened) (length_skipSpacing_le t)
    dsimp only
    rw [h (entries true []) rest (measure_lt_of_shorter shorter _ _)]
    exact congrArg some (run_braces_eq_closeMap [] rest).symm

theorem body_items {held : List Value} (h : Answers call (measure (items held) t)) :
    body call (items held) t = some (run (.items false held []) t) := by
  rw [body, run_items_eq_goOn]
  apply Turn.next_eq_goOn
  · intro make u turn
    have lower : rank u value < rank t (items held) := by
      rw [rank, rank]
      split <;> decide
    have advances := advances_itemTurn t
    rw [turn] at advances
    exact h value u (measure_lt_of_rank advances.length_le lower)
  · intro v rest goesOn
    exact h (items (v :: held)) rest (measure_lt_of_shorter (length_lt_of_itemTurn goesOn) _ _)

theorem body_entries {enclosed : Bool} {held : List (Key × Value)}
    (h : Answers call (measure (entries enclosed held) t)) :
    body call (entries enclosed held) t
      = some (run (.entries false (fenceOf enclosed) held []) t) := by
  have fields : Value.fields enclosed held.reverse = (fenceOf enclosed).fields held := by
    rw [Fence.fields, isEnclosed_fenceOf]
  rw [body, run_entries_eq_goOn_ok (fenceOf_ne_braces enclosed), fields]
  apply Turn.next_eq_goOn
  · intro make u turn
    have advances := advances_entryTurn t
    rw [turn] at advances
    rcases advances with shorter | ⟨noLonger, g, w, rfl, rfl⟩
    · exact h value u (measure_lt_of_shorter shorter _ _)
    · have brace : (skipSpacing (Glyph.char '\x7b' :: w)).head? = some (Glyph.char '\x7b') := rfl
      have lower : rank (Glyph.char '\x7b' :: w) value < rank t (entries enclosed held) := by
        simp [rank, brace]
      exact h value _ (measure_lt_of_rank noLonger lower)
  · intro e rest goesOn
    exact h (entries enclosed (e :: held)) rest
      (measure_lt_of_shorter (length_lt_of_entryTurn goesOn) _ _)

end

/-- A procedure does what the reader does, if the calls that it makes are answered so. -/
theorem body_eq_reading {call : Procedure → Text → Option (Reading Value)} (p : Procedure)
    {t : Text} (h : Answers call (measure p t)) : body call p t = some (p.reading t) := by
  cases p with
  | value => exact body_value h
  | list => exact body_list h
  | map => exact body_map h
  | items held => exact body_items h
  | entries enclosed held => exact body_entries h

/-- Calls nested deeper than the measure are never made. -/
theorem exec_eq_reading (depth : Nat) : Answers (exec depth) depth := by
  induction depth with
  | zero => exact fun p t h => absurd h (Nat.not_lt_zero _)
  | succ depth ih =>
    intro p t h
    exact body_eq_reading p fun q u lower =>
      ih q u (Nat.lt_of_lt_of_le lower (Nat.le_of_lt_succ h))

/-- The loop over entries, called with nothing held, reads a field list. -/
theorem reading_entries_nil (enclosed : Bool) (t : Text) :
    reading (entries enclosed []) t = (FieldList.read enclosed t).map FieldList.toValue := by
  have unfolded : FieldList.read enclosed t
      = (run (.entries false (fenceOf enclosed) [] []) t).map fun v =>
        { enclosed, entries := v.entries } := rfl
  rw [reading, unfolded]
  cases ran : run (.entries false (fenceOf enclosed) [] []) t with
  | fail e rest => rfl
  | ok v rest =>
    obtain ⟨entries, rfl, -⟩ := derives_of_run_entries (fenceOf_ne_braces enclosed) ran
    rw [isEnclosed_fenceOf]
    rfl

/-- Calls that may be nested so deep are answered at every text of a certain length. -/
theorem exec_eq_some {t : Text} {depth : Nat} (deep : 5 * (t.length + 1) < depth) (p : Procedure) :
    exec depth p t = some (p.reading t) := by
  apply exec_eq_reading
  have := rank_bounds t p
  simp only [measure]
  omega

/-- Recursive descent ends at every text and makes progress: calls are nested no deeper than the
length allows, and answered as the reader does; a turn of a loop that goes on has taken something,
as have a list and a map; and a value that takes nothing but spacing stands before a closing bracket
or brace. -/
theorem exec_ends_and_advances :
    (∀ t depth, 5 * (t.length + 1) < depth →
      exec depth value t = some (Value.read t) ∧
      exec depth list t = some (Value.readList t) ∧
      exec depth map t = some (Value.readMap t) ∧
      ∀ enclosed, exec depth (entries enclosed []) t
        = some ((FieldList.read enclosed t).map FieldList.toValue)) ∧
    (∀ t v rest, (itemTurn t).GoesOn v rest → rest.length < t.length) ∧
    (∀ t e rest, (entryTurn t).GoesOn e rest → rest.length < t.length) ∧
    (∀ t v rest, Value.readList t = .ok v rest ∨ Value.readMap t = .ok v rest →
      rest.length < t.length) ∧
    ∀ t v taken rest, Value.read t = .ok v rest → t = taken ++ rest →
      (∀ g ∈ taken, g.isSpacing = true) →
        ∃ g u, skipSpacing t = g :: u ∧ (g = ']' ∨ g = '\x7d') := by
  refine ⟨?ends, fun _ _ _ => length_lt_of_itemTurn, fun _ _ _ => length_lt_of_entryTurn,
    ?aggregate, fun _ _ _ _ => closer_of_read_spacing⟩
  case ends =>
    intro t depth deep
    refine ⟨exec_eq_some deep value, exec_eq_some deep list, exec_eq_some deep map, ?_⟩
    intro enclosed
    rw [exec_eq_some deep, reading_entries_nil]
  case aggregate =>
    rintro t v rest (list | map)
    · exact length_rest_readList_lt list
    · exact length_rest_readMap_lt map

/-- A list whose first item is an empty map and whose second item is empty, since a comma and then a
bracket follow; the turn at the comma and the value after it. -/
theorem exec_ends_and_advances_empty_item :
    exec 40 value (Text.ofString "[\x7b\x7d, ]")
        = some (.ok (.list [.fields true [], .fields false []]) []) ∧
    5 * ((Text.ofString "[\x7b\x7d, ]").length + 1) < 40 ∧
    (itemTurn (Text.ofString ", ]")).GoesOn (.fields false []) (Text.ofString "]") ∧
    (Text.ofString "]").length < (Text.ofString ", ]").length ∧
    (entryTurn (Text.ofString ", a=]")).GoesOn (.named "a", .fields false []) (Text.ofString "]") ∧
    (Text.ofString "]").length < (Text.ofString ", a=]").length ∧
    Value.readList (Text.ofString "[],") = .ok (.list []) (Text.ofString ",") ∧
    (Text.ofString ",").length < (Text.ofString "[],").length ∧
    Value.read (Text.ofString " ]") = .ok (.fields false []) (Text.ofString "]") ∧
    ∃ g u, skipSpacing (Text.ofString " ]") = g :: u ∧ (g = ']' ∨ g = '\x7d') := by
  obtain ⟨ends, item, entry, aggregate, spacing⟩ := exec_ends_and_advances
  have deep : 5 * ((Text.ofString "[\x7b\x7d, ]").length + 1) < 40 := by decide
  have itemGoesOn : (itemTurn (Text.ofString ", ]")).GoesOn (.fields false [])
      (Text.ofString "]") := .call rfl
  have entryGoesOn : (entryTurn (Text.ofString ", a=]")).GoesOn (.named "a", .fields false [])
      (Text.ofString "]") := .call rfl
  have empty : Value.readList (Text.ofString "[],") = .ok (.list []) (Text.ofString ",") := rfl
  have nothing : Value.read (Text.ofString " ]") = .ok (.fields false []) (Text.ofString "]") := rfl
  exact ⟨(ends _ 40 deep).1, deep, itemGoesOn, item _ _ _ itemGoesOn, entryGoesOn,
    entry _ _ _ entryGoesOn, empty, aggregate _ _ _ (.inl empty), nothing,
    spacing _ _ [Glyph.char ' '] _ nothing rfl (by decide)⟩

end Procedure

end GdbMi.Reader
