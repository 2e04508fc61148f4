import GdbMi.Proofs.Value.Descent
import GdbMi.Proofs.Value.Ending

/-!
# The loops of the reader

The reader takes a glyph at a time, but it goes through the items of a list and the entries of
fields as the loops of recursive descent do: turn by turn, each with the value that it calls for
(`run_items_eq_goOn`, `run_entries_eq_goOn`). Fields between braces are read like others, and then
the closing brace (`run_braces_eq_closeMap`).
-/

namespace GdbMi.Reader
set_option autoImplicit false

/-- Goes on after a turn, where the calls are answered by the reader. -/
def Turn.goOn {α : Type} (again : α → Text → Reading Value) (leave : Text → Reading Value) :
    Turn α → Reading Value
  | .leave rest => leave rest
  | .fail e rest => .fail e rest
  | .take a rest => again a rest
  | .call make t => (Value.read t).andThen fun v rest => again (make v) rest

/-- The value of the next item is read by itself, and then added to the list. -/
theorem run_value_in_list (held : List Value) (t : Text) :
    run (.value [.list held]) t
      = (Value.read t).andThen fun v rest => run (.items false (v :: held) []) rest :=
  run_within (.value []) [.list held] t

/-- The value of an entry is read by itself, and then added to the fields. -/
theorem run_value_in_field (fence : Fence) (held : List (Key × Value)) (key : Key) (t : Text) :
    run (.value [.field fence held key]) t
      = (Value.read t).andThen fun v rest =>
          run (.entries false fence ((key, v) :: held) []) rest :=
  run_within (.value []) [.field fence held key] t

/-- The reader goes through the items of a list turn by turn. -/
theorem run_items_eq_goOn (held : List Value) (t : Text) :
    run (.items false held []) t
      = (itemTurn t).goOn (fun v => run (.items false (v :: held) []))
          (.ok (ofItems held.reverse)) := by
  cases t with
  | nil => rfl
  | cons g₀ t =>
    rw [itemTurn]
    cases skip : skipSpacing (g₀ :: t) with
    | nil =>
      have spacing : IsSpacingRun (g₀ :: t) := ⟨List.cons_ne_nil g₀ t, List.dropWhile_eq_nil_iff.1 skip⟩
      exact run_items_spacing false held [] spacing
    | cons g u =>
      have noSpacing := not_spacing_of_skipSpacing_eq skip
      rw [run_items_skipSpacing [] false held skip]
      dsimp only
      by_cases bracket : g = ']'
      · subst bracket
        exact run_done _ u
      by_cases brace : g = '\x7d'
      · subst brace
        rfl
      rw [if_neg bracket, if_neg brace]
      by_cases comma : g = ','
      · subst comma
        exact run_value_in_list held u
      · have step : (State.items true held []).step g = (State.value [.list held]).step g := by
          simp [State.step, State.stepItems, noSpacing, bracket, brace, comma]
        rw [run_cons_congr step, if_neg comma]
        exact run_value_in_list held (g :: u)

/-- The identifier at the front of a text, as a token. -/
theorem identifierAt_of_read {t lexeme rest : Text}
    (h : Token.identifier.read t = .ok lexeme rest) :
    ∃ name, lexeme = Text.ofString name ∧ IdentifierAt t name rest := by
  cases t with
  | nil => cases h
  | cons g u =>
    by_cases hg : g.isIdentifier = true
    · have found : Token.identifier.match? (g :: u)
          = some ((g :: u).takeWhile Glyph.isIdentifier,
            (g :: u).dropWhile Glyph.isIdentifier) := by
        simp [Token.match?, Token.sign?, hg]
      simp only [Token.read, found] at h
      cases h
      have chars : ∀ x ∈ (g :: u).takeWhile Glyph.isIdentifier, ∃ c, x = Glyph.char c := by
        intro x hx
        have isIdentifier := List.mem_takeWhile_imp hx
        cases x with
        | char c => exact ⟨c, rfl⟩
        | stray b => cases isIdentifier
      obtain ⟨name, eq⟩ := Text.exists_eq_ofString chars
      refine ⟨name, eq, ?_, eq, rfl⟩
      rintro rfl
      rw [List.takeWhile_cons_of_pos hg] at eq
      cases eq
    · have none : Token.identifier.match? (g :: u) = none := by
        simp [Token.match?, Token.sign?, hg]
      simp only [Token.read, none] at h
      cases h

/-- A text that begins with no identifier begins with none as a token. -/
theorem read_identifier_eq_fail {g : Glyph} (hg : g.isIdentifier = false) (u : Text) :
    Token.identifier.read (g :: u)
      = .fail (.unexpected Token.identifier.pattern (g :: u)) (g :: u) := by
  simp [Token.read, Token.match?, Token.sign?, hg]

/-- After an identifier the sign is read, and then the value of the entry. -/
theorem run_equals_eq_andThen (fence : Fence) (held : List (Key × Value)) (name : String)
    (t : Text) :
    run (.equals fence held name []) t
      = (Token.equals.read (skipSpacing t)).andThen fun _ rest =>
          run (.value [.field fence held (.ofName name)]) rest := by
  rw [run_equals_skipSpacing]
  cases skip : skipSpacing t with
  | nil => rfl
  | cons g u =>
    have noSpacing := not_spacing_of_skipSpacing_eq skip
    by_cases sign : g = '='
    · subst sign
      rfl
    · have mismatch : (State.equals fence held name []).step g = .mismatch .equals := by
        simp [State.step, State.stepEquals, noSpacing, sign]
      simp [run, mismatch, Token.read, Token.match?, Token.sign?, sign, Reading.andThen]

/-- The reader reads an entry as a turn does. -/
theorem run_entry_eq_goOn (fence : Fence) (held : List (Key × Value)) (t : Text)
    (leave : Text → Reading Value) :
    run (.entry fence held []) t
      = (entryAt (skipSpacing t)).goOn (fun e => run (.entries false fence (e :: held) []))
          leave := by
  rw [run_entry_skipSpacing]
  cases skip : skipSpacing t with
  | nil => rfl
  | cons g u =>
    have noSpacing := not_spacing_of_skipSpacing_eq skip
    rw [entryAt]
    by_cases brace : g = '\x7b'
    · subst brace
      exact run_value_in_field fence held .unnamed (Glyph.char '\x7b' :: u)
    rw [if_neg brace]
    by_cases quote : g = '"'
    · subst quote
      rw [if_pos rfl, Literal.read_opening_quote]
      have step : run (.entry fence held []) (Glyph.char '"' :: u)
          = run (.literal {} [.field fence held .bare]) u := rfl
      rw [step, run_literal]
      cases Literal.scan {} u <;> rfl
    rw [if_neg quote]
    cases identifier : Token.identifier.read (g :: u) with
    | fail e rest =>
      have other : g.isIdentifier = false := by
        cases hg : g.isIdentifier with
        | false => rfl
        | true => simp [Token.read, Token.match?, Token.sign?, hg] at identifier
      have mismatch : (State.entry fence held []).step g = .mismatch .identifier := by
        cases g <;> simp [State.step, State.stepEntry, noSpacing, brace, quote, other]
      rw [readName, read_identifier_eq_fail other]
      simp [run, mismatch, Reading.andThen, Turn.goOn]
    | ok lexeme rest =>
      obtain ⟨name, rfl, at_⟩ := identifierAt_of_read identifier
      rw [run_entry_identifier fence held [] at_, run_equals_eq_andThen, readName, identifier,
        Reading.andThen]
      cases Token.equals.read (skipSpacing rest) with
      | fail e rest => rfl
      | ok sign rest =>
        simp [Reading.map, Reading.andThen, Turn.goOn, Text.toString?_ofString, run_value_in_field]

/-- The reader goes through the entries of fields turn by turn, up to what ends the fields. -/
theorem run_entries_eq_goOn (fence : Fence) (held : List (Key × Value)) (t : Text) :
    run (.entries false fence held []) t
      = (entryTurn t).goOn (fun e => run (.entries false fence (e :: held) []))
          (run (.entries false fence held [])) := by
  cases t with
  | nil => rfl
  | cons g₀ t =>
    rw [entryTurn]
    cases skip : skipSpacing (g₀ :: t) with
    | nil =>
      have spacing : IsSpacingRun (g₀ :: t) := ⟨List.cons_ne_nil g₀ t, List.dropWhile_eq_nil_iff.1 skip⟩
      exact run_entries_spacing false fence held [] spacing
    | cons g u =>
      have noSpacing := not_spacing_of_skipSpacing_eq skip
      have first := run_entries_skipSpacing fence held [] false skip
      dsimp only
      by_cases closer : g = ']' ∨ g = '\x7d'
      · rw [if_pos closer, first]
        exact run_cons_congr rfl u
      rw [if_neg closer]
      by_cases comma : g = ','
      · subst comma
        rw [first]
        exact run_entry_eq_goOn fence held u _
      · have step : (State.entries true fence held []).step g
            = (State.entry fence held []).step g := by
          simp [State.step, State.stepEntries, noSpacing, closer, comma]
        rw [if_neg comma, first, run_cons_congr step, run_entry_eq_goOn fence held (g :: u),
          skipSpacing_cons_of_not_spacing noSpacing]

theorem entryAt_ne_leave (t rest : Text) : entryAt t ≠ .leave rest := by
  intro h
  cases t with
  | nil => cases h
  | cons g u =>
    rw [entryAt] at h
    split at h
    · cases h
    split at h
    · split at h <;> cases h
    · split at h <;> cases h

/-- The loop over entries is left at the end of the text and before a closing bracket or brace. -/
theorem fieldsEnd_of_entryTurn {t rest : Text} (h : entryTurn t = .leave rest) :
    FieldsEnd rest := by
  cases t with
  | nil =>
    cases h
    exact .inl rfl
  | cons g₀ t =>
    rw [entryTurn] at h
    split at h
    · cases h
    · next g u skip =>
      split at h
      · next closer =>
        cases h
        exact .inr ⟨g, u, rfl, closer⟩
      · exact absurd h (entryAt_ne_leave _ rest)

/-- Outside braces the value of fields is known where they end. -/
theorem run_entries_eq_goOn_ok {fence : Fence} (hf : fence ≠ .braces) (held : List (Key × Value))
    (t : Text) :
    run (.entries false fence held []) t
      = (entryTurn t).goOn (fun e => run (.entries false fence (e :: held) []))
          (.ok (fence.fields held)) := by
  rw [run_entries_eq_goOn]
  cases turn : entryTurn t with
  | leave rest =>
    rw [Turn.goOn, Turn.goOn, run_entries_of_end held [] hf (fieldsEnd_of_entryTurn turn)]
    exact run_done _ rest
  | fail e rest => rfl
  | take e rest => rfl
  | call make u => rfl

/-- Where fields end, fields between braces are read like others, and then the closing brace. -/
theorem run_braces_of_end {rest : Text} (ended : FieldsEnd rest) (held : List (Key × Value)) :
    run (.entries false .braces held []) rest
      = closeMap (run (.entries false .inside held []) rest) := by
  rcases ended with rfl | ⟨g, u, rfl, closer⟩
  · rfl
  · rcases closer with rfl | rfl
    · rfl
    · exact run_done _ u

/-- Fields between braces are read like others, and then the closing brace. -/
theorem run_braces_eq_closeMap (held : List (Key × Value)) (t : Text) :
    run (.entries false .braces held []) t
      = closeMap (run (.entries false .inside held []) t) := by
  -- turn by turn, on the length of what is left
  induction h : t.length using Nat.strongRecOn generalizing t held with
  | ind n ih =>
    subst h
    rw [run_entries_eq_goOn, run_entries_eq_goOn]
    cases turn : entryTurn t with
    | leave rest => exact run_braces_of_end (fieldsEnd_of_entryTurn turn) held
    | fail e rest => rfl
    | take e rest =>
      have shorter : rest.length < t.length :=
        length_lt_of_entryTurn (e := e) (by rw [turn]; exact .take)
      exact ih _ shorter _ rest rfl
    | call make u =>
      cases read : Value.read u with
      | fail e rest => simp [Turn.goOn, read, Reading.andThen, closeMap]
      | ok v rest =>
        have shorter : rest.length < t.length :=
          length_lt_of_entryTurn (e := make v) (by rw [turn]; exact .call read)
        simp only [Turn.goOn, read, Reading.andThen]
        exact ih _ shorter _ rest rfl

end GdbMi.Reader
