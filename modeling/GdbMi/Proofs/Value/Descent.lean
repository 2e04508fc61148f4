import GdbMi.Proofs.Value.Fault

/-!
# Recursive descent

The grammar read by procedures that call each other: a value, a list, a map, and the loops over the
items of a list and over the entries of fields. A value may take nothing but spacing, before a
closing bracket or brace (`closer_of_read_spacing`). Main statements: even so a turn of a loop that
goes on takes something (`length_lt_of_itemTurn`, `length_lt_of_entryTurn`).

The procedures are the methods `parse_value`, `parse_list`, `parse_map` and `parse_fields` of
`MIParser`, with the loops of `parse_list` and `parse_fields` as procedures of their own. How deep
their calls may be nested is the one thing that `Procedure.exec` is told.
-/

namespace GdbMi.Reader
set_option autoImplicit false

/-! ## The procedures -/

/-- What a turn of a loop does that collects things of a type. -/
inductive Turn (α : Type) where
  /-- The loop is left. -/
  | leave (rest : Text)
  | fail (e : ParseError) (rest : Text)
  /-- One more is read, and the loop goes on. -/
  | take (a : α) (rest : Text)
  /-- A value is read from the text, one more is made of it, and the loop goes on. -/
  | call (make : Value → α) (t : Text)

/-- A turn of the loop over the items of a list. -/
def itemTurn : Text → Turn Value
  | [] => .leave []
  | g₀ :: t =>
    match skipSpacing (g₀ :: t) with
    | [] => .fail exhausted []
    | g :: u =>
      if g = ']' then .leave u
      else if g = '\x7d' then .fail (.unexpected Token.listClose.pattern (g :: u)) (g :: u)
      else .call id (if g = ',' then u else g :: u)

/-- An identifier and the sign after it. -/
def readName (t : Text) : Reading Text :=
  (Token.identifier.read t).andThen fun name rest =>
    (Token.equals.read (skipSpacing rest)).map fun _ => name

/-- The rest of a turn of the loop over entries, after the comma and the spacing. -/
def entryAt : Text → Turn (Key × Value)
  | [] => .fail exhausted []
  | g :: u =>
    if g = '\x7b' then .call (Key.unnamed, ·) (g :: u)
    else if g = '"' then
      match Literal.read (g :: u) with
      | .ok s rest => .take (.bare, .text s) rest
      | .fail e rest => .fail e rest
    else
      match readName (g :: u) with
      | .ok name rest => .call (Key.ofName (name.toString?.getD ""), ·) rest
      | .fail e rest => .fail e rest

/-- A turn of the loop over the entries of fields. -/
def entryTurn : Text → Turn (Key × Value)
  | [] => .leave []
  | g₀ :: t =>
    match skipSpacing (g₀ :: t) with
    | [] => .fail exhausted []
    | g :: u =>
      if g = ']' ∨ g = '\x7d' then .leave (g :: u)
      else entryAt (if g = ',' then skipSpacing u else g :: u)

/-- The procedures. A turn of a loop is followed by a call for the turns after it, with what the
loop holds, the latest first. -/
inductive Procedure where
  | value
  | list
  | map
  | items (held : List Value)
  | entries (enclosed : Bool) (held : List (Key × Value))

/-- Goes on after a turn of a loop, where `value` reads values, `again` is the call for the turns
after it, and `v` is the value of the loop if it is left. -/
def Turn.next {α : Type} (value : Text → Option (Reading Value))
    (again : α → Text → Option (Reading Value)) (v : Value) : Turn α → Option (Reading Value)
  | leave rest => some (.ok v rest)
  | fail e rest => some (.fail e rest)
  | take a rest => again a rest
  | call make t =>
    match value t with
    | none => none
    | some (.ok w rest) => again (make w) rest
    | some (.fail e rest) => some (.fail e rest)

/-- Reads the closing brace after fields. -/
def closeMap (r : Reading Value) : Reading Value :=
  r.andThen fun v rest => (Token.mapClose.read (skipSpacing rest)).map fun _ => v

namespace Procedure

/-- What a procedure does, where `call` answers the calls that it makes. -/
def body (call : Procedure → Text → Option (Reading Value)) :
    Procedure → Text → Option (Reading Value)
  | value, t =>
    match skipSpacing t with
    | [] => some (.fail exhausted [])
    | g :: u =>
      if g = '"' then some ((Literal.read (g :: u)).map .text)
      else if g = '[' then call list (g :: u)
      else if g = '\x7b' then call map (g :: u)
      else call (entries false []) (g :: u)
  | list, t =>
    match Token.listOpen.read (skipSpacing t) with
    | .ok _ rest => call (items []) rest
    | .fail e rest => some (.fail e rest)
  | map, t =>
    match Token.mapOpen.read (skipSpacing t) with
    | .ok _ rest => (call (entries true []) rest).map closeMap
    | .fail e rest => some (.fail e rest)
  | items held, t =>
    (itemTurn t).next (call value) (fun v => call (items (v :: held))) (ofItems held.reverse)
  | entries enclosed held, t =>
    (entryTurn t).next (call value) (fun e => call (entries enclosed (e :: held)))
      (.fields enclosed held.reverse)

/-- What a procedure answers if calls may be nested so deep. -/
def exec : Nat → Procedure → Text → Option (Reading Value)
  | 0, _, _ => none
  | depth + 1, p, t => p.body (exec depth) t

end Procedure

/-! ## Progress -/

/-- The turn is followed by another one, with `a` read and so much left of the text. -/
inductive Turn.GoesOn {α : Type} : Turn α → α → Text → Prop where
  | take {a : α} {rest : Text} : GoesOn (.take a rest) a rest
  | call {make : Value → α} {t rest : Text} {v : Value} :
      Value.read t = .ok v rest → GoesOn (.call make t) (make v) rest

/-- A turn at the text `t` reads something, unless it leaves that to the value that it calls for,
which then begins with a certain glyph. -/
def Turn.Advances {α : Type} (starts : Glyph → Prop) (t : Text) : Turn α → Prop
  | leave _ => True
  | fail _ _ => True
  | take _ rest => rest.length < t.length
  | call _ u => u.length < t.length ∨ u.length ≤ t.length ∧ ∃ g w, u = g :: w ∧ starts g

/-- The glyph begins a value that takes something: it is no spacing and ends no fields. -/
structure StartsValue (g : Glyph) : Prop where
  noSpacing : g.isSpacing = false
  noCloser : ¬ (g = ']' ∨ g = '\x7d')

theorem startsValue_brace : StartsValue '\x7b' := ⟨rfl, by decide⟩

theorem length_skipSpacing_le (t : Text) : (skipSpacing t).length ≤ t.length :=
  (skipSpacing_suffix t).length_le

/-- A value takes the first glyph after spacing, unless that is a closing bracket or brace. -/
theorem read_value_cases {t rest : Text} {v : Value} (h : Value.read t = .ok v rest) :
    rest.length < (skipSpacing t).length ∨
      rest = skipSpacing t ∧ ∃ g u, rest = g :: u ∧ (g = ']' ∨ g = '\x7d') := by
  rw [Value.read, run_value_skipSpacing] at h
  cases skip : skipSpacing t with
  | nil =>
    rw [skip] at h
    cases h
  | cons g u =>
    rw [skip] at h
    rcases run_cons_eq_ok_iff.1 h with ⟨s, -, ran⟩ | ⟨step, rfl⟩
    · have left := (rest_run_suffix s u).length_le
      rw [ran] at left
      exact .inl (Nat.lt_succ_of_le left)
    · rcases closer_of_step_stop step with impossible | closer
      · cases impossible
      · exact .inr ⟨rfl, g, u, rfl, closer⟩

theorem length_rest_read_le {t rest : Text} {v : Value} (h : Value.read t = .ok v rest) :
    rest.length ≤ t.length := by
  have left := (rest_run_suffix (.value []) t).length_le
  rwa [← Value.read, h] at left

theorem StartsValue.length_rest_lt {g : Glyph} (start : StartsValue g) {u rest : Text} {v : Value}
    (h : Value.read (g :: u) = .ok v rest) : rest.length < (g :: u).length := by
  rcases read_value_cases h with shorter | ⟨rfl, g', u', eq, closer⟩
  · exact Nat.lt_of_lt_of_le shorter (length_skipSpacing_le _)
  · rw [skipSpacing_cons_of_not_spacing start.noSpacing] at eq
    cases eq
    exact absurd closer start.noCloser

namespace Turn.Advances

variable {α : Type} {starts : Glyph → Prop} {t u : Text} {turn : Turn α}

theorem length_le {make : Value → α} (h : (Turn.call make u).Advances starts t) :
    u.length ≤ t.length := by
  rcases h with shorter | ⟨noLonger, -⟩
  · exact Nat.le_of_lt shorter
  · exact noLonger

/-- A turn that advances and goes on leaves less of the text. -/
theorem length_lt (h : turn.Advances starts t) (value : ∀ g, starts g → StartsValue g) {a : α}
    {rest : Text} (goesOn : turn.GoesOn a rest) : rest.length < t.length := by
  cases goesOn with
  | take => exact h
  | call read =>
    rcases h with shorter | ⟨noLonger, g, w, rfl, hg⟩
    · exact Nat.lt_of_le_of_lt (length_rest_read_le read) shorter
    · exact Nat.lt_of_lt_of_le ((value g hg).length_rest_lt read) noLonger

theorem mono (h : turn.Advances starts u) (noLonger : u.length ≤ t.length) :
    turn.Advances starts t := by
  cases turn with
  | leave rest => trivial
  | fail e rest => trivial
  | take a rest => exact Nat.lt_of_lt_of_le h noLonger
  | call make w =>
    rcases h with shorter | ⟨le, start⟩
    · exact .inl (Nat.lt_of_lt_of_le shorter noLonger)
    · exact .inr ⟨Nat.le_trans le noLonger, start⟩

end Turn.Advances

theorem length_rest_token_lt {k : Token} {t lexeme rest : Text} (h : k.read t = .ok lexeme rest) :
    rest.length < t.length := by
  unfold Token.read at h
  split at h
  · next found =>
    cases h
    obtain ⟨rfl, nonempty⟩ := Token.append_of_match? found
    have := List.length_pos_iff.2 nonempty
    rw [List.length_append]
    omega
  · cases h

theorem length_rest_literal_lt {t rest : Text} {s : String} (h : Literal.read t = .ok s rest) :
    rest.length < t.length := by
  obtain ⟨u, bytes, rfl, scanned, -⟩ := Literal.read_eq_ok_iff.1 h
  have left := (Literal.rest_scan_suffix {} u).length_le
  rw [scanned] at left
  exact Nat.lt_succ_of_le left

theorem length_rest_readName_lt {t name rest : Text} (h : readName t = .ok name rest) :
    rest.length < t.length := by
  unfold readName at h
  cases first : Token.identifier.read t with
  | fail e left =>
    rw [first] at h
    cases h
  | ok lexeme left =>
    rw [first, Reading.andThen] at h
    cases second : Token.equals.read (skipSpacing left) with
    | fail e left' =>
      rw [second] at h
      cases h
    | ok sign left' =>
      rw [second] at h
      cases h
      have := length_rest_token_lt first
      have := length_rest_token_lt second
      have := length_skipSpacing_le left
      omega

/-- A turn over items reads a comma, or its item begins with a glyph that it has looked at. -/
theorem advances_itemTurn (t : Text) : (itemTurn t).Advances StartsValue t := by
  cases t with
  | nil => trivial
  | cons g₀ t =>
    have skipped := length_skipSpacing_le (g₀ :: t)
    rw [itemTurn]
    cases skip : skipSpacing (g₀ :: t) with
    | nil => trivial
    | cons g u =>
      rw [skip] at skipped
      dsimp only
      split
      · trivial
      next bracket =>
      split
      · trivial
      next brace =>
      split
      · exact .inl (Nat.lt_of_lt_of_le (Nat.lt_succ_self _) skipped)
      · exact .inr ⟨skipped, g, u, rfl, not_spacing_of_skipSpacing_eq skip,
          not_or.2 ⟨bracket, brace⟩⟩

/-- An entry reads a string or an identifier, or its value begins with a brace. -/
theorem advances_entryAt (t : Text) : (entryAt t).Advances (· = '\x7b') t := by
  cases t with
  | nil => trivial
  | cons g u =>
    rw [entryAt]
    split
    · next brace => exact .inr ⟨Nat.le_refl _, g, u, rfl, brace⟩
    split
    · cases literal : Literal.read (g :: u) with
      | fail e left => trivial
      | ok s left => exact length_rest_literal_lt literal
    · cases name : readName (g :: u) with
      | fail e left => trivial
      | ok lexeme left => exact .inl (length_rest_readName_lt name)

/-- A turn over entries does so too, after spacing and the comma. -/
theorem advances_entryTurn (t : Text) : (entryTurn t).Advances (· = '\x7b') t := by
  cases t with
  | nil => trivial
  | cons g₀ t =>
    have skipped := length_skipSpacing_le (g₀ :: t)
    rw [entryTurn]
    cases skip : skipSpacing (g₀ :: t) with
    | nil => trivial
    | cons g u =>
      rw [skip] at skipped
      dsimp only
      split
      · trivial
      have passed : (if g = ',' then skipSpacing u else g :: u).length ≤ (g :: u).length := by
        split
        · exact Nat.le_succ_of_le (length_skipSpacing_le u)
        · exact Nat.le_refl _
      exact (advances_entryAt _).mono (Nat.le_trans passed skipped)

/-- A turn over the items of a list that goes on has taken something. -/
theorem length_lt_of_itemTurn {t rest : Text} {v : Value} (h : (itemTurn t).GoesOn v rest) :
    rest.length < t.length :=
  (advances_itemTurn t).length_lt (fun _ start => start) h

/-- A turn over the entries of fields that goes on has taken something. -/
theorem length_lt_of_entryTurn {t rest : Text} {e : Key × Value}
    (h : (entryTurn t).GoesOn e rest) : rest.length < t.length :=
  (advances_entryTurn t).length_lt (by rintro g rfl; exact startsValue_brace) h

/-- What begins with a token takes that, whatever comes after it. -/
theorem length_lt_of_opened {k : Token} {s : State} {t rest : Text} {v : Value}
    (h : ((k.read (skipSpacing t)).andThen fun _ left => run s left) = .ok v rest) :
    rest.length < t.length := by
  cases opened : k.read (skipSpacing t) with
  | fail e left =>
    rw [opened] at h
    cases h
  | ok lexeme left =>
    rw [opened, Reading.andThen] at h
    have suffix := (rest_run_suffix s left).length_le
    rw [h] at suffix
    calc rest.length
      _ ≤ left.length := suffix
      _ < (skipSpacing t).length := length_rest_token_lt opened
      _ ≤ t.length := length_skipSpacing_le t

theorem length_rest_readList_lt {t rest : Text} {v : Value} (h : Value.readList t = .ok v rest) :
    rest.length < t.length :=
  length_lt_of_opened h

theorem length_rest_readMap_lt {t rest : Text} {v : Value} (h : Value.readMap t = .ok v rest) :
    rest.length < t.length :=
  length_lt_of_opened h

/-- A value that takes nothing but spacing stands before a closing bracket or brace. -/
theorem closer_of_read_spacing {t taken rest : Text} {v : Value} (h : Value.read t = .ok v rest)
    (split : t = taken ++ rest) (spacing : ∀ g ∈ taken, g.isSpacing = true) :
    ∃ g u, skipSpacing t = g :: u ∧ (g = ']' ∨ g = '\x7d') := by
  rcases read_value_cases h with shorter | ⟨eq, g, u, rfl, closer⟩
  · -- then something after the spacing was taken
    have skipped : skipSpacing t = skipSpacing rest := by
      rw [split, skipSpacing, List.dropWhile_append_of_pos spacing, skipSpacing]
    rw [skipped] at shorter
    exact absurd (length_skipSpacing_le rest) (Nat.not_le_of_lt shorter)
  · exact ⟨g, u, eq.symm, closer⟩

end GdbMi.Reader
