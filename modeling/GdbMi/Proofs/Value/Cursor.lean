import GdbMi.Proofs.Literal.Cursor
import GdbMi.Proofs.Value.Descent.Termination

/-!
# Driving a cursor

The procedures of recursive descent, and all that a reader may be told to do, as an `MIParser` does
them with its one cursor, which every failure leaves where it stands by then. Each is a reading of
the text that is left (`Procedure.reads_perform`, `Command.reads_act`), and so is a run of them
(`Cursor.after_eq`). Main statement: `moves_on_and_keeps_text`.
-/

namespace GdbMi
set_option autoImplicit false

/-! ## The procedures -/

namespace Cursor

/-- Reads the comma that has been looked at, if it is one. -/
def passComma (g : Glyph) : CursorM Unit := do
  if g = ',' then
    let _ ← token .comma false

end Cursor

namespace Reader.Procedure

/-- What the loop over entries does after the comma, where `call` does the calls that it makes and
`again` takes the next turns. -/
def actEntry (call : Procedure → CursorM Value) (again : Key × Value → CursorM Value) :
    CursorM Value := do
  let g ← Cursor.peek true
  if g = '\x7b' then
    let v ← call value
    again (.unnamed, v)
  else if g = '"' then
    let s ← Cursor.literal
    again (.bare, .text s)
  else
    let name ← Cursor.token .identifier true
    let _ ← Cursor.token .equals true
    let v ← call value
    again (.ofName (name.toString?.getD ""), v)

/-- What a procedure does with a cursor, where `call` does the calls that it makes. -/
def act (call : Procedure → CursorM Value) : Procedure → CursorM Value
  | value => do
    let g ← Cursor.peek true
    if g = '"' then
      let s ← Cursor.literal
      return .text s
    else if g = '[' then call list
    else if g = '\x7b' then call map
    else call (entries false [])
  | list => do
    let _ ← Cursor.token .listOpen true
    call (items [])
  | map => do
    let _ ← Cursor.token .mapOpen true
    let v ← call (entries true [])
    let _ ← Cursor.token .mapClose true
    return v
  | items held => do
    if ← Cursor.hasRemaining then
      let g ← Cursor.peek true
      if g = ']' then
        let _ ← Cursor.token .listClose false
        return ofItems held.reverse
      else if g = '\x7d' then
        let rest ← Cursor.remaining
        throw (.unexpected Token.listClose.pattern rest)
      else
        Cursor.passComma g
        let v ← call value
        call (items (v :: held))
    else return ofItems held.reverse
  | entries enclosed held => do
    if ← Cursor.hasRemaining then
      let g ← Cursor.peek true
      if g = ']' ∨ g = '\x7d' then return .fields enclosed held.reverse
      else
        Cursor.passComma g
        actEntry call fun e => call (entries enclosed (e :: held))
    else return .fields enclosed held.reverse

/-- What a procedure does with a cursor if calls may be nested so deep. -/
def actTo : Nat → Procedure → CursorM Value
  | 0, _ => fun _ => none
  | depth + 1, p => p.act (actTo depth)

/-- What a procedure does with a cursor, where calls may be nested as deep as the length of what is
left can ask for. -/
def perform (p : Procedure) : CursorM Value := do
  let rest ← Cursor.remaining
  p.actTo (5 * (rest.length + 1) + 1)

end Reader.Procedure

/-- What a command does with a cursor. -/
def Command.act : Command → CursorM Answer
  | .peek skipping => return .glyph (← Cursor.peek skipping)
  | .next => return .glyph (← Cursor.next)
  | .token k skipping => return .text (← Cursor.token k skipping)
  | .checkEnd skipping => do
    Cursor.checkEnd skipping
    return .nothing
  | .skipSpacing => do
    Cursor.skipSpacing
    return .nothing
  | .remaining => return .text (← Cursor.remaining)
  | .hasRemaining => return .flag (← Cursor.hasRemaining)
  | .string => return .string (← Cursor.literal)
  | .value => return .value (← Reader.Procedure.value.perform)
  | .list => return .value (← Reader.Procedure.list.perform)
  | .map => return .value (← Reader.Procedure.map.perform)
  | .fields enclosed => return .value (← (Reader.Procedure.entries enclosed []).perform)

/-! ## The procedures read as without a cursor -/

namespace Cursor

theorem reads_passComma (g : Glyph) :
    (passComma g).Reads fun t =>
      if g = ',' then some ((Token.comma.read t).map fun _ => ()) else some (.ok () t) :=
  ((reads_token .comma false).map fun _ => ()).ite (.pure ())

end Cursor

theorem Reader.Turn.next_call {α : Type} (value : Text → Option (Reading Value))
    (again : α → Text → Option (Reading Value)) (v : Value) (make : Value → α) (t : Text) :
    (Turn.call make t).next value again v = Reading.goOn (value t) fun w => again (make w) := by
  rw [next]
  rcases value t with _ | (_ | _) <;> rfl

namespace Reader.Procedure

open Cursor

section
variable {call : Procedure → CursorM Value} {call' : Procedure → Text → Option (Reading Value)}
  (h : ∀ p, (call p).Reads (call' p))
include h

theorem reads_value : (act call value).Reads (body call' value) := by
  refine .congr ((reads_peek true).bind fun g => (reads_literal.map Value.text).ite
    ((h list).ite ((h map).ite (h (entries false []))))) fun t => ?_
  rw [body]
  change Reading.goOn (some (lookAt (GdbMi.skipSpacing t))) _ = _
  cases GdbMi.skipSpacing t <;> rfl

theorem reads_list : (act call list).Reads (body call' list) := by
  refine .congr ((reads_token .listOpen true).bind fun _ => h (items [])) fun t => ?_
  rw [body]
  change Reading.goOn (some (Token.listOpen.read (GdbMi.skipSpacing t))) _ = _
  cases Token.listOpen.read (GdbMi.skipSpacing t) <;> rfl

theorem reads_map : (act call map).Reads (body call' map) := by
  refine .congr ((reads_token .mapOpen true).bind fun _ => (h (entries true [])).bind fun v =>
    (reads_token .mapClose true).map fun _ => v) fun t => ?_
  rw [body]
  change Reading.goOn (some (Token.mapOpen.read (GdbMi.skipSpacing t))) _ = _
  cases Token.mapOpen.read (GdbMi.skipSpacing t) with
  | fail e rest => rfl
  | ok lexeme rest =>
    change Reading.goOn (call' (entries true []) rest) _ = (call' (entries true []) rest).map _
    rcases call' (entries true []) rest with _ | (_ | _) <;> rfl

theorem reads_items (held : List Value) :
    (act call (items held)).Reads (body call' (items held)) := by
  have closing := (reads_token .listClose false).map fun _ => ofItems held.reverse
  have refused := reads_remaining.andThen fun rest =>
    CursorM.Reads.throw (α := Value) (.unexpected Token.listClose.pattern rest)
  refine .congr (reads_hasRemaining.bind fun left => .ite
    ((reads_peek true).bind fun g => closing.ite (refused.ite
      ((reads_passComma g).bind fun _ => (h value).bind fun v => h (items (v :: held)))))
    (.pure (ofItems held.reverse))) fun t => ?_
  rw [body]
  cases t with
  | nil => rfl
  | cons g₀ t =>
    rw [itemTurn]
    change Reading.goOn (some (lookAt (GdbMi.skipSpacing (g₀ :: t)))) _ = _
    cases GdbMi.skipSpacing (g₀ :: t) with
    | nil => rfl
    | cons g u =>
      change ite _ _ _ = _
      dsimp only
      by_cases bracket : g = ']'
      · subst bracket
        rfl
      by_cases brace : g = '\x7d'
      · subst brace
        rfl
      rw [if_neg bracket, if_neg bracket, if_neg brace, if_neg brace, Turn.next_call]
      by_cases comma : g = ','
      · subst comma
        rfl
      · rw [if_neg comma, if_neg comma]
        rfl

theorem reads_entry {again : Key × Value → CursorM Value}
    {again' : Key × Value → Text → Option (Reading Value)} (h' : ∀ e, (again e).Reads (again' e))
    (v : Value) :
    (actEntry call again).Reads fun t =>
      (entryAt (GdbMi.skipSpacing t)).next (call' value) again' v := by
  refine .congr ((reads_peek true).bind fun g => .ite
    ((h value).bind fun v => h' (.unnamed, v))
    (.ite (reads_literal.bind fun s => h' (.bare, .text s))
      ((reads_token .identifier true).bind fun name => (reads_token .equals true).bind fun _ =>
        (h value).bind fun v => h' (.ofName (name.toString?.getD ""), v)))) fun t => ?_
  change Reading.goOn (some (lookAt (GdbMi.skipSpacing t))) _ = _
  cases skip : GdbMi.skipSpacing t with
  | nil => rfl
  | cons g u =>
    -- the spacing before the identifier is gone, as the glyph has been looked at
    have same : GdbMi.skipSpacing (g :: u) = g :: u :=
      skipSpacing_cons_of_not_spacing (not_spacing_of_skipSpacing_eq skip) u
    change ite _ _ _ = _
    rw [entryAt]
    by_cases brace : g = '\x7b'
    · rw [if_pos brace, if_pos brace, Turn.next_call]
    rw [if_neg brace, if_neg brace]
    by_cases quote : g = '"'
    · rw [if_pos quote, if_pos quote]
      cases Literal.read (g :: u) <;> rfl
    rw [if_neg quote, if_neg quote]
    change Reading.goOn (some (Token.identifier.read (GdbMi.skipSpacing (g :: u)))) _ = _
    rw [same, readName]
    cases Token.identifier.read (g :: u) with
    | fail e rest => rfl
    | ok name rest =>
      change Reading.goOn (some (Token.equals.read (GdbMi.skipSpacing rest))) _ = _
      rw [Reading.andThen]
      cases Token.equals.read (GdbMi.skipSpacing rest) with
      | fail e rest => rfl
      | ok sign rest => exact (Turn.next_call _ _ _ _ _).symm

theorem reads_entries (enclosed : Bool) (held : List (Key × Value)) :
    (act call (entries enclosed held)).Reads (body call' (entries enclosed held)) := by
  have entry := reads_entry h (fun e => h (entries enclosed (e :: held)))
    (.fields enclosed held.reverse)
  refine .congr (reads_hasRemaining.bind fun left => .ite
    ((reads_peek true).bind fun g => .ite (.pure (Value.fields enclosed held.reverse))
      ((reads_passComma g).bind fun _ => entry))
    (.pure (Value.fields enclosed held.reverse))) fun t => ?_
  rw [body]
  cases t with
  | nil => rfl
  | cons g₀ t =>
    rw [entryTurn]
    change Reading.goOn (some (lookAt (GdbMi.skipSpacing (g₀ :: t)))) _ = _
    cases skip : GdbMi.skipSpacing (g₀ :: t) with
    | nil => rfl
    | cons g u =>
      change ite _ _ _ = _
      dsimp only
      by_cases closer : g = ']' ∨ g = '\x7d'
      · rw [if_pos closer, if_pos closer]
        rfl
      rw [if_neg closer, if_neg closer]
      by_cases comma : g = ','
      · subst comma
        rfl
      · rw [if_neg comma, if_neg comma]
        have same : GdbMi.skipSpacing (g :: u) = g :: u :=
          skipSpacing_cons_of_not_spacing (not_spacing_of_skipSpacing_eq skip) u
        change (entryAt (GdbMi.skipSpacing (g :: u))).next _ _ _ = _
        rw [same]

/-- A procedure reads as its body does, if the calls that it makes do. -/
theorem reads_act (p : Procedure) : (p.act call).Reads (p.body call') := by
  cases p with
  | value => exact reads_value h
  | list => exact reads_list h
  | map => exact reads_map h
  | items held => exact reads_items h held
  | entries enclosed held => exact reads_entries h enclosed held

end

theorem reads_actTo (depth : Nat) (p : Procedure) : (p.actTo depth).Reads (p.exec depth) := by
  induction depth generalizing p with
  | zero => exact ⟨nofun, fun _ _ => rfl⟩
  | succ depth ih => exact reads_act ih p

/-- What a procedure does with a cursor is what the reader does. -/
theorem reads_perform (p : Procedure) : p.perform.Reads fun t => some (p.reading t) :=
  .congr (reads_remaining.bind fun rest => reads_actTo (5 * (rest.length + 1) + 1) p) fun _ =>
    exec_eq_some (Nat.lt_succ_self _) p

end Reader.Procedure

/-- With a cursor a command does the same as on the text that is left. -/
theorem Command.reads_act (command : Command) : command.act.Reads fun t => some (command.run t) := by
  cases command with
  | peek skipping =>
    refine .congr ((Cursor.reads_peek skipping).map Answer.glyph) fun t => ?_
    rw [run]
    cases skipIf skipping t <;> rfl
  | next =>
    refine .congr (Cursor.reads_next.map Answer.glyph) fun t => ?_
    cases t <;> rfl
  | token k skipping => exact (Cursor.reads_token k skipping).map Answer.text
  | checkEnd skipping =>
    refine .congr ((Cursor.reads_checkEnd skipping).map fun _ => Answer.nothing) fun t => ?_
    rw [run]
    cases skipIf skipping t <;> rfl
  | skipSpacing => exact (Cursor.reads_skipIf true).map fun _ => Answer.nothing
  | remaining => exact Cursor.reads_remaining.map Answer.text
  | hasRemaining => exact Cursor.reads_hasRemaining.map Answer.flag
  | string => exact Cursor.reads_literal.map Answer.string
  | value => exact (Reader.Procedure.reads_perform .value).map Answer.value
  | list => exact (Reader.Procedure.reads_perform .list).map Answer.value
  | map => exact (Reader.Procedure.reads_perform .map).map Answer.value
  | fields enclosed =>
    refine .congr ((Reader.Procedure.reads_perform (.entries enclosed [])).map Answer.value) fun t => ?_
    rw [Reader.Procedure.reading_entries_nil, run]
    cases FieldList.read enclosed t <;> rfl

/-! ## Commands one after the other -/

/-- The cursor after commands, each of which goes on where the one before it left the cursor, also
if that one failed. -/
def Cursor.after (c : Cursor) (commands : List Command) : Option Cursor :=
  commands.foldlM (fun c command => (command.act.on c).map Prod.snd) c

namespace Command

/-- What is left of the text after commands. -/
def leftBy (t : Text) (commands : List Command) : Text :=
  commands.foldl (fun t command => (command.run t).rest) t

theorem leftBy_suffix (t : Text) (commands : List Command) : leftBy t commands <:+ t := by
  induction commands generalizing t with
  | nil => exact List.suffix_refl t
  | cons command commands ih => exact (ih _).trans (command.rest_run_suffix t)

theorem getLast?_runAll (before : List Command) (command : Command) (t : Text) :
    (runAll (before ++ [command]) t).getLast? = some (command.run (leftBy t before)) := by
  induction before generalizing t with
  | nil => rfl
  | cons first before ih =>
    rw [List.cons_append, runAll, List.getLast?_cons, ih]
    rfl

/-- Whether spacing is skipped first. -/
def skips : Command → Bool
  | peek skipping => skipping
  | token _ skipping => skipping
  | checkEnd skipping => skipping
  | skipSpacing => true
  | _ => false

/-- The command reads nothing but spacing, if it ends so: it only looks at what is left, or its token
is not there. -/
def OnlyLooks (outcome : Except ParseError Answer) : Command → Prop
  | peek _ => True
  | token _ _ => ∃ e, outcome = .error e
  | checkEnd _ => True
  | skipSpacing => True
  | remaining => True
  | hasRemaining => True
  | _ => False

theorem rest_run_of_onlyLooks {command : Command} {t : Text}
    (h : command.OnlyLooks (command.run t).outcome) :
    (command.run t).rest = skipIf command.skips t := by
  cases command with
  | peek skipping =>
    rw [run, skips]
    cases skipIf skipping t <;> rfl
  | token k skipping =>
    rw [run, Reading.rest_map, skips, Token.read]
    obtain ⟨e, failed⟩ := h
    rw [run, Token.read] at failed
    cases found : k.match? (skipIf skipping t) with
    | none => rfl
    | some taken =>
      rw [found] at failed
      cases failed
  | checkEnd skipping =>
    rw [run, skips]
    cases skipIf skipping t <;> rfl
  | skipSpacing => rfl
  | remaining => rfl
  | hasRemaining => rfl
  | next | string | value | list | map | fields => exact h.elim

end Command

namespace Cursor

/-- After commands the cursor stands before what they leave. -/
theorem after_eq {c : Cursor} (valid : c.Valid) (commands : List Command) :
    c.after commands = some (c.before (Command.leftBy c.unread commands)) := by
  induction commands generalizing c with
  | nil => exact congrArg some (before_unread valid).symm
  | cons command commands ih =>
    have suffix := (command.rest_run_suffix c.unread).trans c.unread_suffix
    have later := ih (c.valid_before (command.run c.unread).rest)
    rw [unread_before suffix] at later
    rw [after, List.foldlM_cons, command.reads_act.on_eq c valid]
    exact later

theorem isSpacing_of_lt_behindSpacing {c : Cursor} {i : Nat} (ge : c.position ≤ i)
    (lt : i < c.behindSpacing.position) : ∃ g, c.text[i]? = some g ∧ g.isSpacing = true := by
  fun_induction behindSpacing c with
  | case1 c inside spacing ih =>
    rcases Nat.eq_or_lt_of_le ge with rfl | further
    · exact ⟨_, List.getElem?_eq_getElem inside, spacing⟩
    · exact ih further lt
  | case2 c _ _ => exact absurd lt (Nat.not_lt_of_le ge)
  | case3 c _ => exact absurd lt (Nat.not_lt_of_le ge)

end Cursor

/-- However a cursor was driven before, also by commands that failed, the next command ends as on the
text that is left. It leaves the text as it is and moves the position no way but on, up to the end
of the text; what is left is the text from the position. A command that only looks, and one for a
token that is not there, passes spacing only, and nothing if it is not to skip spacing. -/
theorem moves_on_and_keeps_text (text : Text) (before : List Command) (command : Command) :
    ∃ c c' r, Cursor.after { text } before = some c ∧
      command.act.on c = some (r.outcome, c') ∧
      (Command.runAll (before ++ [command]) text).getLast? = some r ∧
      c'.position = position text r.rest ∧
      c.text = text ∧ c'.text = text ∧ c.position ≤ c'.position ∧ c'.position ≤ text.length ∧
      Cursor.remaining.on c = some (.ok (text.drop c.position), c) ∧
      Cursor.hasRemaining.on c = some (.ok (c.position < text.length), c) ∧
      (command.OnlyLooks r.outcome →
        (∀ i, c.position ≤ i → i < c'.position → ∃ g, text[i]? = some g ∧ g.isSpacing = true) ∧
          (command.skips = false → c' = c)) := by
  let c := Cursor.before { text } (Command.leftBy text before)
  have valid : c.Valid := Cursor.valid_before _ _
  have left : c.unread = Command.leftBy text before :=
    Cursor.unread_before (Command.leftBy_suffix text before)
  let r := command.run (Command.leftBy text before)
  have suffix : r.rest <:+ c.unread := left ▸ command.rest_run_suffix _
  have start : Cursor.Valid { text } := Nat.zero_le text.length
  have reached : Cursor.after { text } before = some c := Cursor.after_eq start before
  have acted : command.act.on c = some (c.ended r) := by
    rw [command.reads_act.on_eq c valid, left]
    rfl
  have further : c.position ≤ (c.before r.rest).position :=
    Nat.sub_le_sub_left (left ▸ suffix.length_le) text.length
  refine ⟨c, c.before r.rest, r, reached, acted, Command.getLast?_runAll before command text, rfl,
    rfl, rfl, further, Cursor.valid_before c r.rest, rfl, rfl, fun looks => ?_⟩
  have rest : r.rest = skipIf command.skips c.unread := left ▸ Command.rest_run_of_onlyLooks looks
  cases skips : command.skips with
  | false =>
    have stays : c.before r.rest = c := by
      rw [rest, skips]
      exact Cursor.before_unread valid
    refine ⟨fun i ge lt => ?_, fun _ => stays⟩
    rw [stays] at lt
    exact absurd lt (Nat.not_lt_of_le ge)
  | true =>
    have passed : c.before r.rest = c.behindSpacing := by
      rw [rest, skips]
      exact (Cursor.behindSpacing_eq valid).symm
    refine ⟨fun i ge lt => ?_, nofun⟩
    rw [passed] at lt
    exact Cursor.isSpacing_of_lt_behindSpacing ge lt

/-- A list fails at a closing brace, which is read by itself; then a token is looked for behind two
spaces, where there is a comma. -/
theorem moves_on_and_keeps_text_after_error :
    let text := Text.ofString "[\"a\"\x7d  ,"
    ∃ c c', Cursor.after { text } [.list, .next] = some c ∧
      (Command.token .equals true).act.on c = some (.error (.unexpected "=" [Glyph.char ',']), c') ∧
      c'.text = text ∧ c'.position = 7 ∧
      ∀ i, c.position ≤ i → i < 7 → ∃ g, text[i]? = some g ∧ g.isSpacing = true := by
  intro text
  obtain ⟨c, c', r, reached, acted, last, position_eq, -, same, -, -, -, -, looks⟩ :=
    moves_on_and_keeps_text text [.list, .next] (.token .equals true)
  have failed : r = .fail (.unexpected "=" [Glyph.char ',']) [Glyph.char ','] :=
    (Option.some.inj last).symm
  subst failed
  obtain ⟨spacing, -⟩ := looks ⟨_, rfl⟩
  have stands : c'.position = 7 := position_eq
  rw [stands] at spacing
  exact ⟨c, c', reached, acted, same, stands, spacing⟩

end GdbMi
