import GdbMi.Proofs.Value.Fault

/-!
# One glyph of lookahead

A reading that stops inside a text has looked at what it read and at the first glyph that it left,
and at nothing behind that glyph. So text that is put behind it, or taken away there, changes
neither the result nor the place where reading stops; an error is the same but for the rest of the
text that it shows (`alike_whatever_follows`).

`LooksAhead` says this of a reading at one text. It is carried from glyph to glyph: a glyph that is
read hands the claim on, one that is left unread is the glyph that was looked at, and one that is
refused is the last that was read.
-/

namespace GdbMi
set_option autoImplicit false

variable {α β : Type}

/-- The errors are of one kind, want the same, and are about the same glyph if they are about a
glyph. Only the rest of the text that they show may differ. -/
inductive ParseError.Alike : ParseError → ParseError → Prop where
  | same (e : ParseError) : Alike e e
  | unexpected (wanted : String) (rest rest' : Text) :
      Alike (.unexpected wanted rest) (.unexpected wanted rest')
  | trailing (rest rest' : Text) : Alike (.trailing rest) (.trailing rest')

/-- The readings have the same result, or errors that are alike. What they leave may differ. -/
inductive Reading.Alike : Reading α → Reading α → Prop where
  | ok (a : α) (rest rest' : Text) : Alike (.ok a rest) (.ok a rest')
  | fail {e e' : ParseError} (rest rest' : Text) :
      e.Alike e' → Alike (.fail e rest) (.fail e' rest')

/-- The error where `rest` is left instead. -/
def ParseError.leaving (e : ParseError) (rest : Text) : ParseError :=
  match e with
  | unexpected wanted _ => .unexpected wanted rest
  | trailing _ => .trailing rest
  | e => e

/-- The reading where `rest` is left instead. -/
def Reading.leaving (r : Reading α) (rest : Text) : Reading α :=
  match r with
  | ok a _ => .ok a rest
  | fail e _ => .fail (e.leaving rest) rest

theorem ParseError.alike_leaving (e : ParseError) (rest : Text) : e.Alike (e.leaving rest) := by
  cases e with
  | unexpected wanted left => exact .unexpected wanted left rest
  | trailing left => exact .trailing left rest
  | _ => exact .same _

theorem ParseError.leaving_of_glyph? {e : ParseError} {g : Glyph} (h : e.glyph? = some g)
    (rest : Text) : e.leaving rest = e := by
  cases e <;> first | rfl | cases h

theorem Reading.alike_leaving (r : Reading α) (rest : Text) : r.Alike (r.leaving rest) := by
  cases r with
  | ok a left => exact .ok a left rest
  | fail e left => exact .fail left rest (e.alike_leaving rest)

@[simp] theorem Reading.rest_leaving (r : Reading α) (rest : Text) :
    (r.leaving rest).rest = rest := by
  cases r <;> rfl

@[simp] theorem Reading.leaving_leaving (r : Reading α) (rest rest' : Text) :
    (r.leaving rest).leaving rest' = r.leaving rest' := by
  cases r with
  | ok a left => rfl
  | fail e left => cases e <;> rfl

theorem Reading.map_leaving (f : α → β) (r : Reading α) (rest : Text) :
    (r.map f).leaving rest = (r.leaving rest).map f := by
  cases r <;> rfl

/-- If the reading stops before a glyph of the text, it stops there in the same way whatever stands
behind the glyph. -/
def LooksAhead (read : Text → Reading α) (t : Text) : Prop :=
  ∀ taken g w, t = taken ++ g :: w → (read t).rest = g :: w →
    ∀ w', read (taken ++ g :: w') = (read t).leaving (g :: w')

namespace LooksAhead

variable {read : Text → Reading α} {g : Glyph} {t : Text}

/-- In an empty text there is no glyph to stop before. -/
theorem nil : LooksAhead read [] := by
  intro taken g w split
  simp at split

/-- A glyph that is read leaves the claim to what follows it. -/
theorem of_go {next : Text → Reading α} (go : ∀ u, read (g :: u) = next u)
    (suffix : (next t).rest <:+ t) (h : LooksAhead next t) : LooksAhead read (g :: t) := by
  intro taken x w split left w'
  rw [go] at left ⊢
  cases taken with
  | nil =>
    -- then nothing is read, but the glyph was
    cases split
    have short := suffix.length_le
    rw [left, List.length_cons] at short
    omega
  | cons y taken =>
    obtain ⟨rfl, rfl⟩ := List.cons.inj split
    rw [List.cons_append, go]
    exact h taken x w rfl left w'

/-- A glyph that is left unread and stops the reading, whatever follows it. -/
theorem of_stop {r : Reading α} (stop : ∀ u, read (g :: u) = r.leaving (g :: u)) :
    LooksAhead read (g :: t) := by
  intro taken x w split left w'
  rw [stop] at left ⊢
  rw [Reading.rest_leaving] at left
  rw [left, List.self_eq_append_left] at split
  subst split
  obtain ⟨rfl, rfl⟩ := List.cons.inj left
  rw [List.nil_append, stop, Reading.leaving_leaving]

/-- A glyph that is the last one read, whatever follows it. -/
theorem of_last {r : Reading α} (last : ∀ u, read (g :: u) = r.leaving u) :
    LooksAhead read (g :: t) := by
  intro taken x w split left w'
  rw [last] at left ⊢
  rw [Reading.rest_leaving] at left
  subst left
  have taken_eq : taken = [g] := List.append_cancel_right split.symm
  rw [taken_eq, List.singleton_append, last, Reading.leaving_leaving]

/-- What is done with the result does not matter. -/
theorem map (h : LooksAhead read t) (f : α → β) : LooksAhead (fun t => (read t).map f) t := by
  intro taken x w split left w'
  rw [Reading.rest_map] at left
  dsimp only
  rw [h taken x w split left w', Reading.map_leaving]

end LooksAhead

/-! ## Literals -/

namespace Literal

theorem looksAhead_scan (s : Scan) (t : Text) : LooksAhead (scan s) t := by
  induction t generalizing s with
  | nil => exact .nil
  | cons g t ih =>
    cases step : s.step g with
    | go s' =>
      have go (u : Text) : scan s (g :: u) = scan s' u := by simp only [scan, step]
      exact .of_go go (rest_scan_suffix s' t) (ih s')
    | close bytes =>
      have closed (u : Text) : scan s (g :: u) = (Reading.ok bytes []).leaving u := by
        simp only [scan, step, Reading.leaving]
      exact .of_last closed
    | refuse e =>
      have refused (u : Text) : scan s (g :: u) = (Reading.fail e []).leaving u := by
        simp only [scan, step, Reading.leaving,
          ParseError.leaving_of_glyph? (Reader.glyph?_of_refuse g step)]
      exact .of_last refused

theorem looksAhead_read (t : Text) : LooksAhead read t := by
  cases t with
  | nil => exact .nil
  | cons g t =>
    by_cases quote : g = '"'
    · subst quote
      have suffix : ((scan {} t).map Utf8.decodeLossy).rest <:+ t := by
        rw [Reading.rest_map]
        exact rest_scan_suffix {} t
      exact .of_go read_opening_quote suffix ((looksAhead_scan {} t).map Utf8.decodeLossy)
    · have stuck (u : Text) :
          read (g :: u) = (Reading.fail (.unexpected "\"" []) []).leaving (g :: u) := by
        rw [read, if_neg quote]
        rfl
      exact .of_stop stuck

end Literal

/-! ## Values -/

namespace Reader

theorem looksAhead_run (s : State) (t : Text) : LooksAhead (run s) t := by
  induction t generalizing s with
  | nil => exact .nil
  | cons g t ih =>
    cases step : s.step g with
    | go s' =>
      have go (u : Text) : run s (g :: u) = run s' u := by simp only [run, step]
      exact .of_go go (rest_run_suffix s' t) (ih s')
    | stop v =>
      have stopped (u : Text) : run s (g :: u) = (Reading.ok v []).leaving (g :: u) := by
        simp only [run, step, Reading.leaving]
      exact .of_stop stopped
    | mismatch due =>
      have stuck (u : Text) : run s (g :: u)
          = (Reading.fail (.unexpected due.pattern []) []).leaving (g :: u) := by
        simp only [run, step, Reading.leaving, ParseError.leaving]
      exact .of_stop stuck
    | refuse e =>
      have refused (u : Text) : run s (g :: u) = (Reading.fail e []).leaving u := by
        simp only [run, step, Reading.leaving,
          ParseError.leaving_of_glyph? (glyph?_of_step_refuse step)]
      exact .of_last refused

/-- What a sign opens, after spacing. -/
theorem looksAhead_opened {k : Token} {sign : Glyph} (hk : k.sign? = some sign) (s : State)
    (t : Text) :
    LooksAhead (fun t => (k.read (skipSpacing t)).andThen fun _ rest => run s rest) t := by
  induction t with
  | nil => exact .nil
  | cons g t ih =>
    cases spacing : g.isSpacing with
    | true =>
      have go (u : Text) := congrArg k.read (skipSpacing_cons_of_spacing spacing u)
      have suffix : ((k.read (skipSpacing t)).andThen fun _ rest => run s rest).rest <:+ t :=
        Reading.rest_andThen_suffix ((k.rest_read_suffix _).trans (skipSpacing_suffix t))
          fun _ => rest_run_suffix s
      exact .of_go (fun u => by rw [go]) suffix ih
    | false =>
      have at_ (u : Text) := skipSpacing_cons_of_not_spacing spacing u
      by_cases opens : g = sign
      · have go (u : Text) : (k.read (skipSpacing (g :: u))).andThen (fun _ rest => run s rest)
            = run s u := by
          rw [at_, opens, (Token.read_eq_ok_iff_of_sign hk).2 ⟨rfl, rfl⟩, Reading.andThen]
        exact .of_go go (rest_run_suffix s t) (looksAhead_run s t)
      · have stuck (u : Text) : (k.read (skipSpacing (g :: u))).andThen (fun _ rest => run s rest)
            = (Reading.fail (.unexpected k.pattern []) []).leaving (g :: u) := by
          rw [at_, Token.read]
          simp [Token.match?, hk, opens, Reading.andThen, Reading.leaving, ParseError.leaving]
        exact .of_stop stuck

end Reader

/-! ## Commands -/

/-- The commands that read a string or a value. -/
inductive Command.Parses : Command → Prop where
  | string : Parses .string
  | value : Parses .value
  | list : Parses .list
  | map : Parses .map
  | fields (enclosed : Bool) : Parses (.fields enclosed)

theorem Command.Parses.looksAhead {c : Command} (parses : c.Parses) (t : Text) :
    LooksAhead c.run t := by
  cases parses with
  | string => exact (Literal.looksAhead_read t).map Answer.string
  | value => exact (Reader.looksAhead_run _ t).map Answer.value
  | list => exact (Reader.looksAhead_opened (k := .listOpen) rfl _ t).map Answer.value
  | map => exact (Reader.looksAhead_opened (k := .mapOpen) rfl _ t).map Answer.value
  | fields enclosed =>
    have entries : LooksAhead (FieldList.read enclosed) t := (Reader.looksAhead_run _ t).map _
    exact entries.map fun f => Answer.value f.toValue

theorem position_append (taken rest : Text) : position (taken ++ rest) rest = taken.length := by
  simp [position]

/-- **One glyph of lookahead.** If the reading of a string or a value stops before the end of the
text, then with more text behind it stops at the same position, with the same result or with an
error that is alike. More than that, nothing matters that stands behind the glyph at which it
stops. -/
theorem alike_whatever_follows (c : Command) (parses : c.Parses) :
    (∀ t s, position t (c.run t).rest < t.length →
      (c.run t).Alike (c.run (t ++ s)) ∧
        position (t ++ s) (c.run (t ++ s)).rest = position t (c.run t).rest) ∧
      ∀ taken g w w', (c.run (taken ++ g :: w)).rest = g :: w →
        (c.run (taken ++ g :: w)).Alike (c.run (taken ++ g :: w')) ∧
          (c.run (taken ++ g :: w')).rest = g :: w' := by
  have behind (taken : Text) (g : Glyph) (w w' : Text)
      (left : (c.run (taken ++ g :: w)).rest = g :: w) :
      (c.run (taken ++ g :: w)).Alike (c.run (taken ++ g :: w')) ∧
        (c.run (taken ++ g :: w')).rest = g :: w' := by
    have same := parses.looksAhead (taken ++ g :: w) taken g w rfl left w'
    rw [same, Reading.rest_leaving]
    exact ⟨Reading.alike_leaving _ _, rfl⟩
  refine ⟨?_, behind⟩
  intro t s inside
  obtain ⟨taken, split⟩ := c.rest_run_suffix t
  cases left : (c.run t).rest with
  | nil =>
    rw [left] at inside
    simp [position] at inside
  | cons g w =>
    rw [left] at split
    subst split
    have longer : taken ++ g :: w ++ s = taken ++ g :: (w ++ s) := by simp
    obtain ⟨alike, left'⟩ := behind taken g w (w ++ s) left
    rw [longer, left', position_append, position_append]
    exact ⟨alike, rfl⟩

/-- A list that a brace cannot end, with more text behind the brace, which the error then shows too;
and fields before a bracket, whatever the bracket belongs to. -/
theorem alike_whatever_follows_brace :
    ((Command.run .value (Text.ofString "[\"a\"\x7d")).Alike
        (Command.run .value (Text.ofString "[\"a\"\x7d, \"b\"]")) ∧
      position (Text.ofString "[\"a\"\x7d, \"b\"]")
        (Command.run .value (Text.ofString "[\"a\"\x7d, \"b\"]")).rest = 4) ∧
      (Command.run (.fields false) (Text.ofString "a=\"1\"]")).Alike
        (Command.run (.fields false) (Text.ofString "a=\"1\"]=")) := by
  have brace := (alike_whatever_follows .value .value).1 (Text.ofString "[\"a\"\x7d")
    (Text.ofString ", \"b\"]") (by decide)
  have closed := (alike_whatever_follows (.fields false) (.fields false)).2
    (Text.ofString "a=\"1\"") ']' [] (Text.ofString "=") rfl
  exact ⟨brace, closed.1⟩

end GdbMi
