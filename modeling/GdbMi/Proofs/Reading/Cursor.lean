import GdbMi.Proofs.Grammar
import GdbMi.Reading.Cursor
import GdbMi.Value.Stepwise
import Mathlib.Data.List.Infix

/-!
# Cursors and readings

What is done with a cursor is a reading of the unread part of its text (`CursorM.Reads`): it has the
same outcome, and moves the cursor to where the reading left off. This holds of the steps that a
cursor offers, and of all that is composed of such steps (`CursorM.Reads.bind`), also if it fails
halfway.
-/

namespace GdbMi
set_option autoImplicit false

/-! ## Where a cursor stands -/

namespace Cursor

/-- The position is one of the text, or its end. -/
def Valid (c : Cursor) : Prop := c.position ≤ c.text.length

/-- The cursor moved to where the text has that rest. -/
def before (c : Cursor) (rest : Text) : Cursor :=
  { c with position := GdbMi.position c.text rest }

/-- The outcome of a reading, and the cursor where the reading left off. -/
def ended {α : Type} (c : Cursor) (r : Reading α) : Except ParseError α × Cursor :=
  (r.outcome, c.before r.rest)

variable {c : Cursor} {taken rest : Text}

theorem unread_suffix (c : Cursor) : c.unread <:+ c.text := List.drop_suffix _ _

theorem valid_before (c : Cursor) (rest : Text) : (c.before rest).Valid := Nat.sub_le _ _

/-- What is unread of the text is what the cursor stands before. -/
theorem unread_before (h : rest <:+ c.text) : (c.before rest).unread = rest :=
  (List.suffix_iff_eq_drop.1 h).symm

/-- The cursor passes what is taken off the front of the unread text. -/
theorem forward_eq_before (valid : c.Valid) (split : c.unread = taken ++ rest) :
    c.forward taken.length = c.before rest := by
  have whole := congrArg List.length split
  rw [unread, List.length_drop, List.length_append] at whole
  have stands : c.position + taken.length = GdbMi.position c.text rest := by
    rw [Valid] at valid
    rw [GdbMi.position]
    omega
  rw [forward, before, stands]

theorem before_unread (valid : c.Valid) : c.before c.unread = c := by
  have nothing : c.unread = [] ++ c.unread := rfl
  exact (forward_eq_before valid nothing).symm

/-- A reading that takes nothing leaves the cursor where it is. -/
theorem ended_of_rest_eq {α : Type} {r : Reading α} (valid : c.Valid) (same : r.rest = c.unread) :
    c.ended r = (r.outcome, c) := by
  rw [ended, same, before_unread valid]

theorem glyph?_eq_head? (c : Cursor) : c.glyph? = c.unread.head? := by
  rw [glyph?, unread, List.head?_drop]

/-- The cursor passes spacing glyph by glyph, up to the unread text without its spacing. -/
theorem behindSpacing_eq (valid : c.Valid) :
    c.behindSpacing = c.before (GdbMi.skipSpacing c.unread) := by
  fun_induction behindSpacing c with
  | case1 c lt spacing ih =>
    have cons : c.unread = c.text[c.position] :: (c.forward 1).unread :=
      List.drop_eq_getElem_cons lt
    rw [ih lt, cons, skipSpacing_cons_of_spacing spacing]
    rfl
  | case2 c lt other =>
    have cons : c.unread = c.text[c.position] :: (c.forward 1).unread :=
      List.drop_eq_getElem_cons lt
    have skip := skipSpacing_cons_of_not_spacing (eq_false_of_ne_true other) (c.forward 1).unread
    rw [cons, skip, ← cons, before_unread valid]
  | case3 c done =>
    have none : c.unread = [] := List.drop_eq_nil_of_le (Nat.le_of_not_lt done)
    have same := before_unread valid
    rw [none] at same ⊢
    exact same.symm

end Cursor

/-! ## What is done with a cursor -/

/-- Goes on where a reading succeeded. -/
def Reading.goOn {α β : Type} (r : Option (Reading α)) (next : α → Text → Option (Reading β)) :
    Option (Reading β) :=
  match r with
  | none => none
  | some (.ok a rest) => next a rest
  | some (.fail e rest) => some (.fail e rest)

/-- The reading with another error. -/
def Reading.failingWith {α : Type} (e : ParseError) : Reading α → Reading α
  | .ok a rest => .ok a rest
  | .fail _ rest => .fail e rest

theorem Reading.rest_failingWith {α : Type} (e : ParseError) (r : Reading α) :
    (r.failingWith e).rest = r.rest := by
  cases r <;> rfl

namespace CursorM

variable {α β : Type}

theorem on_bind (m : CursorM α) (next : α → CursorM β) (c : Cursor) :
    (m >>= next).on c = match m.on c with
      | none => none
      | some (.ok a, c) => (next a).on c
      | some (.error e, c) => some (.error e, c) := by
  change Option.bind (m.on c) _ = _
  cases m.on c with
  | none => rfl
  | some r =>
    obtain ⟨outcome, c⟩ := r
    cases outcome <;> rfl

theorem on_get_bind (next : Cursor → CursorM α) (c : Cursor) : (get >>= next).on c = (next c).on c :=
  rfl

/-- What is done with the cursor is a reading of the unread text, and leaves the cursor where the
reading leaves off. -/
structure Reads (m : CursorM α) (read : Text → Option (Reading α)) : Prop where
  suffix : ∀ t r, read t = some r → r.rest <:+ t
  on_eq : ∀ c : Cursor, c.Valid → m.on c = (read c.unread).map c.ended

namespace Reads

variable {m : CursorM α} {read : Text → Option (Reading α)}

theorem congr {read' : Text → Option (Reading α)} (h : m.Reads read)
    (same : ∀ t, read t = read' t) : m.Reads read' := by
  rwa [← funext same]

/-- What leaves the cursor where it is, and depends on the unread text only. -/
theorem of_stays {read : Text → Reading α} (stays : ∀ t, (read t).rest = t)
    (same : ∀ c : Cursor, m.on c = some ((read c.unread).outcome, c)) :
    m.Reads fun t => some (read t) where
  suffix t r ended := by
    cases ended
    rw [stays]
  on_eq c valid := by
    rw [same, Option.map_some, Cursor.ended_of_rest_eq valid (stays c.unread)]

theorem pure (a : α) : Reads (Pure.pure a) fun t => some (.ok a t) :=
  of_stays (fun _ => rfl) fun _ => rfl

theorem throw (e : ParseError) : Reads (α := α) (MonadExcept.throw e) fun t => some (.fail e t) :=
  of_stays (fun _ => rfl) fun _ => rfl

/-- One after the other. -/
theorem bind {next : α → CursorM β} {next' : α → Text → Option (Reading β)} (h : m.Reads read)
    (step : ∀ a, (next a).Reads (next' a)) :
    (m >>= next).Reads fun t => Reading.goOn (read t) next' where
  suffix t r ended := by
    cases first : read t with
    | none =>
      rw [first] at ended
      cases ended
    | some r₁ =>
      have suffix := h.suffix t r₁ first
      rw [first] at ended
      cases r₁ with
      | ok a rest => exact ((step a).suffix rest r ended).trans suffix
      | fail e rest =>
        cases ended
        exact suffix
  on_eq c valid := by
    rw [on_bind, h.on_eq c valid]
    cases first : read c.unread with
    | none => rfl
    | some r₁ =>
      cases r₁ with
      | fail e rest => rfl
      | ok a rest =>
        have suffix : rest <:+ c.text := (h.suffix _ _ first).trans c.unread_suffix
        have second := (step a).on_eq (c.before rest) (c.valid_before rest)
        rw [Cursor.unread_before suffix] at second
        exact second

/-- One after the other, both of which end. -/
theorem andThen {first : Text → Reading α} {next : α → CursorM β} {next' : α → Text → Reading β}
    (h : m.Reads fun t => some (first t)) (step : ∀ a, (next a).Reads fun t => some (next' a t)) :
    (m >>= next).Reads fun t => some ((first t).andThen next') := by
  refine (h.bind step).congr fun t => ?_
  cases first t <;> rfl

/-- With another result. -/
theorem map {read : Text → Reading α} (h : m.Reads fun t => some (read t)) (f : α → β) :
    (m >>= fun a => Pure.pure (f a)).Reads fun t => some ((read t).map f) := by
  refine (h.andThen fun a => pure (f a)).congr fun t => ?_
  cases read t <;> rfl

/-- What depends on a condition. -/
theorem ite {p : Prop} [Decidable p] {m' : CursorM α} {read' : Text → Option (Reading α)}
    (h : m.Reads read) (h' : m'.Reads read') :
    (if p then m else m').Reads fun t => if p then read t else read' t := by
  by_cases hp : p
  · simpa only [if_pos hp] using h
  · simpa only [if_neg hp] using h'

/-- With another error. -/
theorem rethrow {read : Text → Reading α} (h : m.Reads fun t => some (read t)) (e : ParseError) :
    (tryCatch m fun _ => MonadExcept.throw e).Reads fun t => some ((read t).failingWith e) where
  suffix t r ended := by
    cases ended
    rw [Reading.rest_failingWith]
    exact h.suffix t _ rfl
  on_eq c valid := by
    have tried : (tryCatch m fun _ => MonadExcept.throw e).on c = match m.on c with
        | none => none
        | some (.ok a, c) => some (.ok a, c)
        | some (.error _, c) => some (.error e, c) := by
      change Option.bind (m.on c) _ = _
      cases m.on c with
      | none => rfl
      | some r =>
        obtain ⟨outcome, c⟩ := r
        cases outcome <;> rfl
    rw [tried, h.on_eq c valid]
    cases read c.unread <;> rfl

end Reads

end CursorM

/-! ## What a cursor offers -/

namespace Cursor

/-- The first glyph of the text, which stays unread. -/
def lookAt : Text → Reading Glyph
  | [] => .fail (.ended "more input") []
  | g :: t => .ok g (g :: t)

/-- The first glyph of the text. -/
def readAt : Text → Reading Glyph
  | [] => .fail (.ended "more input") []
  | g :: t => .ok g t

/-- Nothing, at the end of the text. -/
def endAt : Text → Reading Unit
  | [] => .ok () []
  | t => .fail (.trailing t) t

theorem on_remaining_bind {α : Type} (next : Text → CursorM α) (c : Cursor) :
    (remaining >>= next).on c = (next c.unread).on c := rfl

theorem reads_remaining : remaining.Reads fun t => some (.ok t t) :=
  .of_stays (fun _ => rfl) fun _ => rfl

theorem reads_hasRemaining : hasRemaining.Reads fun t => some (.ok (!t.isEmpty) t) := by
  refine .of_stays (fun _ => rfl) fun c => ?_
  have none : c.unread = [] ↔ ¬ c.position < c.text.length := by
    rw [unread, List.drop_eq_nil_iff, Nat.not_lt]
  have left : (!c.unread.isEmpty) = decide (c.position < c.text.length) := by
    by_cases lt : c.position < c.text.length <;> simp [List.isEmpty_iff, none, lt]
  rw [left]
  rfl

theorem reads_skipIf (skipping : Bool) :
    (skipIf skipping).Reads fun t => some (.ok () (GdbMi.skipIf skipping t)) := by
  cases skipping with
  | false => exact .pure ()
  | true =>
    refine ⟨fun t r ended => ?_, fun c valid => ?_⟩
    · cases ended
      exact skipSpacing_suffix t
    · exact congrArg (fun c => some (Except.ok (), c)) (behindSpacing_eq valid)

theorem rest_lookAt (t : Text) : (lookAt t).rest = t := by cases t <;> rfl

theorem reads_look : look.Reads fun t => some (lookAt t) := by
  refine .of_stays rest_lookAt fun c => ?_
  rw [look, CursorM.on_get_bind, glyph?_eq_head?]
  cases c.unread <;> rfl

theorem reads_next : next.Reads fun t => some (readAt t) where
  suffix t r ended := by
    cases ended
    cases t with
    | nil => exact List.suffix_refl _
    | cons g t => exact List.suffix_cons g t
  on_eq c valid := by
    have stays := before_unread valid
    rw [next, CursorM.on_bind, reads_look.on_eq c valid, Option.map_some,
      ended_of_rest_eq valid (rest_lookAt c.unread)]
    cases left : c.unread with
    | nil =>
      rw [left] at stays
      exact congrArg (fun c => some (Except.error _, c)) stays.symm
    | cons g t =>
      have passed : c.forward [g].length = c.before t := forward_eq_before valid left
      exact congrArg (fun c => some (Except.ok g, c)) passed

theorem reads_lexeme (k : Token) : (lexeme k).Reads fun t => some (k.read t) where
  suffix t r ended := by
    cases ended
    exact k.rest_read_suffix t
  on_eq c valid := by
    rw [lexeme, on_remaining_bind, Token.read]
    cases found : k.match? c.unread with
    | none =>
      rw [Option.map_some, ended_of_rest_eq valid rfl]
      rfl
    | some taken =>
      obtain ⟨lexeme, rest⟩ := taken
      have passed := forward_eq_before valid (Token.append_of_match? found).1.symm
      exact congrArg (fun c => some (Except.ok lexeme, c)) passed

theorem reads_peek (skipping : Bool) :
    (peek skipping).Reads fun t => some (lookAt (GdbMi.skipIf skipping t)) :=
  (reads_skipIf skipping).andThen fun _ => reads_look

theorem reads_token (k : Token) (skipping : Bool) :
    (token k skipping).Reads fun t => some (k.read (GdbMi.skipIf skipping t)) :=
  (reads_skipIf skipping).andThen fun _ => reads_lexeme k

theorem reads_checkEnd (skipping : Bool) :
    (checkEnd skipping).Reads fun t => some (endAt (GdbMi.skipIf skipping t)) := by
  refine ((reads_skipIf skipping).bind fun _ => reads_hasRemaining.bind fun left =>
    (reads_remaining.bind fun rest => .throw (.trailing rest)).ite (.pure ())).congr fun t => ?_
  cases h : GdbMi.skipIf skipping t <;> simp [Reading.goOn, endAt]

end Cursor

end GdbMi
