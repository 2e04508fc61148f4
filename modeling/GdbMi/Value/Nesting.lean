import GdbMi.Value.Reader

/-!
# Reading inside aggregates

What stands around a value does not change how the value is read. `State.within` puts frames around
the outermost one of a state. Main statement: a run inside more frames is the run without them,
after which its value is handed to them and reading goes on (`run_within`). With no frames at all
this gives each production of the grammar as an equation between runs.
-/

namespace GdbMi.Reader
set_option autoImplicit false

/-- The state with more frames around the outermost one. -/
def State.within (s : State) (outer : List Frame) : State :=
  match s with
  | .value around => .value (around ++ outer)
  | .items spaced held around => .items spaced held (around ++ outer)
  | .entries spaced fence held around => .entries spaced fence held (around ++ outer)
  | .entry fence held around => .entry fence held (around ++ outer)
  | .identifier fence held name around => .identifier fence held name (around ++ outer)
  | .equals fence held name around => .equals fence held name (around ++ outer)
  | .literal scan around => .literal scan (around ++ outer)
  | .done v => deliver v outer

/-- The step with more frames around, where `g` is the glyph read. -/
def Step.within (st : Step) (outer : List Frame) (g : Glyph) : Step :=
  match st with
  | .go s => .go (s.within outer)
  | .stop v => (deliver v outer).step g
  | st => st

theorem within_deliver (v : Value) (around outer : List Frame) :
    (deliver v around).within outer = deliver v (around ++ outer) := by
  cases around with
  | nil => rfl
  | cons f around => cases f <;> rfl

/-- Fields that a bracket or brace ends are handed on and then met by it. -/
theorem step_deliver_fields {g : Glyph} (hg : g = ']' ∨ g = '\x7d') (held : List (Key × Value))
    {fence : Fence} (hf : fence ≠ .braces) (outer : List Frame) :
    (deliver (fence.fields held) outer).step g = close g fence held outer := by
  have spacing : g.isSpacing = false := by rcases hg with rfl | rfl <;> rfl
  cases outer with
  | nil => cases fence <;> first | rfl | exact absurd rfl hf
  | cons f outer =>
    cases f with
    | list items =>
      cases fence with
      | braces => exact absurd rfl hf
      | _ => rcases hg with rfl | rfl <;> rfl
    | field outerFence entries key =>
      cases fence with
      | braces => exact absurd rfl hf
      | _ => simp [deliver, State.step, State.stepEntries, spacing, hg, close]

/-- A closing bracket or brace ends the same fields, whatever stands further out. -/
theorem within_close {g : Glyph} (hg : g = ']' ∨ g = '\x7d') (fence : Fence)
    (held : List (Key × Value)) (around outer : List Frame) :
    (close g fence held around).within outer g = close g fence held (around ++ outer) := by
  fun_induction close g fence held around with
  | case1 held around h => simp [close, h, Step.within, within_deliver]
  | case2 held around h => simp [close, h, Step.within]
  | case3 fence held hf => exact step_deliver_fields hg held (by simpa using hf) outer
  | case4 fence held items around hf h =>
    cases fence with
    | braces => exact absurd rfl hf
    | _ => simp [close, Step.within, h, within_deliver]
  | case5 fence held items around hf h =>
    cases fence with
    | braces => exact absurd rfl hf
    | _ => simp [close, Step.within, h]
  | case6 fence held outerFence entries key around hf ih =>
    cases fence with
    | braces => exact absurd rfl hf
    | _ => exact ih


section
variable (fence : Fence) (held : List (Key × Value)) (around outer : List Frame) (g : Glyph)

theorem within_stepEquals (name : String) :
    (State.stepEquals fence held name around g).within outer g
      = State.stepEquals fence held name (around ++ outer) g := by
  simp only [State.stepEquals]
  split
  · rfl
  · split <;> rfl

theorem within_stepEntry :
    (State.stepEntry fence held around g).within outer g
      = State.stepEntry fence held (around ++ outer) g := by
  simp only [State.stepEntry]
  split
  · rfl
  split
  · rfl
  split
  · rfl
  cases g with
  | char c => dsimp only; split <;> rfl
  | stray b => rfl

theorem within_stepEntries :
    (State.stepEntries fence held around g).within outer g
      = State.stepEntries fence held (around ++ outer) g := by
  simp only [State.stepEntries]
  split
  · rfl
  split
  · next h => exact within_close h fence held around outer
  split
  · rfl
  exact within_stepEntry fence held around outer g

theorem within_stepValue :
    (State.stepValue around g).within outer g = State.stepValue (around ++ outer) g := by
  simp only [State.stepValue]
  split
  · rfl
  split
  · rfl
  split
  · rfl
  split
  · rfl
  exact within_stepEntries .bare [] around outer g

theorem within_stepItems (items : List Value) :
    (State.stepItems items around g).within outer g = State.stepItems items (around ++ outer) g := by
  simp only [State.stepItems]
  split
  · rfl
  split
  · simp only [Step.within, within_deliver]
  split
  · rfl
  split
  · rfl
  exact within_stepValue (.list items :: around) outer g

theorem within_stepIdentifier (name : List Char) :
    (State.stepIdentifier fence held name around g).within outer g
      = State.stepIdentifier fence held name (around ++ outer) g := by
  have after := within_stepEquals fence held around outer g (String.ofList name.reverse)
  cases g with
  | char c =>
    simp only [State.stepIdentifier]
    split
    · rfl
    · exact after
  | stray b => exact after

theorem within_stepLiteral (scan : Literal.Scan) :
    (State.stepLiteral scan around g).within outer g
      = State.stepLiteral scan (around ++ outer) g := by
  simp only [State.stepLiteral]
  split
  · rfl
  · simp only [Step.within, within_deliver]
  · rfl

end

/-- A glyph does the same inside more frames. -/
theorem within_step (s : State) (outer : List Frame) (g : Glyph) :
    (s.step g).within outer g = (s.within outer).step g := by
  cases s with
  | value around => exact within_stepValue around outer g
  | items spaced held around => exact within_stepItems around outer g held
  | entries spaced fence held around => exact within_stepEntries fence held around outer g
  | entry fence held around => exact within_stepEntry fence held around outer g
  | identifier fence held name around => exact within_stepIdentifier fence held around outer g name
  | equals fence held name around => exact within_stepEquals fence held around outer g name
  | literal scan around => exact within_stepLiteral around outer g scan
  | done v => rfl

theorem finish_eq_atEnd_deliver (v : Value) (around : List Frame) :
    finish v around = (deliver v around).atEnd := by
  cases around with
  | nil => rfl
  | cons f around => cases f <;> rfl

theorem finish_append (v : Value) (around outer : List Frame) :
    finish v (around ++ outer) = finish v around >>= fun w => (deliver w outer).atEnd := by
  fun_induction finish v around with
  | case1 v => exact finish_eq_atEnd_deliver v outer
  | case2 v held around ih => exact ih
  | case3 v fence held key around w h ih =>
    rw [List.cons_append, finish, h]
    exact ih
  | case4 v fence held key around e h =>
    rw [List.cons_append, finish, h]
    rfl

theorem atEnd_within (s : State) (outer : List Frame) :
    (s.within outer).atEnd = s.atEnd >>= fun w => (deliver w outer).atEnd := by
  cases s with
  | items spaced held around =>
    cases spaced with
    | false => exact finish_append _ around outer
    | true => rfl
  | entries spaced fence held around =>
    cases spaced with
    | false =>
      simp only [State.within, State.atEnd]
      split
      · exact finish_append _ around outer
      · rfl
    | true => rfl
  | _ => rfl

/-- What is read inside more frames is read without them first, and then handed to them. -/
theorem run_within (s : State) (outer : List Frame) (t : Text) :
    run (s.within outer) t = (run s t).andThen fun v rest => run (deliver v outer) rest := by
  induction t generalizing s with
  | nil =>
    simp only [run, atEnd_within]
    cases s.atEnd with
    | ok v => rfl
    | error e => rfl
  | cons g t ih =>
    simp only [run, ← within_step]
    cases s.step g with
    | go s => exact ih s
    | stop v => rfl
    | mismatch due => rfl
    | refuse e => rfl

/-- A literal is read by its own scan, and then handed to the frames around it. -/
theorem run_literal (scan : Literal.Scan) (around : List Frame) (t : Text) :
    run (.literal scan around) t = (Literal.scan scan t).andThen fun bytes rest =>
      run (deliver (.text (Utf8.decodeLossy bytes)) around) rest := by
  induction t generalizing scan with
  | nil => rfl
  | cons g t ih =>
    simp only [run, Literal.scan, State.step, State.stepLiteral]
    cases scan.step g with
    | go scan => exact ih scan
    | close bytes => rfl
    | refuse e => rfl

end GdbMi.Reader
