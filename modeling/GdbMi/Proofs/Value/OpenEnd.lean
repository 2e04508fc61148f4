import Mathlib.Data.List.DropRight
import GdbMi.Proofs.Value.Ending
import GdbMi.Proofs.Value.Respaced

/-!
# Lists that the end of the text closes

A bracket that closes a list at the end of a text does what the end of the text does without it
(`Step.EndsAs`): the list takes what is open in it and is handed on. What stands before the bracket
makes one exception, a glyph after which more is due: a comma, an equals sign, or spacing.

Read from left to right this lets closing brackets be added. Fields in brackets are read as those
fields, although the bracket behind them goes to the innermost list that is open there, and the end
of the text closes the others (`same_fields_in_brackets`). Read from right to left it lets closing
brackets be left out, as many as stand at the end of a canonical text
(`same_value_without_closers`).
-/

namespace GdbMi
set_option autoImplicit false

/-- More is due after the glyph, unless it stands in a literal. -/
def Glyph.PromisesMore (g : Glyph) : Prop := g.isSpacing = true ∨ g = ',' ∨ g = '='

namespace Reader

/-! ## A closing bracket and the end of the text -/

/-- The step of a closing bracket makes of the text what the end of the text would make of it,
which is given. -/
def Step.EndsAs (st : Step) (ended : Except ParseError Value) : Prop :=
  match st with
  | .go s => s.atEnd = ended
  | .stop v => ended = .ok v
  | .mismatch _ => ∃ e, ended = .error e
  | .refuse _ => ∃ e, ended = .error e

theorem endsAs_close (fence : Fence) (held : List (Key × Value)) (around : List Frame) :
    (close ']' fence held around).EndsAs (State.entries false fence held around).atEnd := by
  fun_induction close ']' fence held around with
  | case1 held around h => cases h
  | case2 held around h => exact ⟨_, rfl⟩
  | case3 fence held hf =>
    have notBraces : fence ≠ .braces := by simpa using hf
    simp [Step.EndsAs, State.atEnd, Fence.atEnd, notBraces, finish]
  | case4 fence held items around hf h =>
    have notBraces : fence ≠ .braces := by simpa using hf
    rw [Step.EndsAs, ← finish_eq_atEnd_deliver]
    simp [State.atEnd, Fence.atEnd, notBraces, finish]
  | case5 fence held items around hf h => exact absurd rfl h
  | case6 fence held outer entries key around hf ih =>
    have notBraces : fence ≠ .braces := by simpa using hf
    have same : (State.entries false fence held (.field outer entries key :: around)).atEnd
        = (State.entries false outer ((key, fence.fields held) :: entries) around).atEnd := by
      simp [State.atEnd, Fence.atEnd, notBraces, finish]
    rwa [same]

/-- Unless more is due than a closing bracket, it does what the end of the text does. -/
theorem endsAs_step {s : State} (h : s.atEnd ≠ .error exhausted) :
    (s.step ']').EndsAs s.atEnd := by
  cases s with
  | value around => exact absurd rfl h
  | entry fence held around => exact absurd rfl h
  | items spaced held around =>
    cases spaced with
    | true => exact absurd rfl h
    | false => exact (finish_eq_atEnd_deliver (ofItems held.reverse) around).symm
  | entries spaced fence held around =>
    cases spaced with
    | true => exact absurd rfl h
    | false => exact endsAs_close fence held around
  | identifier fence held name around => exact ⟨_, rfl⟩
  | equals fence held name around => exact ⟨_, rfl⟩
  | literal scan around =>
    -- the bracket is part of the literal, or refused there, and the literal stays open
    obtain ⟨bytes, place⟩ := scan
    cases place with
    | plain => rfl
    | afterBackslash => exact ⟨_, rfl⟩
    | octal₂ d₁ => exact ⟨_, rfl⟩
    | octal₃ d₁ d₂ => exact ⟨_, rfl⟩
  | done v => rfl

/-- A text that is read to its end goes on after its first glyph. -/
theorem exists_step_of_run {s : State} {g : Glyph} {t : Text} {v : Value}
    (h : run s (g :: t) = .ok v []) : ∃ s', s.step g = .go s' ∧ run s' t = .ok v [] :=
  (run_cons_eq_ok_iff.1 h).resolve_right nofun

/-! ## One bracket more -/

/-- Where a value ends with the text, a closing bracket behind it is read as part of the value or
left behind the value. -/
theorem run_append_bracket {s : State} {t : Text} {v : Value} (h : run s t = .ok v []) :
    run s (t ++ [Glyph.char ']']) = .ok v [] ∨
      run s (t ++ [Glyph.char ']']) = .ok v [Glyph.char ']'] := by
  induction t generalizing s with
  | nil =>
    have ended := (run_nil_eq_ok_iff.1 h).1
    have same := endsAs_step (s := s) (by simp [ended])
    rw [List.nil_append, run]
    cases step : s.step ']' with
    | go s' =>
      rw [step, Step.EndsAs, ended] at same
      exact .inl (run_nil_eq_ok_iff.2 ⟨same, rfl⟩)
    | stop w =>
      rw [step, Step.EndsAs, ended] at same
      cases same
      exact .inr rfl
    | mismatch due | refuse e =>
      rw [step, Step.EndsAs, ended] at same
      obtain ⟨e', eq⟩ := same
      cases eq
  | cons g t ih =>
    obtain ⟨s', step, ran⟩ := exists_step_of_run h
    simp only [List.cons_append, run, step]
    exact ih ran

/-! ## Brackets left out -/

/-- After the step the text may end, as far as nothing is promised. -/
def Step.MayEnd (st : Step) : Prop :=
  match st with
  | .go s => s.atEnd ≠ .error exhausted
  | _ => True

theorem finish_ne_exhausted (v : Value) (around : List Frame) :
    finish v around ≠ .error exhausted := by
  fun_induction finish v around with
  | case1 v =>
    intro same
    cases same
  | case2 v held around ih => exact ih
  | case3 v fence held key around w ended ih => exact ih
  | case4 v fence held key around e ended =>
    unfold Fence.atEnd at ended
    intro same
    cases same
    split at ended <;> cases ended

theorem mayEnd_deliver (v : Value) (around : List Frame) :
    (Step.go (deliver v around)).MayEnd := by
  rw [Step.MayEnd, ← finish_eq_atEnd_deliver]
  exact finish_ne_exhausted v around

theorem mayEnd_openMap (around : List Frame) : (Step.go (State.openMap around)).MayEnd := by
  simp [Step.MayEnd, State.openMap, State.atEnd, Fence.atEnd, missing, exhausted]

theorem mayEnd_literal (scan : Literal.Scan) (around : List Frame) :
    (Step.go (.literal scan around)).MayEnd := by
  simp [Step.MayEnd, State.atEnd, Literal.unclosed, exhausted]

theorem mayEnd_close (g : Glyph) (fence : Fence) (held : List (Key × Value))
    (around : List Frame) : (close g fence held around).MayEnd := by
  fun_induction close g fence held around with
  | case1 held around h => exact mayEnd_deliver _ around
  | case2 held around h => trivial
  | case3 fence held hf => trivial
  | case4 fence held items around hf h => exact mayEnd_deliver _ around
  | case5 fence held items around hf h => trivial
  | case6 fence held outer entries key around hf ih => exact ih

section
variable {g : Glyph} (hg : ¬ g.PromisesMore) (fence : Fence) (held : List (Key × Value))
  (around : List Frame)
include hg

theorem mayEnd_stepEquals (name : String) :
    (State.stepEquals fence held name around g).MayEnd := by
  unfold State.stepEquals
  split
  · next spacing => exact absurd (.inl spacing) hg
  split
  · next sign => exact absurd (.inr (.inr sign)) hg
  · trivial

theorem mayEnd_stepEntry : (State.stepEntry fence held around g).MayEnd := by
  unfold State.stepEntry
  split
  · next spacing => exact absurd (.inl spacing) hg
  split
  · exact mayEnd_openMap _
  split
  · exact mayEnd_literal {} _
  cases g with
  | char c =>
    dsimp only
    split
    · intro same
      cases same
    · trivial
  | stray b => trivial

theorem mayEnd_stepEntries : (State.stepEntries fence held around g).MayEnd := by
  unfold State.stepEntries
  split
  · next spacing => exact absurd (.inl spacing) hg
  split
  · exact mayEnd_close g fence held around
  split
  · next comma => exact absurd (.inr (.inl comma)) hg
  · exact mayEnd_stepEntry hg fence held around

theorem mayEnd_stepValue : (State.stepValue around g).MayEnd := by
  unfold State.stepValue
  split
  · next spacing => exact absurd (.inl spacing) hg
  split
  · exact mayEnd_literal {} around
  split
  · exact finish_ne_exhausted (ofItems []) around
  split
  · exact mayEnd_openMap around
  · exact mayEnd_stepEntries hg .bare [] around

theorem mayEnd_stepItems (items : List Value) : (State.stepItems items around g).MayEnd := by
  unfold State.stepItems
  split
  · next spacing => exact absurd (.inl spacing) hg
  split
  · exact mayEnd_deliver _ around
  split
  · trivial
  split
  · next comma => exact absurd (.inr (.inl comma)) hg
  · exact mayEnd_stepValue hg (.list items :: around)

theorem mayEnd_stepIdentifier (name : List Char) :
    (State.stepIdentifier fence held name around g).MayEnd := by
  have after := mayEnd_stepEquals hg fence held around (String.ofList name.reverse)
  cases g with
  | char c =>
    simp only [State.stepIdentifier]
    split
    · intro same
      cases same
    · exact after
  | stray b => exact after

omit hg in
theorem mayEnd_stepLiteral (scan : Literal.Scan) : (State.stepLiteral scan around g).MayEnd := by
  unfold State.stepLiteral
  split
  · exact mayEnd_literal _ around
  · exact mayEnd_deliver _ around
  · trivial

end

/-- Unless it promises more, a glyph leaves the text where it may end. -/
theorem mayEnd_step (s : State) {g : Glyph} (hg : ¬ g.PromisesMore) : (s.step g).MayEnd := by
  cases s with
  | value around => exact mayEnd_stepValue hg around
  | items spaced held around => exact mayEnd_stepItems hg around held
  | entries spaced fence held around => exact mayEnd_stepEntries hg fence held around
  | entry fence held around => exact mayEnd_stepEntry hg fence held around
  | identifier fence held name around => exact mayEnd_stepIdentifier hg fence held around name
  | equals fence held name around => exact mayEnd_stepEquals hg fence held around name
  | literal scan around => exact mayEnd_stepLiteral around scan
  | done v => trivial

theorem not_promisesMore_bracket : ¬ (Glyph.char ']').PromisesMore := by
  rintro (h | h | h) <;> cases h

/-- Closing brackets that end the text have done what the end of the text does without them. -/
theorem atEnd_of_run_brackets {s : State} (h : s.atEnd ≠ .error exhausted) {n : Nat} {v : Value}
    (ran : run s (List.replicate n (Glyph.char ']')) = .ok v []) : s.atEnd = .ok v := by
  induction n generalizing s with
  | zero => exact (run_nil_eq_ok_iff.1 ran).1
  | succ n ih =>
    obtain ⟨s', step, ran'⟩ := exists_step_of_run ran
    have mayEnd := mayEnd_step s not_promisesMore_bracket
    have same := endsAs_step h
    rw [step] at mayEnd same
    exact same.symm.trans (ih mayEnd ran')

/-- Closing brackets at the end of the text may be left out behind a glyph that does not promise
more. -/
theorem run_of_run_brackets {s : State} {u : Text} {g : Glyph} (hg : ¬ g.PromisesMore) {n : Nat}
    {v : Value} (h : run s (u ++ g :: List.replicate n (Glyph.char ']')) = .ok v []) :
    run s (u ++ [g]) = .ok v [] := by
  induction u generalizing s with
  | nil =>
    obtain ⟨s', step, ran⟩ := exists_step_of_run h
    have mayEnd := mayEnd_step s hg
    rw [step] at mayEnd
    simp only [List.nil_append, run, step]
    exact run_nil_eq_ok_iff.2 ⟨atEnd_of_run_brackets mayEnd ran, rfl⟩
  | cons x u ih =>
    obtain ⟨s', step, ran⟩ := exists_step_of_run h
    simp only [List.cons_append, run, step]
    exact ih ran

end Reader

open Reader

/-! ## Canonical text -/

/-- The text ends in closing brackets, if any, behind a glyph that ends a literal or a map or opens
a list. -/
def EndsClosed (s : Text) : Prop :=
  ∃ u g n, s = u ++ g :: List.replicate n (Glyph.char ']') ∧ (g = '"' ∨ g = '[' ∨ g = '\x7d')

theorem EndsClosed.prepend {s : Text} (h : EndsClosed s) (w : Text) : EndsClosed (w ++ s) := by
  obtain ⟨u, g, n, rfl, hg⟩ := h
  exact ⟨w ++ u, g, n, by rw [List.append_assoc], hg⟩

theorem EndsClosed.bracket {s : Text} (h : EndsClosed s) : EndsClosed (s ++ [Glyph.char ']']) := by
  obtain ⟨u, g, n, rfl, hg⟩ := h
  refine ⟨u, g, n + 1, ?_, hg⟩
  rw [List.replicate_succ', List.append_assoc, List.cons_append]

theorem endsClosed_quote (t : Text) : EndsClosed (Literal.quote t) :=
  ⟨Glyph.char '"' :: Literal.spellAll t.bytes, _, 0, rfl, .inl rfl⟩

theorem endsClosed_separated {part : Text} {parts : List Text}
    (h : ∀ p ∈ part :: parts, EndsClosed p) : EndsClosed (separated (part :: parts)) := by
  induction parts generalizing part with
  | nil =>
    rw [separated_singleton]
    exact h part List.mem_cons_self
  | cons next parts ih =>
    rw [separated_cons_cons]
    have rest := ih (List.forall_mem_cons.1 h).2
    exact (rest.prepend [Glyph.char ',']).prepend part

theorem endsClosed_entryText (key : Key) {s : Text} (h : EndsClosed s) :
    EndsClosed (entryText key s) := by
  cases key with
  | bare | unnamed => exact h
  | named name => exact (h.prepend [Glyph.char '=']).prepend (Text.ofString name)

theorem endsClosed_brackets {parts : List Text} (h : ∀ part ∈ parts, EndsClosed part) :
    EndsClosed (enclosedIn '[' ']' parts) := by
  cases parts with
  | nil => exact ⟨[], Glyph.char '[', 1, rfl, .inr (.inl rfl)⟩
  | cons part parts => exact (endsClosed_separated h).bracket.prepend [Glyph.char '[']

/-- The canonical text of a value ends in a literal or a map, or in what closes lists. -/
theorem Value.endsClosed_of_render {v : Value} (h : v.Shaped) :
    ∀ s, v.render = .ok s → EndsClosed s := by
  refine h.render_induction ?_ ?_ ?_ ?_
  · exact fun x => endsClosed_quote (Text.ofString x)
  · exact fun key v s takes hs => endsClosed_entryText key hs
  · exact fun parts each => endsClosed_brackets each
  · exact fun parts _ => ⟨Glyph.char '\x7b' :: separated parts, _, 0, rfl, .inr (.inr rfl)⟩

/-- So does the canonical text of a field list at the top, unless it is empty. -/
theorem FieldList.endsClosed_of_render {f : FieldList} (h : f.toValue.Shaped) {s : Text}
    (hs : f.render = .ok s) : s = [] ∨ EndsClosed s := by
  obtain ⟨parts, hp, rfl⟩ := FieldList.render_eq_ok_iff.1 hs
  cases parts with
  | nil => exact .inl rfl
  | cons part parts =>
    refine .inr (endsClosed_separated fun p hpart => ?_)
    obtain ⟨e, he, x, hx, rfl⟩ := Value.exists_of_mem_renderEntries hp p hpart
    have shaped := (Value.shaped_fields_iff.1 h e he).2
    exact endsClosed_entryText e.1 (Value.endsClosed_of_render shaped x hx)

/-- How many closing brackets the text ends in. -/
def closers (s : Text) : Nat := (s.rtakeWhile fun g => g = Glyph.char ']').length

theorem closers_append {u : Text} {g : Glyph} (hg : g ≠ ']') (n : Nat) :
    closers (u ++ g :: List.replicate n (Glyph.char ']')) = n := by
  have run : ∀ x ∈ List.replicate n (Glyph.char ']'), decide (x = Glyph.char ']') = true := by
    intro x hx
    simp [List.eq_of_mem_replicate hx]
  have other : ∀ x ∈ (g :: u.reverse).head?, decide (x = Glyph.char ']') = false := by
    rintro x ⟨⟩
    simpa using hg
  rw [closers, List.rtakeWhile, List.length_reverse, List.reverse_append, List.reverse_cons,
    List.reverse_replicate, List.append_assoc, List.singleton_append, (span_append run other).1,
    List.length_replicate]

/-- Without its last closing brackets the text still ends in a glyph that promises nothing. -/
theorem EndsClosed.without {s : Text} (h : EndsClosed s) {n : Nat} (hn : n ≤ closers s) :
    ∃ u g, s.rdrop n = u ++ [g] ∧ s = u ++ g :: List.replicate n (Glyph.char ']') ∧
      ¬ g.PromisesMore := by
  obtain ⟨u, g, k, rfl, hg⟩ := h
  rw [closers_append (by rcases hg with rfl | rfl | rfl <;> decide)] at hn
  obtain ⟨m, rfl⟩ := Nat.exists_eq_add_of_le' hn
  have dropped (w : Text) (x : Glyph) :
      (w ++ x :: List.replicate n (Glyph.char ']')).rdrop n = w ++ [x] := by
    have regrouped : w ++ x :: List.replicate n (Glyph.char ']')
        = (w ++ [x]) ++ List.replicate n (Glyph.char ']') := by simp
    rw [regrouped, List.rdrop]
    exact List.take_left' (by simp only [List.length_append, List.length_replicate]; omega)
  cases m with
  | zero =>
    rw [Nat.zero_add]
    refine ⟨u, g, dropped u g, rfl, ?_⟩
    rintro (h | h | h) <;> rcases hg with rfl | rfl | rfl <;> cases h
  | succ m =>
    -- the last glyph is one of the brackets that stay
    have regrouped : u ++ g :: List.replicate (m + 1 + n) (Glyph.char ']')
        = (u ++ g :: List.replicate m (Glyph.char ']'))
          ++ Glyph.char ']' :: List.replicate n (Glyph.char ']') := by
      rw [Nat.add_assoc, List.replicate_add, Nat.add_comm 1 n, List.replicate_succ]
      simp
    rw [regrouped]
    exact ⟨_, _, dropped _ _, rfl, not_promisesMore_bracket⟩

/-- What is read to the end of such a text is read without its last closing brackets too. -/
theorem EndsClosed.run_rdrop {s : Text} (h : EndsClosed s) {n : Nat} (hn : n ≤ closers s)
    {state : State} {v : Value} (ran : run state s = .ok v []) :
    run state (s.rdrop n) = .ok v [] := by
  obtain ⟨u, g, left, text, hg⟩ := h.without hn
  rw [text] at ran
  rw [left]
  exact run_of_run_brackets hg ran

/-! ## Main statements -/

/-- **Fields in brackets.** If a text is read as fields that start with an identifier, the text in
brackets is read as the same fields, also where the bracket behind it closes a list inside them. -/
theorem same_fields_in_brackets {t : Text} {f : FieldList} {name : String} {v : Value}
    {entries : List (Key × Value)} (h : FieldList.parse t = .ok f)
    (first : f.entries = (.named name, v) :: entries) :
    Value.parse (Glyph.char '[' :: (t ++ [Glyph.char ']'])) = .ok f.toValue := by
  obtain ⟨bare, ran⟩ := FieldList.parse_eq_ok_iff_run.1 h
  obtain ⟨r, read, ended⟩ : ∃ r,
      run (.entries false .bare [] []) (t ++ [Glyph.char ']']) = .ok f.toValue r ∧
        Derives (.items []) r [] := by
    rcases run_append_bracket ran with inside | behind
    · exact ⟨[], inside, .itemsEnded⟩
    · exact ⟨_, behind, .itemsClosed rfl⟩
  obtain ⟨held, eq, fields⟩ := derives_of_run_entries (by decide) read
  have value : f.toValue = .fields false ((.named name, v) :: entries) := by
    rw [FieldList.toValue, bare, first]
  rw [value] at eq ⊢
  cases eq
  exact Value.parse_eq_ok_iff.2 ⟨[], .unwrapped rfl (fields.only_item ended), rfl⟩

/-- The bracket behind the text closes the list `b`; the list `a` ends with the text. -/
theorem same_fields_in_brackets_open :
    Value.parse (Text.ofString "[,x=\"1\",a=[\"2\",[b=[]") = .ok (.fields false
      [(.named "x", .text "1"),
       (.named "a", .list [.text "2", .fields false [(.named "b", .list [])]])]) :=
  same_fields_in_brackets (t := Text.ofString ",x=\"1\",a=[\"2\",[b=[")
    (f := { entries := [(.named "x", .text "1"),
      (.named "a", .list [.text "2", .fields false [(.named "b", .list [])]])] }) rfl rfl

/-- **Closing brackets at the end of a text are optional.** The canonical text of a value that was
read is read as the same value without its last closing brackets, however many of them are left out,
and so are the fields of a field list. -/
theorem same_value_without_closers (c : Command) (t r : Text) (v : Value)
    (h : c.run t = .ok (.value v) r) :
    (∀ s, v.render = .ok s →
      ∃ w, Value.parse s = .ok w ∧ ∀ n ≤ closers s, Value.parse (s.rdrop n) = .ok w) ∧
      ∀ f s, v.toFieldList? = some f → f.render = .ok s →
        ∃ g, FieldList.parse s = .ok g ∧
          ∀ n ≤ closers s, FieldList.parse (s.rdrop n) = .ok g := by
  have shaped := c.shaped_of_run h
  constructor
  · intro s hs
    refine ⟨v.normal, shaped.parse_render hs, fun n hn => ?_⟩
    have ran := shaped.read_render hs []
    rw [List.append_nil] at ran
    have dropped := (Value.endsClosed_of_render shaped s hs).run_rdrop hn ran
    exact Reading.whole_eq_ok_iff.2 ⟨[], dropped, rfl⟩
  · intro f s hf hs
    obtain rfl : v = f.toValue := by
      cases v with
      | text | list => cases hf
      | fields => cases hf; rfl
    -- between braces or not, the fields have the same text
    let g : FieldList := { f with enclosed := false }
    have shaped' : g.toValue.Shaped := Value.shaped_fields_iff.2 (Value.shaped_fields_iff.1 shaped)
    have parsed : FieldList.parse s = .ok g.normal := FieldList.parse_render rfl shaped' hs
    refine ⟨g.normal, parsed, fun n hn => ?_⟩
    rcases FieldList.endsClosed_of_render shaped' hs with rfl | closed
    · rwa [List.rdrop_nil]
    · obtain ⟨bare, ran⟩ := FieldList.parse_eq_ok_iff_run.1 parsed
      exact FieldList.parse_eq_ok_iff_run.2 ⟨bare, closed.run_rdrop hn ran⟩

/-- Lists in lists, an empty one among them, without any of their closing brackets. -/
theorem same_value_without_closers_nested :
    Value.parse (Text.ofString "[a=[\"x\",[b=[") = .ok (.fields false
        [(.named "a", .list [.text "x", .fields false [(.named "b", .list [])]])]) ∧
      FieldList.parse (Text.ofString "a=[\"x\",[b=[") = .ok { entries :=
        [(.named "a", .list [.text "x", .fields false [(.named "b", .list [])]])] } := by
  have read : Command.run .value (Text.ofString "[a=[\"x\",[b=[]]]]") = .ok (.value (.fields false
      [(.named "a", .list [.text "x", .fields false [(.named "b", .list [])]])])) [] := rfl
  obtain ⟨values, fields⟩ := same_value_without_closers .value _ _ _ read
  obtain ⟨w, whole, without⟩ := values (Text.ofString "[a=[\"x\",[b=[]]]]") rfl
  obtain ⟨g, top, without'⟩ := fields _ (Text.ofString "a=[\"x\",[b=[]]]") rfl rfl
  cases whole
  cases top
  exact ⟨without 4 (by decide), without' 3 (by decide)⟩

end GdbMi
