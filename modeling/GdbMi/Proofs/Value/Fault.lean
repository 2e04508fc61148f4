import GdbMi.Proofs.Grammar.Completeness
import GdbMi.Proofs.Reading.Fault

/-!
# Errors of values point at the first impossible glyph

Every state of the reader has a completion, a text that it reads to its end: it ends what is under
way and closes the frames around. So what has been read is viable as long as reading goes on. The
glyph that stops it does so whatever comes after, since a step looks at one glyph only.
-/

namespace GdbMi
set_option autoImplicit false

/-! ## Completions -/

/-- The text that ends a literal at the place. -/
def Literal.Place.completion : Literal.Place → Text
  | .plain => [Glyph.char '"']
  | .afterBackslash => [Glyph.char 'n', Glyph.char '"']
  | .octal₂ _ => [Glyph.char '0', Glyph.char '0', Glyph.char '"']
  | .octal₃ _ _ => [Glyph.char '0', Glyph.char '"']

theorem Literal.scan_completion (s : Literal.Scan) :
    ∃ bytes, ∀ r, Literal.scan s (s.place.completion ++ r) = .ok bytes r := by
  obtain ⟨bytes, place⟩ := s
  cases place with
  | plain => exact ⟨_, fun r => rfl⟩
  | afterBackslash => exact ⟨_, fun r => rfl⟩
  | octal₂ d₁ => exact ⟨_, fun r => rfl⟩
  | octal₃ d₁ d₂ => exact ⟨_, fun r => rfl⟩

namespace Reader

/-- The text that closes the frames around a value. -/
def closing : List Frame → Text
  | [] => []
  | .list _ :: around => Glyph.char ']' :: closing around
  | .field .braces _ _ :: around => Glyph.char '\x7d' :: closing around
  | .field _ _ _ :: around => closing around

theorem fieldsEnd_closing (around : List Frame) : FieldsEnd (closing around) := by
  fun_induction closing around with
  | case1 => exact .inl rfl
  | case2 items around ih => exact .inr ⟨_, _, rfl, .inl rfl⟩
  | case3 held key around ih => exact .inr ⟨_, _, rfl, .inr rfl⟩
  | case4 fence held key around hf ih => exact ih

/-- A value that is complete is completed by closing the frames around it. -/
theorem exists_run_closing (v : Value) (around : List Frame) :
    ∃ w, run (deliver v around) (closing around) = .ok w [] := by
  fun_induction closing around generalizing v with
  | case1 => exact ⟨v, run_done v []⟩
  | case2 items around ih => exact ih (ofItems (v :: items).reverse)
  | case3 held key around ih =>
    obtain ⟨w, h⟩ := ih (Fence.braces.fields ((key, v) :: held))
    refine ⟨w, ?_⟩
    rw [← h]
    exact run_closing_brace ((key, v) :: held) around false (closing around)
  | case4 fence held key around hf ih =>
    obtain ⟨w, h⟩ := ih (fence.fields ((key, v) :: held))
    refine ⟨w, ?_⟩
    rw [← h]
    exact run_entries_of_end ((key, v) :: held) around hf (fieldsEnd_closing around)

/-- The text of an empty literal, and then what closes the frames around it. -/
def emptyLiteral (around : List Frame) : Text :=
  Glyph.char '"' :: Glyph.char '"' :: closing around

/-- A text that the state reads to its end. -/
def State.completion : State → Text
  | .value around => emptyLiteral around
  | .items _ _ around => Glyph.char ']' :: closing around
  | .entries _ fence held around => emptyLiteral (.field fence held .bare :: around)
  | .entry fence held around => emptyLiteral (.field fence held .bare :: around)
  | .identifier fence held name around =>
    Glyph.char '='
      :: emptyLiteral (.field fence held (.ofName (String.ofList name.reverse)) :: around)
  | .equals fence held name around =>
    Glyph.char '=' :: emptyLiteral (.field fence held (.ofName name) :: around)
  | .literal scan around => scan.place.completion ++ closing around
  | .done _ => []

theorem exists_run_completion (s : State) : ∃ v, run s s.completion = .ok v [] := by
  -- an empty literal may stand wherever a value or an entry is due
  have empty (around : List Frame) := exists_run_closing (.text (Utf8.decodeLossy [])) around
  cases s with
  | value around => exact empty around
  | items spaced held around => exact exists_run_closing (ofItems held.reverse) around
  | entries spaced fence held around => exact empty (.field fence held .bare :: around)
  | entry fence held around => exact empty (.field fence held .bare :: around)
  | identifier fence held name around =>
    exact empty (.field fence held (.ofName (String.ofList name.reverse)) :: around)
  | equals fence held name around => exact empty (.field fence held (.ofName name) :: around)
  | literal scan around =>
    obtain ⟨bytes, scanned⟩ := Literal.scan_completion scan
    obtain ⟨w, h⟩ := exists_run_closing (.text (Utf8.decodeLossy bytes)) around
    refine ⟨w, ?_⟩
    rw [State.completion, run_literal, scanned, Reading.andThen, h]
  | done v => exact ⟨v, rfl⟩

/-- Every state can be completed. -/
theorem viable_nil (s : State) : Viable (run s) [] := by
  obtain ⟨v, h⟩ := exists_run_completion s
  refine ⟨s.completion, v, ?_⟩
  rw [List.nil_append, h]
  rfl

/-! ## Where reading stops -/

/-- How a glyph may keep a reader from going on: a value ends before a closing bracket or brace
only, and an error that has read the glyph is about that glyph. -/
def Step.Proper (st : Step) (g : Glyph) : Prop :=
  match st with
  | .go _ => True
  | .stop _ => g = ']' ∨ g = '\x7d'
  | .mismatch _ => True
  | .refuse e => e.glyph? = some g

theorem proper_close {g : Glyph} (hg : g = ']' ∨ g = '\x7d') (fence : Fence)
    (held : List (Key × Value)) (around : List Frame) : (close g fence held around).Proper g := by
  fun_induction close g fence held around with
  | case1 held around h => trivial
  | case2 held around h => trivial
  | case3 fence held hf => exact hg
  | case4 fence held items around hf h => trivial
  | case5 fence held items around hf h => trivial
  | case6 fence held outerFence entries key around hf ih => exact ih

section
variable (fence : Fence) (held : List (Key × Value)) (around : List Frame) (g : Glyph)

theorem proper_stepEquals (name : String) :
    (State.stepEquals fence held name around g).Proper g := by
  unfold State.stepEquals
  split
  · trivial
  · split <;> trivial

theorem proper_stepEntry : (State.stepEntry fence held around g).Proper g := by
  unfold State.stepEntry
  split
  · trivial
  split
  · trivial
  split
  · trivial
  cases g with
  | char c => dsimp only; split <;> trivial
  | stray b => trivial

theorem proper_stepEntries : (State.stepEntries fence held around g).Proper g := by
  unfold State.stepEntries
  split
  · trivial
  split
  · next hg => exact proper_close hg fence held around
  split
  · trivial
  · exact proper_stepEntry fence held around g

theorem proper_stepValue : (State.stepValue around g).Proper g := by
  unfold State.stepValue
  split
  · trivial
  split
  · trivial
  split
  · trivial
  split
  · trivial
  · exact proper_stepEntries .bare [] around g

theorem proper_stepItems (items : List Value) : (State.stepItems items around g).Proper g := by
  unfold State.stepItems
  split
  · trivial
  split
  · trivial
  split
  · trivial
  split
  · trivial
  · exact proper_stepValue (.list items :: around) g

theorem proper_stepIdentifier (name : List Char) :
    (State.stepIdentifier fence held name around g).Proper g := by
  have after := proper_stepEquals fence held around g (String.ofList name.reverse)
  cases g with
  | char c =>
    simp only [State.stepIdentifier]
    split
    · trivial
    · exact after
  | stray b => exact after

theorem glyph?_of_stepChar {scan : Literal.Scan} {c : Char} {e : ParseError}
    (h : scan.stepChar c = .refuse e) : e.glyph? = some (Glyph.char c) := by
  unfold Literal.Scan.stepChar at h
  cases place : scan.place with
  | plain =>
    simp only [place] at h
    split at h
    · cases h
    · split at h <;> cases h
  | afterBackslash =>
    simp only [place] at h
    split at h
    · cases h
    · split at h <;> cases h
      rfl
    · cases h
      rfl
  | octal₂ d₁ =>
    simp only [place] at h
    split at h <;> cases h
    rfl
  | octal₃ d₁ d₂ =>
    simp only [place] at h
    split at h <;> cases h
    rfl

/-- A literal holds the glyph that it refuses against the text. -/
theorem glyph?_of_refuse {scan : Literal.Scan} {e : ParseError} (h : scan.step g = .refuse e) :
    e.glyph? = some g := by
  cases g with
  | stray b =>
    cases h
    rfl
  | char c =>
    simp only [Literal.Scan.step] at h
    by_cases small : c.toNat ≤ 0xFF
    · rw [if_pos small] at h
      exact glyph?_of_stepChar h
    · rw [if_neg small] at h
      cases h
      rfl

theorem proper_stepLiteral (scan : Literal.Scan) : (State.stepLiteral scan around g).Proper g := by
  unfold State.stepLiteral
  cases h : scan.step g with
  | go scan => trivial
  | close bytes => trivial
  | refuse e => exact glyph?_of_refuse g h

end

/-- Unless the value is complete already, a glyph keeps a reader from going on in a proper way. -/
theorem proper_step (s : State) (g : Glyph) : (∃ v, s = .done v) ∨ (s.step g).Proper g := by
  cases s with
  | value around => exact .inr (proper_stepValue around g)
  | items spaced held around => exact .inr (proper_stepItems around g held)
  | entries spaced fence held around => exact .inr (proper_stepEntries fence held around g)
  | entry fence held around => exact .inr (proper_stepEntry fence held around g)
  | identifier fence held name around =>
    exact .inr (proper_stepIdentifier fence held around g name)
  | equals fence held name around => exact .inr (proper_stepEquals fence held around g name)
  | literal scan around => exact .inr (proper_stepLiteral around g scan)
  | done v => exact .inl ⟨v, rfl⟩

/-- Only a closing bracket or brace ends a value that was not complete before it. -/
theorem closer_of_step_stop {s : State} {g : Glyph} {v : Value} (h : s.step g = .stop v) :
    s = .done v ∨ g = ']' ∨ g = '\x7d' := by
  rcases proper_step s g with ⟨w, rfl⟩ | proper
  · cases h
    exact .inl rfl
  · rw [h] at proper
    exact .inr proper

theorem glyph?_of_step_refuse {s : State} {g : Glyph} {e : ParseError}
    (h : s.step g = .refuse e) : e.glyph? = some g := by
  rcases proper_step s g with ⟨w, rfl⟩ | proper
  · cases h
  · rwa [h] at proper

/-- The errors at the end of the text: more was wanted, or a token where nothing is left. -/
inductive AtEnd : ParseError → Prop where
  | ended (wanted : String) : AtEnd (.ended wanted)
  | unexpected (wanted : String) : AtEnd (.unexpected wanted [])

theorem atEnd_of_fence {fence : Fence} {held : List (Key × Value)} {e : ParseError}
    (h : fence.atEnd held = .error e) : AtEnd e := by
  unfold Fence.atEnd at h
  split at h
  · cases h
    exact .unexpected _
  · cases h

theorem atEnd_of_finish {v : Value} {around : List Frame} {e : ParseError}
    (h : finish v around = .error e) : AtEnd e := by
  fun_induction finish v around with
  | case1 v => cases h
  | case2 v held around ih => exact ih h
  | case3 v fence held key around w ended ih => exact ih h
  | case4 v fence held key around e' ended =>
    cases h
    exact atEnd_of_fence ended

theorem atEnd_of_atEnd {s : State} {e : ParseError} (h : s.atEnd = .error e) : AtEnd e := by
  cases s with
  | items spaced held around =>
    cases spaced with
    | false => exact atEnd_of_finish h
    | true =>
      cases h
      exact .ended _
  | entries spaced fence held around =>
    cases spaced with
    | false =>
      simp only [State.atEnd] at h
      split at h
      · exact atEnd_of_finish h
      · next ended =>
        cases h
        exact atEnd_of_fence ended
    | true =>
      cases h
      exact .ended _
  | identifier | equals =>
    cases h
    exact .unexpected _
  | value | entry | literal =>
    cases h
    exact .ended _
  | done v => cases h

/-- The end of the text is no glyph to blame. -/
theorem glyph?_of_atEnd {s : State} {e : ParseError} (h : s.atEnd = .error e) :
    e.glyph? = none := by
  cases atEnd_of_atEnd h <;> rfl

/-- A complete value leaves what follows it to the look at the end, which spacing passes. -/
theorem pointsAtFault_done (v : Value) (t : Text) : PointsAtFault (run (.done v)) t := by
  have whole (t : Text) {a : Value} :
      (run (.done v) t).whole = .ok a ↔ a = v ∧ skipSpacing t = [] := by
    rw [run_done, Reading.whole_eq_ok_iff]
    constructor
    · rintro ⟨rest, h, empty⟩
      cases h
      exact ⟨rfl, empty⟩
    · rintro ⟨rfl, empty⟩
      exact ⟨t, rfl, empty⟩
  intro e rest failed
  have left : e = .trailing (skipSpacing t) ∧ rest = skipSpacing t := by
    rw [run_done, Reading.ended, Reading.andThen] at failed
    cases empty : skipSpacing t with
    | nil =>
      rw [empty] at failed
      cases failed
    | cons g u =>
      rw [empty] at failed
      cases failed
      exact ⟨rfl, rfl⟩
  obtain ⟨rfl, rfl⟩ := left
  have all : ∀ x ∈ t.takeWhile Glyph.isSpacing, x.isSpacing = true := fun x hx =>
    List.all_eq_true.1 List.all_takeWhile x hx
  refine ⟨t.takeWhile Glyph.isSpacing, skipSpacing t, ?_, rfl, ⟨[], v, ?_⟩, ?_⟩
  · exact (List.takeWhile_append_dropWhile).symm
  · rw [whole]
    exact ⟨rfl, List.dropWhile_append_of_pos all⟩
  · rintro g hg ⟨u, a, accepted⟩
    obtain ⟨w, eq⟩ := List.head?_eq_some_iff.1 hg
    have noSpacing : ¬ g.isSpacing = true := by simp [not_spacing_of_skipSpacing_eq eq]
    rw [List.append_assoc, whole, skipSpacing, List.dropWhile_append_of_pos all,
      List.singleton_append, List.dropWhile_cons_of_neg noSpacing] at accepted
    cases accepted.2

/-- **Errors point at the first impossible glyph**, wherever reading starts. -/
theorem pointsAtFault_run (s : State) (t : Text) : PointsAtFault (run s) t := by
  -- a glyph that is read moves the claim to the next state, any other one is itself at fault
  induction t generalizing s with
  | nil =>
    apply PointsAtFault.of_end (viable_nil s)
    intro e rest failed
    rw [run] at failed
    cases ended : s.atEnd with
    | ok v =>
      rw [ended] at failed
      cases failed
    | error e' =>
      rw [ended] at failed
      cases failed
      exact ⟨glyph?_of_atEnd ended, rfl⟩
  | cons g t ih =>
    cases step : s.step g with
    | go s' =>
      have go (u : Text) : run s (g :: u) = run s' u := by simp only [run, step]
      exact .cons go (ih s')
    | stop v =>
      rcases closer_of_step_stop step with rfl | closer
      · exact pointsAtFault_done v (g :: t)
      · have stop (u : Text) : run s (g :: u) = .ok v (g :: u) := by simp only [run, step]
        have left := skipSpacing_closer closer
        apply PointsAtFault.of_front (viable_nil s)
        · intro e rest failed
          rw [stop, Reading.ended, Reading.andThen, left] at failed
          cases failed
          rfl
        · rintro g' u' ⟨⟩ w a accepted
          obtain ⟨rest, eq, empty⟩ := Reading.whole_eq_ok_iff.1 accepted
          rw [stop] at eq
          cases eq
          rw [left] at empty
          cases empty
    | mismatch due =>
      have stuck (u : Text) :
          run s (g :: u) = .fail (.unexpected due.pattern (g :: u)) (g :: u) := by
        simp only [run, step]
      exact .of_glyph (viable_nil s) stuck rfl
    | refuse e' =>
      have refused (u : Text) : run s (g :: u) = .fail e' u := by simp only [run, step]
      have blames : e'.Blames (g :: t) t := by
        rw [ParseError.Blames, glyph?_of_step_refuse step]
      exact .of_glyph (viable_nil s) refused blames

end Reader

theorem FieldList.pointsAtFault (enclosed : Bool) (t : Text) :
    PointsAtFault (FieldList.read enclosed) t :=
  pointsAtFault_map_iff.2 (Reader.pointsAtFault_run _ t)

/-- A literal is read like a value that has begun as one. -/
theorem Literal.pointsAtFault (t : Text) : PointsAtFault Literal.read t := by
  have viable : Viable Literal.read [] := ⟨[Glyph.char '"', Glyph.char '"'], _, rfl⟩
  cases t with
  | nil =>
    apply PointsAtFault.of_end viable
    intro e rest failed
    cases failed
    exact ⟨rfl, rfl⟩
  | cons g t =>
    by_cases quote : g = '"'
    · have go (u : Text) : Literal.read (g :: u) = (Literal.scan {} u).map Utf8.decodeLossy := by
        rw [Literal.read, if_pos quote]
      have same (u : Text) : Reader.run (.literal {} []) u
          = ((Literal.scan {} u).map Utf8.decodeLossy).map Value.text := by
        rw [Reader.run_literal]
        cases Literal.scan {} u with
        | ok bytes rest => exact Reader.run_done _ rest
        | fail e rest => rfl
      have scanned := Reader.pointsAtFault_run (.literal {} []) t
      rw [show Reader.run (.literal {} []) = _ from funext same] at scanned
      exact .cons go (pointsAtFault_map_iff.1 scanned)
    · have stuck (u : Text) :
          Literal.read (g :: u) = .fail (.unexpected "\"" (g :: u)) (g :: u) := by
        rw [Literal.read, if_neg quote]
      exact .of_glyph viable stuck rfl

/-- **Errors point at the first impossible glyph.** Where a text is no value, no field list or no
literal, what comes before the fault of its error can be continued to one, and what comes up to and
with the glyph at the fault cannot. -/
theorem faultAt_of_parse_error (t : Text) (e : ParseError) :
    (Value.parse t = .error e →
      FaultAt Value.parse t (e.fault t (Value.read t).ended.rest)) ∧
    (FieldList.parse t = .error e →
      FaultAt FieldList.parse t (e.fault t (FieldList.read false t).ended.rest)) ∧
    (Literal.parse t = .error e →
      FaultAt Literal.parse t (e.fault t (Literal.read t).ended.rest)) := by
  refine ⟨?_, ?_, ?_⟩
  · exact fun failed => (Reader.pointsAtFault_run (.value []) t).faultAt failed
  · exact fun failed => (FieldList.pointsAtFault false t).faultAt failed
  · exact fun failed => (Literal.pointsAtFault t).faultAt failed

/-- The fault of a brace in a list is the brace, of an escape the glyph after the backslash, and of
more text after a literal the first glyph of it. -/
theorem faultAt_of_parse_error_brace :
    FaultAt Value.parse (Text.ofString "[\"a\" \x7d") 5 ∧
      FaultAt FieldList.parse (Text.ofString "x=\"\\4\"") 4 ∧
      FaultAt Literal.parse (Text.ofString "\"a\"  b") 5 := by
  have brace : Value.parse (Text.ofString "[\"a\" \x7d")
      = .error (.unexpected "\\]" (Text.ofString "\x7d")) := rfl
  have escape : FieldList.parse (Text.ofString "x=\"\\4\"") = .error (.unknownEscape '4') := rfl
  have more : Literal.parse (Text.ofString "\"a\"  b")
      = .error (.trailing (Text.ofString "b")) := rfl
  exact ⟨(faultAt_of_parse_error _ _).1 brace, (faultAt_of_parse_error _ _).2.1 escape,
    (faultAt_of_parse_error _ _).2.2 more⟩

end GdbMi
