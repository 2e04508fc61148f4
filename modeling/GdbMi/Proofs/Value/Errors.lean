import GdbMi.Proofs.Literal.Language
import GdbMi.Proofs.Value.Lookahead
import GdbMi.Proofs.Value.Tokens

/-!
# Errors describe where reading stopped

Reading a string or a value fails in one of six ways (`describes_of_error`). At the end of the text
more was wanted; where another token was wanted, or the end, the error shows all that is left; and
a literal that goes wrong names the glyph that was read last.

`FailsWith` says this by splitting the text, which is the form that readings hand on: what fails
behind some text that was read fails in the same way behind it (`FailsWith.append`).

The six ways are those of the reader. A limit on nested calls is left out of it, so there is no
seventh one for texts that are nested too deep.
-/

namespace GdbMi
set_option autoImplicit false

variable {α β : Type}

/-- A literal is read behind the text: what fails as a literal there fails as a whole. -/
def OpensLiteral (read : Text → Reading α) (before : Text) : Prop :=
  ∀ w e rest, Literal.read (Glyph.char '"' :: w) = .fail e rest →
    read (before ++ Glyph.char '"' :: w) = .fail e rest

/-- How the reading of a text may fail, and what it leaves of the text. -/
inductive FailsWith (read : Text → Reading α) (t : Text) : ParseError → Text → Prop where
  | ended (wanted : String) : FailsWith read t (.ended wanted) []
  | unexpected (wanted : String) (rest : Text) :
      FailsWith read t (.unexpected wanted rest) rest
  | trailing {rest : Text} : rest ≠ [] → FailsWith read t (.trailing rest) rest
  /-- A literal is open, and a glyph is read that does not go on with the element begun. -/
  | literal (before : Text) {rest : Text} {es : List Literal.Element} {o : Literal.Opening}
      {g : Glyph} {e : ParseError} : OpensLiteral read before →
      t = before ++ Glyph.char '"' :: (Literal.body es ++ (o.text ++ g :: rest)) →
      o.Fails (g :: rest) e → FailsWith read t e rest

namespace FailsWith

variable {read next : Text → Reading α} {t rest : Text} {e : ParseError}

/-- What fails behind some text that is read fails in the same way behind it. -/
theorem append (taken : Text) (go : ∀ u, read (taken ++ u) = next u)
    (h : FailsWith next t e rest) : FailsWith read (taken ++ t) e rest := by
  cases h with
  | ended wanted => exact .ended wanted
  | unexpected wanted => exact .unexpected wanted rest
  | trailing more => exact .trailing more
  | literal before opens split fails =>
    refine .literal (taken ++ before) ?_ (by rw [split, List.append_assoc]) fails
    intro w e' rest' failed
    rw [List.append_assoc, go]
    exact opens w e' rest' failed

/-- Another reading fails in the same way if it fails where the first one does. -/
theorem mono {read' : Text → Reading β}
    (fails : ∀ u e' rest', read u = .fail e' rest' → read' u = .fail e' rest')
    (h : FailsWith read t e rest) : FailsWith read' t e rest := by
  cases h with
  | ended wanted => exact .ended wanted
  | unexpected wanted => exact .unexpected wanted rest
  | trailing more => exact .trailing more
  | literal before opens split failing =>
    refine .literal before ?_ split failing
    exact fun w e' rest' failed => fails _ _ _ (opens w e' rest' failed)

theorem map (f : α → β) (h : FailsWith read t e rest) :
    FailsWith (fun t => (read t).map f) t e rest :=
  h.mono fun _ _ _ => Reading.map_eq_fail_iff.2

/-- The look at the end fails with what is left there, or as the reading before it. -/
theorem of_ended (each : ∀ e rest, read t = .fail e rest → FailsWith read t e rest)
    (failed : (read t).ended = .fail e rest) : FailsWith (fun t => (read t).ended) t e rest := by
  cases ended : read t with
  | fail e' rest' =>
    rw [ended] at failed
    cases failed
    refine (each e rest ended).mono fun u e' rest' h => ?_
    rw [h]
    rfl
  | ok a left =>
    rw [ended, Reading.ended, Reading.andThen] at failed
    cases skip : skipSpacing left with
    | nil =>
      rw [skip] at failed
      cases failed
    | cons g u =>
      rw [skip] at failed
      cases failed
      exact .trailing (List.cons_ne_nil g u)

end FailsWith

/-- A literal that is opened and fails makes the reading fail, at the end of the text or at a
glyph. -/
theorem failsWith_of_scan {read : Text → Reading α} {w rest : Text} {e : ParseError}
    (opens : OpensLiteral read []) (h : Literal.scan {} w = .fail e rest) :
    FailsWith read (Glyph.char '"' :: w) e rest := by
  obtain ⟨es, o, u, split, fails, left⟩ := Literal.scan_eq_fail_iff.1 h
  cases u with
  | nil =>
    cases fails
    cases left
    exact .ended _
  | cons g u =>
    cases left
    exact .literal [] opens (by rw [split, List.nil_append, List.tail_cons]) fails

theorem Literal.failsWith_read {t rest : Text} {e : ParseError} (h : read t = .fail e rest) :
    FailsWith read t e rest := by
  cases t with
  | nil =>
    cases h
    exact .ended _
  | cons g t =>
    by_cases quote : g = '"'
    · subst quote
      rw [read_opening_quote, Reading.map_eq_fail_iff] at h
      exact failsWith_of_scan (fun _ _ _ failed => failed) h
    · rw [read, if_neg quote] at h
      cases h
      exact .unexpected _ _

/-! ## Values -/

namespace Reader

/-- What a glyph does outside literals: a quote may open one, and nothing is refused. -/
def Step.OutsideLiteral (st : Step) (g : Glyph) : Prop :=
  match st with
  | .go (.literal scan _) => g = '"' ∧ scan = {}
  | .refuse _ => False
  | _ => True

theorem Step.Begins.outsideLiteral {st : Step} {g : Glyph} (h : st.Begins g) :
    st.OutsideLiteral g := by
  cases st with
  | go s =>
    cases s with
    | literal scan around => exact h
    | _ => trivial
  | refuse e => exact h
  | _ => trivial

theorem outsideLiteral_step {s : State} (h : ∀ scan around, s ≠ .literal scan around) (g : Glyph) :
    (s.step g).OutsideLiteral g := by
  cases s with
  | value | items | entries | entry | equals =>
    exact (begins_step (by constructor) g).outsideLiteral
  | identifier fence held name around =>
    have after := begins_stepEquals fence held around g (String.ofList name.reverse)
    cases g with
    | stray b => exact after.outsideLiteral
    | char c =>
      simp only [State.step, State.stepIdentifier]
      split
      · trivial
      · exact after.outsideLiteral
  | literal scan around => exact absurd rfl (h scan around)
  | done v => trivial

theorem deliver_ne_literal (v : Value) (around : List Frame) {scan : Literal.Scan}
    {outer : List Frame} : deliver v around ≠ .literal scan outer := by
  cases around with
  | nil => nofun
  | cons f around => cases f <;> nofun

theorem failsWith_of_atEnd {read : Text → Reading α} {t : Text} {e : ParseError} (h : AtEnd e) :
    FailsWith read t e [] := by
  cases h with
  | ended wanted => exact .ended wanted
  | unexpected wanted => exact .unexpected wanted []

/-- A reading fails as said, or in the literal in which it began. -/
theorem failsWith_run_or_scan {s : State} {t rest : Text} {e : ParseError}
    (h : run s t = .fail e rest) :
    FailsWith (run s) t e rest ∨
      ∃ scan around, s = .literal scan around ∧ Literal.scan scan t = .fail e rest := by
  -- a glyph that is read hands the claim on, and the quote that opens a literal brings the second
  -- case back to the first
  induction t generalizing s with
  | nil =>
    rw [run] at h
    cases ended : s.atEnd with
    | ok v =>
      rw [ended] at h
      cases h
    | error e' =>
      rw [ended] at h
      cases h
      exact .inl (failsWith_of_atEnd (atEnd_of_atEnd ended))
  | cons g t ih =>
    have lift {s' : State} (step : s.step g = .go s') (fails : FailsWith (run s') t e rest) :
        FailsWith (run s) (g :: t) e rest :=
      fails.append [g] fun u => by simp only [List.singleton_append, run, step]
    by_cases inside : ∃ scan around, s = .literal scan around
    · obtain ⟨scan, around, rfl⟩ := inside
      cases step : scan.step g with
      | go scan' =>
        have go : (State.literal scan around).step g = .go (.literal scan' around) := by
          simp only [State.step, State.stepLiteral, step]
        simp only [run, go] at h
        rcases ih h with fails | ⟨scan'', outer, eq, failed⟩
        · exact .inl (lift go fails)
        · cases eq
          exact .inr ⟨scan, around, rfl, by simp only [Literal.scan, step, failed]⟩
      | close bytes =>
        have go : (State.literal scan around).step g
            = .go (deliver (.text (Utf8.decodeLossy bytes)) around) := by
          simp only [State.step, State.stepLiteral, step]
        simp only [run, go] at h
        rcases ih h with fails | ⟨scan', outer, eq, -⟩
        · exact .inl (lift go fails)
        · exact absurd eq (deliver_ne_literal _ around)
      | refuse e' =>
        simp only [run, State.step, State.stepLiteral, step] at h
        cases h
        exact .inr ⟨scan, around, rfl, by simp only [Literal.scan, step]⟩
    · have outside := outsideLiteral_step (fun scan around eq => inside ⟨scan, around, eq⟩) g
      cases step : s.step g with
      | go s' =>
        simp only [run, step] at h
        rcases ih h with fails | ⟨scan, around, rfl, failed⟩
        · exact .inl (lift step fails)
        · rw [step] at outside
          obtain ⟨rfl, rfl⟩ := outside
          refine .inl (failsWith_of_scan ?_ failed)
          intro w e' rest' failed'
          rw [Literal.read_opening_quote, Reading.map_eq_fail_iff] at failed'
          simp only [List.nil_append, run, step, run_literal, failed', Reading.andThen]
      | stop v =>
        simp only [run, step] at h
        cases h
      | mismatch due =>
        simp only [run, step] at h
        cases h
        exact .inl (.unexpected _ _)
      | refuse e' =>
        rw [step] at outside
        exact outside.elim

theorem failsWith_run {s : State} (between : s.Between) {t rest : Text} {e : ParseError}
    (h : run s t = .fail e rest) : FailsWith (run s) t e rest := by
  rcases failsWith_run_or_scan h with fails | ⟨scan, around, rfl, -⟩
  · exact fails
  · cases between

/-- What a sign opens, after spacing, fails as it fails behind the sign, or at another glyph. -/
theorem failsWith_opened {k : Token} {sign : Glyph} (hk : k.sign? = some sign) {s : State}
    (between : s.Between) {t rest : Text} {e : ParseError}
    (h : ((k.read (skipSpacing t)).andThen fun _ rest => run s rest) = .fail e rest) :
    FailsWith (fun t => (k.read (skipSpacing t)).andThen fun _ rest => run s rest) t e rest := by
  cases opened : k.read (skipSpacing t) with
  | fail e' rest' =>
    rw [opened] at h
    cases h
    unfold Token.read at opened
    split at opened
    · cases opened
    · cases opened
      exact .unexpected _ _
  | ok lexeme left =>
    rw [opened] at h
    have spacing : ∀ g ∈ t.takeWhile Glyph.isSpacing, g.isSpacing = true :=
      List.all_eq_true.1 List.all_takeWhile
    have skip : skipSpacing t = sign :: left := ((Token.read_eq_ok_iff_of_sign hk).1 opened).1
    have split : t = t.takeWhile Glyph.isSpacing ++ [sign] ++ left := by
      rw [List.append_assoc, List.singleton_append, ← skip]
      exact List.takeWhile_append_dropWhile.symm
    rw [split]
    refine (failsWith_run between h).append _ fun u => ?_
    rw [List.append_assoc, List.singleton_append,
      skipSpacing_append_of_spacing spacing (plainGlyph_of_sign hk).2,
      (Token.read_eq_ok_iff_of_sign hk).2 ⟨rfl, rfl⟩, Reading.andThen]

end Reader

/-! ## Positions -/

theorem FieldList.failsWith_read {enclosed : Bool} {t rest : Text} {e : ParseError}
    (h : read enclosed t = .fail e rest) : FailsWith (read enclosed) t e rest :=
  (Reader.failsWith_run (.entries _ _ _ _) (Reading.map_eq_fail_iff.1 h)).map _

theorem Command.Parses.failsWith {c : Command} (parses : c.Parses) {t rest : Text} {e : ParseError}
    (h : c.run t = .fail e rest) : FailsWith c.run t e rest := by
  cases parses with
  | string => exact (Literal.failsWith_read (Reading.map_eq_fail_iff.1 h)).map Answer.string
  | value => exact (Reader.failsWith_run (.value []) (Reading.map_eq_fail_iff.1 h)).map Answer.value
  | list =>
    exact (Reader.failsWith_opened (k := .listOpen) rfl (.items _ _ _)
      (Reading.map_eq_fail_iff.1 h)).map Answer.value
  | map =>
    exact (Reader.failsWith_opened (k := .mapOpen) rfl (.entries _ _ _ _)
      (Reading.map_eq_fail_iff.1 h)).map Answer.value
  | fields enclosed =>
    have failed := FieldList.failsWith_read (Reading.map_eq_fail_iff.1 h)
    exact failed.map fun f => Answer.value f.toValue

/-- The position is inside a literal, which the reading from `start` on opens at a quote before it
and in which it goes wrong there. -/
def InLiteral (read : Text → Reading α) (text : Text) (start p : Nat) (e : ParseError) : Prop :=
  ∃ q, start ≤ q ∧ q + 1 < p ∧ text[q]? = some (Glyph.char '"') ∧
    OpensLiteral read ((text.drop start).take (q - start)) ∧
    Literal.read (text.drop q) = .fail e (text.drop p)

/-- What the error says is so where a reading from `start` on has stopped. -/
def ParseError.Describes (e : ParseError) (read : Text → Reading α) (text : Text)
    (start p : Nat) : Prop :=
  match e with
  | .other _ _ => False
  | .ended _ => p = text.length
  | .unexpected _ context => context = text.drop p
  | .trailing context => context = text.drop p ∧ context ≠ []
  | .unknownEscape g | .badOctal g =>
    text[p - 1]? = some g ∧ g.code ≤ 0xFF ∧ InLiteral read text start p e
  | .nonByte g => text[p - 1]? = some g ∧ 0xFF < g.code ∧ InLiteral read text start p e

/-- The glyph that a literal does not go on with is too large for a byte, or it is no escape. -/
theorem Literal.Opening.Fails.glyph {o : Literal.Opening} {g : Glyph} {rest : Text} {e : ParseError}
    (h : o.Fails (g :: rest) e) :
    (e = .nonByte g ∧ 0xFF < g.code) ∨
      ((e = .unknownEscape g ∨ e = .badOctal g) ∧ g.code ≤ 0xFF) := by
  cases h with
  | nonByte o wide => exact .inl ⟨rfl, wide⟩
  | unknownEscape small => exact .inr ⟨.inl rfl, small⟩
  | badOctal₁ small => exact .inr ⟨.inr rfl, small⟩
  | badOctal₂ small => exact .inr ⟨.inr rfl, small⟩

theorem FailsWith.describes {read : Text → Reading α} {t rest : Text} {e : ParseError}
    (h : FailsWith read t e rest) (suffix : rest <:+ t) (before : Text) :
    e.Describes read (before ++ t) before.length (position (before ++ t) rest) := by
  have left : (before ++ t).drop (position (before ++ t) rest) = rest := by
    obtain ⟨taken, rfl⟩ := suffix
    rw [← List.append_assoc, position_append, List.drop_left]
  cases h with
  | ended wanted => rfl
  | unexpected wanted => exact left.symm
  | trailing more => exact ⟨left.symm, more⟩
  | @literal lead _ es o g _ opens split fails =>
    -- the quote stands behind `before ++ lead`, and the glyph behind `toGlyph`
    let toGlyph := before ++ lead ++ Glyph.char '"' :: (Literal.body es ++ o.text)
    have atQuote : before ++ t
        = (before ++ lead) ++ Glyph.char '"' :: (Literal.body es ++ (o.text ++ g :: rest)) := by
      simp [split]
    have atGlyph : before ++ t = toGlyph ++ g :: rest := by simp [split, toGlyph]
    have stop : position (before ++ t) rest = toGlyph.length + 1 := by
      rw [atGlyph, List.append_cons, position_append, List.length_append, List.length_singleton]
    have glyph : (before ++ t)[position (before ++ t) rest - 1]? = some g := by
      rw [stop, Nat.add_sub_cancel, atGlyph, List.getElem?_append_right (Nat.le_refl _),
        Nat.sub_self, List.getElem?_cons_zero]
    have inside :
        InLiteral read (before ++ t) before.length (position (before ++ t) rest) e := by
      refine ⟨(before ++ lead).length, ?_, ?_, ?_, ?_, ?_⟩
      · simp
      · rw [stop]
        simp [toGlyph]
      · rw [atQuote, List.getElem?_append_right (Nat.le_refl _), Nat.sub_self,
          List.getElem?_cons_zero]
      · rw [List.drop_left, List.length_append, Nat.add_sub_cancel_left, split, List.take_left]
        exact opens
      · rw [left, atQuote, List.drop_left, Literal.read_opening_quote,
          Literal.scan_body_fails es fails, Reading.map, List.tail_cons]
    rcases fails.glyph with ⟨rfl, wide⟩ | ⟨rfl | rfl, small⟩
    · exact ⟨glyph, wide, inside⟩
    · exact ⟨glyph, small, inside⟩
    · exact ⟨glyph, small, inside⟩

/-- A reading that is followed by a look at the end. -/
theorem describes_of_whole {read : Text → Reading α} (suffix : ∀ t, (read t).rest <:+ t)
    (each : ∀ t e rest, read t = .fail e rest → FailsWith read t e rest) {t : Text} {e : ParseError}
    (h : (read t).whole = .error e) :
    e.Describes (fun t => (read t).ended) t 0 (position t (read t).ended.rest) := by
  rw [← Reading.outcome_ended] at h
  obtain ⟨rest, failed⟩ := Reading.outcome_eq_error_iff.1 h
  have left := (Reading.rest_ended_suffix (read t)).trans (suffix t)
  rw [failed] at left ⊢
  exact (FailsWith.of_ended (each t) failed).describes left []

/-- **Errors describe where reading stopped.** From any place of a text, a string or a value is read
or the error is of one of six kinds and says what is so at the place where reading stopped; and so
it is if the whole text must be read. A limit on nested calls, at which an interpreter would give up
the text, is left out. -/
theorem describes_of_error :
    (∀ c : Command, c.Parses → ∀ before t e, (c.run t).outcome = .error e →
      e.Describes c.run (before ++ t) before.length (position (before ++ t) (c.run t).rest)) ∧
    ∀ t e,
      (Value.parse t = .error e →
        e.Describes (fun t => (Value.read t).ended) t 0
          (position t (Value.read t).ended.rest)) ∧
      (FieldList.parse t = .error e →
        e.Describes (fun t => (FieldList.read false t).ended) t 0
          (position t (FieldList.read false t).ended.rest)) ∧
      (Literal.parse t = .error e →
        e.Describes (fun t => (Literal.read t).ended) t 0
          (position t (Literal.read t).ended.rest)) := by
  refine ⟨?_, fun t e => ⟨?_, ?_, ?_⟩⟩
  · intro c parses before t e h
    obtain ⟨rest, failed⟩ := Reading.outcome_eq_error_iff.1 h
    have suffix := c.rest_run_suffix t
    rw [failed] at suffix ⊢
    exact (parses.failsWith failed).describes suffix before
  · refine describes_of_whole (Reader.rest_run_suffix _) ?_
    exact fun t e rest => Reader.failsWith_run (.value [])
  · refine describes_of_whole ?_ ?_
    · intro t
      rw [FieldList.read, Reading.rest_map]
      exact Reader.rest_run_suffix _ t
    · exact fun t e rest => FieldList.failsWith_read
  · exact describes_of_whole Literal.rest_read_suffix fun t e rest => Literal.failsWith_read

/-- An escape in a list, read from behind the name of a field; more text behind fields; and a glyph
that is no byte. -/
theorem describes_of_error_escape :
    (ParseError.unknownEscape '4').Describes (Command.run .value)
        (Text.ofString "k=" ++ Text.ofString "[\"b\\4\"]") 2 7 ∧
      (ParseError.trailing (Text.ofString "] ")).Describes
        (fun t => (FieldList.read false t).ended) (Text.ofString "a=\"1\" ] ") 0 6 ∧
      (ParseError.nonByte 'ā').Describes (fun t => (Literal.read t).ended)
        (Text.ofString "\"aā\"") 0 3 := by
  have escape : Command.run .value (Text.ofString "[\"b\\4\"]")
      = .fail (.unknownEscape '4') (Text.ofString "\"]") := rfl
  have more : FieldList.parse (Text.ofString "a=\"1\" ] ")
      = .error (.trailing (Text.ofString "] ")) := rfl
  have wide : Literal.parse (Text.ofString "\"aā\"") = .error (.nonByte 'ā') := rfl
  have atEscape := describes_of_error.1 .value .value (Text.ofString "k=") _ _
    (congrArg Reading.outcome escape)
  rw [escape] at atEscape
  exact ⟨atEscape, (describes_of_error.2 _ _).2.1 more, (describes_of_error.2 _ _).2.2 wide⟩

end GdbMi
