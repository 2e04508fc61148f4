import GdbMi.Proofs.Literal.Canonical
import GdbMi.Proofs.Value.RoundTrip
import GdbMi.Proofs.Value.Tokens

/-!
# Spacing between tokens

Spacing may be put before any token of a canonical text, and at its end, and the text is read as the
same value (`same_value_of_respaced`). The reader waits before every token and passes over spacing
there (`run_between_skipSpacing`). What it may not do is wait at the end of the text, where spacing
would call for more; a value that is read whatever follows it does not end so.
-/

namespace GdbMi
set_option autoImplicit false

/-- The second text holds the tokens of the first one, with spacing before each of them and after
the last; the first holds nothing but tokens. -/
inductive Respaced : Text → Text → Prop where
  | ended (w : Text) : (∀ g ∈ w, g.isSpacing = true) → Respaced [] w
  /-- A bracket, a brace, a comma or an equals sign. -/
  | sign (w : Text) (k : Token) {g : Glyph} {t t' : Text} : (∀ g ∈ w, g.isSpacing = true) →
      k.sign? = some g → Respaced t t' → Respaced (g :: t) (w ++ g :: t')
  /-- An identifier, which goes on as long as it can. -/
  | identifier (w : Text) (name : String) {t t' : Text} : (∀ g ∈ w, g.isSpacing = true) →
      IsIdentifier name → (∀ g ∈ t.head?, g.isIdentifier = false) → Respaced t t' →
      Respaced (Text.ofString name ++ t) (w ++ (Text.ofString name ++ t'))
  | literal (w : Text) (es : List Literal.Element) {t t' : Text} :
      (∀ g ∈ w, g.isSpacing = true) → Respaced t t' →
      Respaced (Literal.quoted es t) (w ++ Literal.quoted es t')

/-- No identifier goes on where spacing is put. -/
theorem Respaced.head_not_identifier {t t' : Text} (h : Respaced t t')
    (ht : ∀ g ∈ t.head?, g.isIdentifier = false) : ∀ g ∈ t'.head?, g.isIdentifier = false := by
  have spaced {w u : Text} (hw : ∀ g ∈ w, g.isSpacing = true)
      (hu : ∀ g ∈ u.head?, g.isIdentifier = false) :
      ∀ g ∈ (w ++ u).head?, g.isIdentifier = false := by
    cases w with
    | nil => exact hu
    | cons x w =>
      rintro g ⟨⟩
      exact (Reader.plainGlyph_of_spacing (hw x List.mem_cons_self)).2
  cases h with
  | ended w hw =>
    rw [← List.append_nil t']
    exact spaced hw nofun
  | sign w k hw => exact spaced hw fun g hg => ht g hg
  | literal w es hw => exact spaced hw fun g hg => ht g hg
  | identifier w name hw identifier =>
    obtain ⟨c, more, head, hc⟩ := identifier.exists_head
    refine spaced hw fun g hg => ht g ?_
    rw [head] at hg ⊢
    exact hg

/-! ## Reading -/

namespace Reader

/-- The reader waits for a token, or the value is complete. -/
def State.Ready (s : State) : Prop := s.Between ∨ ∃ v, s = .done v

theorem ready_deliver (v : Value) (around : List Frame) : (deliver v around).Ready := by
  cases around with
  | nil => exact .inr ⟨v, rfl⟩
  | cons f around => cases f <;> exact .inl (by constructor)

/-- The first glyph of a token is read, and spacing before it changes nothing. -/
theorem State.Ready.pass {s : State} (ready : s.Ready) {g : Glyph} (hg : g.isSpacing = false)
    {t r : Text} {v : Value} (h : run s (g :: (t ++ r)) = .ok v r) :
    ∃ s', (Step.go s').Begins g ∧ run s' (t ++ r) = .ok v r ∧
      ∀ w u, (∀ x ∈ w, x.isSpacing = true) → run s (w ++ g :: u) = run s' u := by
  rcases run_cons_eq_ok_iff.1 h with ⟨s', step, ran⟩ | ⟨-, all⟩
  · have between : s.Between := by
      rcases ready with between | ⟨v', rfl⟩
      · exact between
      · cases step
    have begins := begins_step between g
    rw [step] at begins
    refine ⟨s', begins, ran, ?_⟩
    intro w u spacing
    rw [run_between_skipSpacing between (skipSpacing_append_of_spacing spacing hg u), run, step]
  · -- what stops the reading would be left too
    have length := congrArg List.length all
    rw [List.length_cons, List.length_append] at length
    omega

/-- A token of one glyph leaves the reader waiting. -/
theorem Step.Begins.ready {s : State} {g : Glyph} (h : (Step.go s).Begins g)
    (plain : PlainGlyph g) : s.Ready := by
  cases s with
  | value | items | entries | entry | equals => exact .inl (by constructor)
  | done v => exact .inr ⟨v, rfl⟩
  | literal scan around => exact absurd h.1 plain.1
  | identifier fence held name around =>
    obtain ⟨c, -, identifier, -⟩ := h
    rw [plain.2] at identifier
    cases identifier

/-- A quote opens a literal. -/
theorem Step.Begins.literal {s : State} (h : (Step.go s).Begins '"') :
    ∃ around, s = .literal {} around := by
  cases s with
  | value | items | entries | entry | equals | done => exact absurd rfl h.1
  | literal scan around =>
    obtain ⟨-, rfl⟩ := h
    exact ⟨around, rfl⟩
  | identifier fence held name around =>
    obtain ⟨c, -, identifier, -⟩ := h
    cases identifier

/-- A glyph of identifiers begins one. -/
theorem Step.Begins.identifier {s : State} {c : Char} (h : (Step.go s).Begins c)
    (hc : (Glyph.char c).isIdentifier = true) :
    ∃ fence held around, s = .identifier fence held [c] around := by
  cases s with
  | value | items | entries | entry | equals | done =>
    have other : (Glyph.char c).isIdentifier = false := h.2
    rw [hc] at other
    cases other
  | literal scan around =>
    obtain ⟨quote, -⟩ := h
    rw [quote] at hc
    cases hc
  | identifier fence held name around =>
    obtain ⟨c', eq, -, rfl⟩ := h
    cases eq
    exact ⟨fence, held, around, rfl⟩

theorem step_space {s : State} (h : s.Between) : ∃ s', s.step ' ' = .go s' := by
  cases h <;> exact ⟨_, rfl⟩

/-- The rest of an identifier is read. -/
theorem run_rest_of_identifier (fence : Fence) (held : List (Key × Value)) (around : List Frame)
    {c : Char} {more : List Char} (chars : ∀ x ∈ more, (Glyph.char x).isIdentifier = true)
    {t : Text} (ends : ∀ g ∈ t.head?, g.isIdentifier = false) :
    run (.identifier fence held [c] around) (more.map Glyph.char ++ t)
      = run (.equals fence held (String.ofList (c :: more)) around) t := by
  obtain ⟨taken, left⟩ := span_append (List.forall_mem_map.2 chars) ends
  rw [run_identifier fence held around [c] taken, left]
  rfl

/-- Where a value is read and a space behind it is left, it is read with spacing put between its
tokens too. -/
theorem run_respaced {t t' : Text} (h : Respaced t t') {s : State} (ready : s.Ready) {v : Value}
    (whole : run s (t ++ [Glyph.char ' ']) = .ok v [Glyph.char ' ']) :
    ∃ w, run s t' = .ok v w ∧ ∀ g ∈ w, g.isSpacing = true := by
  -- token by token; at the end the space tells that the value is complete, since a reader that
  -- waits would pass over it
  induction h generalizing s with
  | ended w spacing =>
    rcases ready with between | ⟨v', rfl⟩
    · obtain ⟨s', go⟩ := step_space between
      have left := rest_run_suffix s' []
      rw [List.nil_append, run, go] at whole
      simp only [whole, Reading.rest] at left
      cases List.suffix_nil.1 left
    · rw [run_done] at whole
      cases whole
      exact ⟨w, run_done v w, spacing⟩
  | @sign w k g t t' spacing hk rest ih =>
    obtain ⟨plain, notSpacing⟩ := plainGlyph_of_sign hk
    obtain ⟨s', begins, whole, pass⟩ := ready.pass notSpacing whole
    rw [pass w t' spacing]
    exact ih (begins.ready plain) whole
  | @identifier w name t t' spacing identifier ends rest ih =>
    obtain ⟨c, more, rfl, hc, chars⟩ := identifier.exists_cons
    have text (u : Text) : Text.ofString (String.ofList (c :: more)) ++ u
        = Glyph.char c :: (more.map Glyph.char ++ u) := by
      rw [Text.ofString_ofList, List.map_cons, List.cons_append]
    rw [List.append_assoc, text, ← List.append_assoc] at whole
    obtain ⟨s', begins, whole, pass⟩ :=
      ready.pass (Glyph.not_isSpacing_of_isIdentifier hc) whole
    obtain ⟨fence, held, around, rfl⟩ := begins.identifier hc
    have ends' : ∀ g ∈ (t ++ [Glyph.char ' ']).head?, g.isIdentifier = false := by
      cases t with
      | nil =>
        rintro g ⟨⟩
        rfl
      | cons g t => exact ends
    rw [List.append_assoc, run_rest_of_identifier fence held around chars ends'] at whole
    rw [text, pass w _ spacing,
      run_rest_of_identifier fence held around chars (rest.head_not_identifier ends)]
    exact ih (.inl (.equals fence held _ around)) whole
  | @literal w es t t' spacing rest ih =>
    obtain ⟨s', begins, whole, pass⟩ := ready.pass (g := Glyph.char '"')
      (t := Literal.body es ++ Glyph.char '"' :: t) rfl whole
    obtain ⟨around, rfl⟩ := begins.literal
    have scanned (u : Text) : run (.literal {} around) (Literal.body es ++ Glyph.char '"' :: u)
        = run (deliver (.text (Utf8.decodeLossy (es.map Literal.Element.byte))) around) u :=
      run_opening_quote (Literal.scan_body_quote es u) around
    rw [List.append_assoc, List.cons_append, scanned] at whole
    rw [Literal.quoted, pass w _ spacing, scanned]
    exact ih (ready_deliver _ around) whole

end Reader

/-! ## Canonical text -/

/-- The text is made of tokens, whatever comes next. -/
def Tokenized (s : Text) : Prop := ∀ t, Respaced t t → Respaced (s ++ t) (s ++ t)

theorem Respaced.self_sign {k : Token} {g : Glyph} (hk : k.sign? = some g) {t : Text}
    (h : Respaced t t) : Respaced (g :: t) (g :: t) :=
  .sign [] k (by simp) hk h

theorem tokenized_quote (x : String) : Tokenized (Literal.quote (Text.ofString x)) := by
  intro t h
  obtain ⟨es, canonical, bytes⟩ := Literal.exists_canonical_body (Text.ofString x).bytes
  rw [Literal.quote_eq_quoted canonical bytes]
  have text : Literal.quoted es [] ++ t = Literal.quoted es t := by simp [Literal.quoted]
  rw [text]
  exact .literal [] es (by simp) h

theorem tokenized_entryText {key : Key} {v : Value} (takes : key.Takes v) {s : Text}
    (h : Tokenized s) : Tokenized (entryText key s) := by
  intro t ht
  cases key with
  | bare | unnamed => exact h t ht
  | named name =>
    have text : entryText (.named name) s ++ t
        = Text.ofString name ++ Glyph.char '=' :: (s ++ t) := by simp [entryText]
    rw [text]
    refine .identifier [] name (by simp) takes ?_ (.self_sign (k := .equals) rfl (h t ht))
    intro g same
    cases same
    rfl

theorem tokenized_separated {parts : List Text} (h : ∀ part ∈ parts, Tokenized part) :
    Tokenized (separated parts) := by
  intro t ht
  induction parts with
  | nil => exact ht
  | cons part parts ih =>
    rw [List.forall_mem_cons] at h
    cases parts with
    | nil =>
      rw [separated_singleton]
      exact h.1 t ht
    | cons next parts =>
      rw [separated_cons_cons, List.append_assoc]
      exact h.1 _ (.self_sign (k := .comma) rfl (ih h.2))

theorem tokenized_enclosedIn (k k' : Token) {left right : Char} (hl : k.sign? = some left)
    (hr : k'.sign? = some right) {parts : List Text} (h : ∀ part ∈ parts, Tokenized part) :
    Tokenized (enclosedIn left right parts) := by
  intro t ht
  rw [enclosedIn_append]
  exact .self_sign hl (tokenized_separated h _ (.self_sign hr ht))

/-- The canonical text of a value is made of tokens. -/
theorem Value.tokenized_of_render {v : Value} (h : v.Shaped) :
    ∀ s, v.render = .ok s → Tokenized s := by
  refine h.render_induction tokenized_quote ?_ ?_ ?_
  · exact fun key v s takes hs => tokenized_entryText takes hs
  · exact fun parts each => tokenized_enclosedIn .listOpen .listClose rfl rfl each
  · exact fun parts each => tokenized_enclosedIn .mapOpen .mapClose rfl rfl each

/-! ## Values that are read -/

/-- Every value that is read, by whatever command, is of the shape. -/
theorem Command.shaped_of_run {c : Command} {t r : Text} {v : Value}
    (h : c.run t = .ok (.value v) r) : v.Shaped := by
  rcases c.derives_of_run h with derived | ⟨enclosed, entries, rfl, derived⟩
  · exact shaped_of_derives derived
  · exact Value.shaped_fields_iff.2 (shaped_of_derives derived)

/-- **Spacing between tokens is irrelevant.** A canonical text of a value that was read is made of
tokens, and with spacing before any of them and after the last it is read as the same value. -/
theorem same_value_of_respaced (c : Command) (t r : Text) (v : Value) (s : Text)
    (h : c.run t = .ok (.value v) r) (hs : v.render = .ok s) :
    Respaced s s ∧
      ∃ w, Value.parse s = .ok w ∧ ∀ s', Respaced s s' → Value.parse s' = .ok w := by
  have shaped := c.shaped_of_run h
  refine ⟨?_, v.normal, shaped.parse_render hs, ?_⟩
  · have self := Value.tokenized_of_render shaped s hs [] (.ended [] nofun)
    rwa [List.append_nil] at self
  · intro s' respaced
    have whole := shaped.read_render hs [Glyph.char ' ']
    obtain ⟨w, read, spacing⟩ := Reader.run_respaced respaced (.inl (.value [])) whole
    exact Reading.whole_eq_ok_iff.2 ⟨w, read, List.dropWhile_eq_nil_iff.2 spacing⟩

/-- A map with spacing around its tokens, and a literal with some of its own. -/
theorem same_value_of_respaced_map :
    Value.parse (Text.ofString "\x7b a =\t\"x \"\n\x7d ")
      = .ok (.fields true [(.named "a", .text "x ")]) := by
  have read : Command.run .value (Text.ofString "\x7ba=\"x \"\x7d")
      = .ok (.value (.fields true [(.named "a", .text "x ")])) [] := rfl
  obtain ⟨-, w, plain, spaced⟩ :=
    same_value_of_respaced .value _ _ _ (Text.ofString "\x7ba=\"x \"\x7d") read rfl
  obtain rfl : .fields true [(.named "a", .text "x ")] = w := Except.ok.inj plain
  let es : List Literal.Element :=
    [.plain 'x' (by decide) (by decide) (by decide), .plain ' ' (by decide) (by decide) (by decide)]
  have respaced : Respaced (Text.ofString "\x7ba=\"x \"\x7d")
      (Text.ofString "\x7b a =\t\"x \"\n\x7d ") :=
    .sign [] .mapOpen nofun rfl <|
      .identifier [Glyph.char ' '] "a" (by decide) (by decide) (by rintro g ⟨⟩; rfl) <|
        .sign [Glyph.char ' '] .equals (by decide) rfl <|
          .literal [Glyph.char '\t'] es (by decide) <|
            .sign [Glyph.char '\n'] .mapClose (by decide) rfl <| .ended [Glyph.char ' '] (by decide)
  exact spaced _ respaced

end GdbMi
