import GdbMi.Proofs.Grammar
import GdbMi.Value.Nesting

/-!
# What is read is derived

Reading holds what it has read so far in frames, so a run that ends well says something about the
text only together with the frames around it. `Closes` writes down what frames demand of the text
after a value inside them, `State.Completes` what a state demands of the text that is left: to be
the rest of a phrase, and then to close the frames. One glyph takes a demand back by one step
(`completes_of_step`), so every run that ends well meets the demand of its state
(`completes_of_run`). From the two ways to begin, a value and fields, follow the derivations of the
grammar.
-/

namespace GdbMi
set_option autoImplicit false

/-- A list in brackets denotes the value that is made of its items. -/
theorem Derives.ofItems {t u r : Text} {items : List Value}
    (ht : skipSpacing t = Glyph.char '[' :: u) (hi : Derives (.items items) u r) :
    Derives (.value (Reader.ofItems items)) t r := by
  unfold Reader.ofItems
  split
  · exact .unwrapped ht hi
  · next hne => exact .list ht hi fun entries eq => hne entries eq

end GdbMi

namespace GdbMi.Reader

/-- What is left where fields with the fence end, given what is left after the fence. -/
def Fence.before (fence : Fence) (r : Text) : Text :=
  match fence with
  | braces => Glyph.char '\x7d' :: r
  | _ => r

theorem Fence.before_of_ne {fence : Fence} (hf : fence ≠ braces) (r : Text) :
    fence.before r = r := by
  cases fence with
  | braces => exact absurd rfl hf
  | _ => rfl

theorem Fence.eq_fields_of_atEnd {fence : Fence} {held : List (Key × Value)} {w : Value}
    (h : fence.atEnd held = .ok w) : fence ≠ braces ∧ w = fence.fields held := by
  unfold Fence.atEnd at h
  split at h
  · cases h
  · next hf => exact ⟨hf, (Except.ok.inj h).symm⟩

/-- What the frames demand of the text `u` after the value `w` inside them, for the whole to be the
value `v` and `r` to be left. -/
def Closes : List Frame → Value → Text → Value → Text → Prop
  | [], w, u, v, r => v = w ∧ r = u
  | .list held :: around, w, u, v, r =>
    ∃ items r', Derives (.items items) u r' ∧
      Closes around (ofItems (held.reverse ++ w :: items)) r' v r
  | .field fence held key :: around, w, u, v, r =>
    ∃ entries r', Derives (.fields entries) u (fence.before r') ∧
      Closes around (fence.fields (entries.reverse ++ (key, w) :: held)) r' v r

/-- What the state demands of the text `t` that is left, for the whole to be the value `v` and `r`
to be left of it. -/
def State.Completes (s : State) (t : Text) (v : Value) (r : Text) : Prop :=
  match s with
  | .value around => ∃ w u, Derives (.value w) t u ∧ Closes around w u v r
  | .items spaced held around =>
    (spaced = true → t ≠ []) ∧ ∃ items u, Derives (.items items) t u ∧
      Closes around (ofItems (held.reverse ++ items)) u v r
  | .entries spaced fence held around =>
    (spaced = true → t ≠ []) ∧ ∃ entries u, Derives (.fields entries) t (fence.before u) ∧
      Closes around (fence.fields (entries.reverse ++ held)) u v r
  | .entry fence held around =>
    ∃ key w u, Derives (.entry key w) t u ∧ Closes (.field fence held key :: around) w u v r
  | .identifier fence held name around =>
    ∃ more u w u', t.takeWhile Glyph.isIdentifier = more.map Glyph.char ∧
      skipSpacing (t.dropWhile Glyph.isIdentifier) = Glyph.char '=' :: u ∧
      Derives (.value w) u u' ∧
      Closes (.field fence held (.ofName (String.ofList (name.reverse ++ more))) :: around) w u' v r
  | .equals fence held name around =>
    ∃ u w u', skipSpacing t = Glyph.char '=' :: u ∧ Derives (.value w) u u' ∧
      Closes (.field fence held (.ofName name) :: around) w u' v r
  | .literal scan around =>
    ∃ bytes u, Literal.scan scan t = .ok bytes u ∧
      Closes around (.text (Utf8.decodeLossy bytes)) u v r
  | .done w => v = w ∧ r = t

/-- What is demanded after a glyph: of the state that it leads to, or that the value ended before
the glyph. -/
def Step.Completes (st : Step) (g : Glyph) (t : Text) (v : Value) (r : Text) : Prop :=
  match st with
  | .go s => s.Completes t v r
  | .stop w => v = w ∧ r = g :: t
  | .mismatch _ => False
  | .refuse _ => False

theorem completes_deliver {w v : Value} {around : List Frame} {t r : Text} :
    (deliver w around).Completes t v r ↔ Closes around w t v r := by
  cases around with
  | nil => exact Iff.rfl
  | cons f around => cases f <;> simp [deliver, State.Completes, Closes]

section
variable {g : Glyph} {t r : Text} {v : Value} {around : List Frame} {fence : Fence}
  {held : List (Key × Value)}

/-- A bracket or brace that ends fields meets their demand, and that of all the fields it ends with
them. -/
theorem completes_of_close (hg : g = ']' ∨ g = '\x7d') (spaced : Bool)
    (h : (close g fence held around).Completes g t v r) :
    (State.entries spaced fence held around).Completes (g :: t) v r := by
  have skip : skipSpacing (g :: t) = g :: t := by rcases hg with rfl | rfl <;> rfl
  have none : Derives (.fields []) (g :: t) (g :: t) := .fieldsClosed skip hg
  refine ⟨fun _ => by simp, [], ?_⟩
  fun_induction close g fence held around with
  | case1 held around h' =>
    subst h'
    exact ⟨t, none, completes_deliver.1 h⟩
  | case2 => exact h.elim
  | case3 fence held hf => exact ⟨g :: t, by rwa [fence.before_of_ne (by simpa using hf)], h⟩
  | case4 fence held items around hf h' =>
    subst h'
    refine ⟨Glyph.char ']' :: t, by rwa [fence.before_of_ne (by simpa using hf)], [], t, ?_, ?_⟩
    · exact .itemsClosed rfl
    · simpa using completes_deliver.1 h
  | case5 => exact h.elim
  | case6 fence held outer entries key around hf ih =>
    obtain ⟨u, ended, closed⟩ := ih h
    exact ⟨g :: t, by rwa [fence.before_of_ne (by simpa using hf)], [], u, ended, closed⟩

theorem completes_of_stepEquals {name : String}
    (h : (State.stepEquals fence held name around g).Completes g t v r) :
    (State.equals fence held name around).Completes (g :: t) v r := by
  unfold State.stepEquals at h
  split at h
  · next hg =>
    obtain ⟨u, w, u', hu, hw, closed⟩ := h
    exact ⟨u, w, u', (skipSpacing_cons_of_spacing hg t).trans hu, hw, closed⟩
  · next hg =>
    split at h
    · next eq =>
      subst eq
      obtain ⟨w, u, hw, closed⟩ := h
      exact ⟨t, w, u, rfl, hw, closed⟩
    · exact h.elim

/-- The literal that an opening quote begins. -/
theorem read_of_completes_literal (h : (State.literal {} around).Completes t v r) :
    ∃ s u, Literal.read (Glyph.char '"' :: t) = .ok s u ∧ Closes around (.text s) u v r := by
  obtain ⟨bytes, u, scanned, closed⟩ := h
  refine ⟨_, u, ?_, closed⟩
  simp [Literal.read, scanned, Reading.map]

/-- The map that an opening brace begins. -/
theorem derives_of_completes_openMap (h : (State.openMap around).Completes t v r) :
    ∃ entries u, Derives (.map entries) (Glyph.char '\x7b' :: t) u ∧
      Closes around (.fields true entries) u v r := by
  obtain ⟨-, entries, u, hf, closed⟩ := h
  refine ⟨entries, u, .braces rfl hf, ?_⟩
  simpa [Fence.fields, Fence.isEnclosed] using closed

theorem completes_of_stepEntry (h : (State.stepEntry fence held around g).Completes g t v r) :
    (State.entry fence held around).Completes (g :: t) v r := by
  unfold State.stepEntry at h
  split at h
  · next hg =>
    obtain ⟨key, w, u, he, closed⟩ := h
    exact ⟨key, w, u, he.spaced he.entry_ne_nil hg, closed⟩
  · next hg =>
    split at h
    · next eq =>
      subst eq
      obtain ⟨entries, u, hm, closed⟩ := derives_of_completes_openMap h
      exact ⟨.unnamed, _, u, .unnamed hm, closed⟩
    split at h
    · next eq =>
      subst eq
      obtain ⟨s, u, hs, closed⟩ := read_of_completes_literal h
      exact ⟨.bare, _, u, .bareString hs, closed⟩
    cases g with
    | stray b => exact h.elim
    | char c =>
      dsimp only at h
      split at h
      · next hc =>
        obtain ⟨more, u, w, u', run, hu, hw, closed⟩ := h
        have skip := skipSpacing_cons_of_not_spacing (by simpa using hg) t
        rw [show [c].reverse ++ more = c :: more from rfl, Key.ofName_of_isIdentifier hc] at closed
        refine ⟨_, w, u', .named ⟨?_, ?_, rfl⟩ ?_ hw, closed⟩
        · intro empty
          simpa using congrArg String.toList empty
        · rw [skip, List.takeWhile_cons_of_pos hc, run, Text.ofString_ofList, List.map_cons]
        · rwa [skip, List.dropWhile_cons_of_pos hc]
      · exact h.elim

theorem completes_of_stepEntries (spaced : Bool)
    (h : (State.stepEntries fence held around g).Completes g t v r) :
    (State.entries spaced fence held around).Completes (g :: t) v r := by
  unfold State.stepEntries at h
  split at h
  · next hg =>
    obtain ⟨more, entries, u, hf, closed⟩ := h
    exact ⟨by simp, entries, u, hf.spaced (more rfl) hg, closed⟩
  split at h
  · next hg => exact completes_of_close hg spaced h
  split at h
  · next eq =>
    subst eq
    obtain ⟨key, w, u, he, entries, u', hf, closed⟩ := h
    refine ⟨by simp, (key, w) :: entries, u', .field (.present rfl) he hf, ?_⟩
    simpa using closed
  · obtain ⟨key, w, u, he, entries, u', hf, closed⟩ := completes_of_stepEntry h
    refine ⟨by simp, (key, w) :: entries, u', .field (.absent _) he hf, ?_⟩
    simpa using closed

/-- The items that an opening bracket begins. -/
theorem derives_of_completes_openList (h : (State.openList around).Completes t v r) :
    ∃ w u, Derives (.value w) (Glyph.char '[' :: t) u ∧ Closes around w u v r := by
  obtain ⟨-, items, u, hi, closed⟩ := h
  exact ⟨ofItems items, u, .ofItems rfl hi, by simpa using closed⟩

theorem completes_of_stepValue (h : (State.stepValue around g).Completes g t v r) :
    (State.value around).Completes (g :: t) v r := by
  unfold State.stepValue at h
  split at h
  · next hg =>
    obtain ⟨w, u, hw, closed⟩ := h
    exact ⟨w, u, hw.spaced hw.value_ne_nil hg, closed⟩
  next hg =>
  split at h
  · next eq =>
    subst eq
    obtain ⟨s, u, hs, closed⟩ := read_of_completes_literal h
    exact ⟨.text s, u, .literal hs, closed⟩
  next h₁ =>
  split at h
  · next eq =>
    subst eq
    exact derives_of_completes_openList h
  next h₂ =>
  split at h
  · next eq =>
    subst eq
    obtain ⟨entries, u, hm, closed⟩ := derives_of_completes_openMap h
    exact ⟨_, u, .map hm, closed⟩
  next h₃ =>
  obtain ⟨-, entries, u, hf, closed⟩ := completes_of_stepEntries false h
  have skip := skipSpacing_cons_of_not_spacing (by simpa using hg) t
  refine ⟨.fields false entries, u, .bare skip h₁ h₂ h₃ hf, ?_⟩
  simpa [Fence.fields, Fence.isEnclosed] using closed

theorem completes_of_stepItems {items : List Value} (spaced : Bool)
    (h : (State.stepItems items around g).Completes g t v r) :
    (State.items spaced items around).Completes (g :: t) v r := by
  unfold State.stepItems at h
  refine ⟨by simp, ?_⟩
  split at h
  · next hg =>
    obtain ⟨more, vs, u, hi, closed⟩ := h
    exact ⟨vs, u, hi.spaced (more rfl) hg, closed⟩
  next hg =>
  have skip := skipSpacing_cons_of_not_spacing (by simpa using hg) t
  split at h
  · next eq =>
    subst eq
    exact ⟨[], t, .itemsClosed rfl, by simpa using completes_deliver.1 h⟩
  next h₁ =>
  split at h
  · exact h.elim
  next h₂ =>
  split at h
  · next eq =>
    subst eq
    obtain ⟨w, u, hw, vs, u', hi, closed⟩ := h
    exact ⟨w :: vs, u', .itemAfterComma rfl hw hi, closed⟩
  next h₃ =>
  obtain ⟨w, u, hw, vs, u', hi, closed⟩ := completes_of_stepValue h
  exact ⟨w :: vs, u', .item skip h₃ h₁ h₂ hw hi, closed⟩

theorem completes_of_stepIdentifier {name : List Char}
    (h : (State.stepIdentifier fence held name around g).Completes g t v r) :
    (State.identifier fence held name around).Completes (g :: t) v r := by
  have after (hg : g.isIdentifier = false)
      (h : (State.stepEquals fence held (String.ofList name.reverse) around g).Completes g t v r) :
      (State.identifier fence held name around).Completes (g :: t) v r := by
    obtain ⟨u, w, u', hu, hw, closed⟩ := completes_of_stepEquals h
    refine ⟨[], u, w, u', ?_, ?_, hw, by simpa using closed⟩
    · simp [hg]
    · rwa [List.dropWhile_cons_of_neg (by simp [hg])]
  cases g with
  | stray b => exact after rfl h
  | char c =>
    unfold State.stepIdentifier at h
    dsimp only at h
    split at h
    · next hc =>
      obtain ⟨more, u, w, u', run, hu, hw, closed⟩ := h
      refine ⟨c :: more, u, w, u', ?_, ?_, hw, by simpa using closed⟩
      · rw [List.takeWhile_cons_of_pos hc, run, List.map_cons]
      · rwa [List.dropWhile_cons_of_pos hc]
    · next hc => exact after (by simpa using hc) h

theorem completes_of_stepLiteral {scan : Literal.Scan}
    (h : (State.stepLiteral scan around g).Completes g t v r) :
    (State.literal scan around).Completes (g :: t) v r := by
  unfold State.stepLiteral at h
  split at h
  · next scan' hs =>
    obtain ⟨bytes, u, scanned, closed⟩ := h
    exact ⟨bytes, u, by rw [Literal.scan, hs]; exact scanned, closed⟩
  · next bytes hs => exact ⟨bytes, t, by rw [Literal.scan, hs], completes_deliver.1 h⟩
  · exact h.elim

end

/-- One glyph takes a demand back by one step. -/
theorem completes_of_step {s : State} {g : Glyph} {t r : Text} {v : Value}
    (h : (s.step g).Completes g t v r) : s.Completes (g :: t) v r := by
  cases s with
  | value around => exact completes_of_stepValue h
  | items spaced held around => exact completes_of_stepItems spaced h
  | entries spaced fence held around => exact completes_of_stepEntries spaced h
  | entry fence held around => exact completes_of_stepEntry h
  | identifier fence held name around => exact completes_of_stepIdentifier h
  | equals fence held name around => exact completes_of_stepEquals h
  | literal scan around => exact completes_of_stepLiteral h
  | done w => exact h

/-- Frames that the end of the text closes have their demand met there. -/
theorem closes_of_finish {w v : Value} {around : List Frame} (h : finish w around = .ok v) :
    Closes around w [] v [] := by
  fun_induction finish w around with
  | case1 w => cases h; exact ⟨rfl, rfl⟩
  | case2 w held around ih => exact ⟨[], [], .itemsEnded, by simpa using ih h⟩
  | case3 w fence held key around w' ended ih =>
    obtain ⟨hf, rfl⟩ := Fence.eq_fields_of_atEnd ended
    exact ⟨[], [], by rw [fence.before_of_ne hf]; exact .fieldsEnded, ih h⟩
  | case4 => cases h

theorem completes_of_atEnd {s : State} {v : Value} (h : s.atEnd = .ok v) :
    s.Completes [] v [] := by
  cases s with
  | items spaced held around =>
    cases spaced with
    | true => cases h
    | false => exact ⟨nofun, [], [], .itemsEnded, by simpa using closes_of_finish h⟩
  | entries spaced fence held around =>
    cases spaced with
    | true => cases h
    | false =>
      simp only [State.atEnd] at h
      split at h
      · next w ended =>
        obtain ⟨hf, rfl⟩ := Fence.eq_fields_of_atEnd ended
        refine ⟨nofun, [], [], ?_, closes_of_finish h⟩
        rw [fence.before_of_ne hf]
        exact .fieldsEnded
      · cases h
  | done w => cases h; exact ⟨rfl, rfl⟩
  | _ => cases h

/-- A run that ends well meets the demand of its state. -/
theorem completes_of_run {s : State} {t r : Text} {v : Value} (h : run s t = .ok v r) :
    s.Completes t v r := by
  induction t generalizing s with
  | nil =>
    obtain ⟨ended, rfl⟩ := run_nil_eq_ok_iff.1 h
    exact completes_of_atEnd ended
  | cons g t ih =>
    apply completes_of_step
    rcases run_cons_eq_ok_iff.1 h with ⟨s', step, ran⟩ | ⟨step, rfl⟩
    · rw [step]
      exact ih ran
    · rw [step]
      exact ⟨rfl, rfl⟩

theorem derives_of_run_value {t r : Text} {v : Value} (h : run (.value []) t = .ok v r) :
    Derives (.value v) t r := by
  obtain ⟨w, u, hw, rfl, rfl⟩ := completes_of_run h
  exact hw

theorem derives_of_run_entries {fence : Fence} (hf : fence ≠ .braces) {t r : Text} {v : Value}
    (h : run (.entries false fence [] []) t = .ok v r) :
    ∃ entries, v = .fields fence.isEnclosed entries ∧ Derives (.fields entries) t r := by
  obtain ⟨-, entries, u, he, rfl, rfl⟩ := completes_of_run h
  rw [fence.before_of_ne hf] at he
  exact ⟨entries, by simp [Fence.fields], he⟩

end GdbMi.Reader
