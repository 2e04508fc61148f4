import GdbMi.Value.Stepwise

/-!
# Where errors point

A text is viable if some text that begins with it is read whole. An error points at its fault: what
comes before the fault is viable, and with the glyph at the fault it is viable no longer, so that
glyph is the first with which the text went wrong. A text that ends too early has its fault at its
end.

`PointsAtFault` says this by splitting the text, which is the form that inductions on texts carry
on; `PointsAtFault.faultAt` turns it into positions.
-/

namespace GdbMi
set_option autoImplicit false

variable {α β : Type}

/-- The reading, and then a look whether anything but spacing is left. -/
def Reading.ended (r : Reading α) : Reading α :=
  r.andThen fun a rest => (Command.checkEndAt (skipSpacing rest)).map fun _ => a

theorem Reading.outcome_ended (r : Reading α) : r.ended.outcome = r.whole := by
  cases r with
  | fail e rest => rfl
  | ok a rest =>
    rw [ended, andThen, whole]
    cases skipSpacing rest <;> rfl

theorem Reading.ended_map (f : α → β) (r : Reading α) : (r.map f).ended = r.ended.map f := by
  cases r with
  | fail e rest => rfl
  | ok a rest =>
    rw [map, ended, ended, andThen, andThen]
    cases skipSpacing rest <;> rfl

theorem Reading.map_eq_fail_iff {f : α → β} {r : Reading α} {e : ParseError} {rest : Text} :
    r.map f = .fail e rest ↔ r = .fail e rest := by
  cases r <;> simp [map]

theorem Reading.outcome_eq_error_iff {r : Reading α} {e : ParseError} :
    r.outcome = .error e ↔ ∃ rest, r = .fail e rest := by
  cases r <;> simp [outcome]

theorem Reading.rest_ended_suffix (r : Reading α) : r.ended.rest <:+ r.rest := by
  cases r with
  | fail e rest => exact List.suffix_refl _
  | ok a rest =>
    rw [ended, andThen, rest_map]
    exact Command.rest_run_suffix (.checkEnd true) rest

theorem Reading.whole_map_eq_ok_iff {f : α → β} {r : Reading α} {b : β} :
    (r.map f).whole = .ok b ↔ ∃ a, r.whole = .ok a ∧ f a = b := by
  cases r with
  | fail e rest => simp [map, whole]
  | ok a rest =>
    rw [map, whole, whole]
    cases skipSpacing rest <;> simp

/-- The text can be continued to one that is read whole. -/
def Viable (read : Text → Reading α) (p : Text) : Prop := ∃ u a, (read (p ++ u)).whole = .ok a

/-- What is left at the fault when `rest` is left unread: an error with an offending glyph has read
that glyph. -/
def ParseError.Blames (e : ParseError) (faulty rest : Text) : Prop :=
  match e.glyph? with
  | none => faulty = rest
  | some g => faulty = g :: rest

/-- If the text is not read whole, its error points at a glyph that no viable text goes on with
after the viable text before it, or at the end. -/
def PointsAtFault (read : Text → Reading α) (t : Text) : Prop :=
  ∀ e rest, (read t).ended = .fail e rest → ∃ p faulty, t = p ++ faulty ∧ e.Blames faulty rest ∧
    Viable read p ∧ ∀ g ∈ faulty.head?, ¬ Viable read (p ++ [g])

/-- An error at the front of the text. -/
theorem PointsAtFault.of_front {read : Text → Reading α} {t : Text} (viable : Viable read [])
    (blames : ∀ e rest, (read t).ended = .fail e rest → e.Blames t rest)
    (impossible : ∀ g u, t = g :: u → ∀ w a, (read (g :: w)).whole ≠ .ok a) :
    PointsAtFault read t := by
  intro e rest failed
  refine ⟨[], t, rfl, blames e rest failed, viable, ?_⟩
  intro g hg
  obtain ⟨u, rfl⟩ : ∃ u, t = g :: u := List.head?_eq_some_iff.1 hg
  rintro ⟨w, a, h⟩
  exact impossible g u rfl w a h

/-- A glyph that fails whatever follows it. -/
theorem PointsAtFault.of_glyph {read : Text → Reading α} {g : Glyph} (viable : Viable read [])
    {error : Text → ParseError} {left : Text → Text}
    (fails : ∀ u, read (g :: u) = .fail (error u) (left u)) {t : Text}
    (blames : (error t).Blames (g :: t) (left t)) : PointsAtFault read (g :: t) := by
  apply PointsAtFault.of_front viable
  · intro e rest failed
    rw [fails] at failed
    cases failed
    exact blames
  · rintro g' u ⟨⟩ w a accepted
    rw [fails] at accepted
    cases accepted

/-- An empty text that is not enough. -/
theorem PointsAtFault.of_end {read : Text → Reading α} (viable : Viable read [])
    (blames : ∀ e rest, (read []).ended = .fail e rest → e.glyph? = none ∧ rest = []) :
    PointsAtFault read [] := by
  apply PointsAtFault.of_front viable
  · intro e rest failed
    obtain ⟨glyph, rfl⟩ := blames e rest failed
    rw [ParseError.Blames, glyph]
  · nofun

/-- After a glyph that was read, errors point where they point in what follows it. -/
theorem PointsAtFault.cons {read next : Text → Reading α} {g : Glyph}
    (go : ∀ t, read (g :: t) = next t) {t : Text} (h : PointsAtFault next t) :
    PointsAtFault read (g :: t) := by
  have viable (p : Text) : Viable read (g :: p) ↔ Viable next p := by
    unfold Viable
    simp only [List.cons_append, go]
  intro e rest failed
  rw [go] at failed
  obtain ⟨p, faulty, rfl, blames, before, impossible⟩ := h e rest failed
  refine ⟨g :: p, faulty, rfl, blames, (viable p).2 before, ?_⟩
  intro x hx
  rw [List.cons_append, viable]
  exact impossible x hx

/-- What is done with the result does not move errors. -/
theorem pointsAtFault_map_iff {read : Text → Reading α} {f : α → β} {t : Text} :
    PointsAtFault (fun t => (read t).map f) t ↔ PointsAtFault read t := by
  have viable (p : Text) : Viable (fun t => (read t).map f) p ↔ Viable read p := by
    unfold Viable
    simp only [Reading.whole_map_eq_ok_iff]
    constructor
    · rintro ⟨u, -, a, h, -⟩
      exact ⟨u, a, h⟩
    · rintro ⟨u, a, h⟩
      exact ⟨u, f a, a, h, rfl⟩
  unfold PointsAtFault
  simp only [viable, Reading.ended_map, Reading.map_eq_fail_iff]

/-- The position of the fault when `rest` is left unread: where reading stopped, or one glyph before
that if the error has an offending glyph. -/
def ParseError.fault (e : ParseError) (text rest : Text) : Nat :=
  if e.glyph?.isSome then position text rest - 1 else position text rest

theorem ParseError.Blames.fault_eq {e : ParseError} {faulty rest : Text} (h : e.Blames faulty rest)
    (p : Text) : e.fault (p ++ faulty) rest = p.length := by
  unfold ParseError.Blames at h
  unfold ParseError.fault position
  cases glyph : e.glyph? with
  | none =>
    rw [glyph] at h
    subst h
    simp
  | some g =>
    rw [glyph] at h
    subst h
    simp
    omega

/-- What comes before position `q` of the text can be continued to an accepted text, and if a glyph
stands there, no accepted text begins with the text up to and with that glyph. -/
structure FaultAt (parse : Text → Except ParseError α) (t : Text) (q : Nat) : Prop where
  viable : ∃ u a, parse (t.take q ++ u) = .ok a
  impossible : q < t.length → ∀ u a, parse (t.take (q + 1) ++ u) ≠ .ok a

theorem PointsAtFault.faultAt {read : Text → Reading α} {t : Text} (h : PointsAtFault read t)
    {e : ParseError} (failed : (read t).whole = .error e) :
    FaultAt (fun t => (read t).whole) t (e.fault t (read t).ended.rest) := by
  rw [← Reading.outcome_ended] at failed
  cases ended : (read t).ended with
  | ok a rest =>
    rw [ended] at failed
    cases failed
  | fail e' rest =>
    rw [ended] at failed
    cases failed
    obtain ⟨p, faulty, rfl, blames, viable, impossible⟩ := h e rest ended
    rw [Reading.rest, blames.fault_eq]
    constructor
    · rw [List.take_left]
      exact viable
    · intro inside u a accepted
      cases faulty with
      | nil => simp at inside
      | cons g faulty =>
        apply impossible g rfl
        have upTo : (p ++ g :: faulty).take (p.length + 1) = p ++ [g] :=
          List.take_length_add_append 1
        rw [upTo] at accepted
        exact ⟨u, a, accepted⟩

end GdbMi
