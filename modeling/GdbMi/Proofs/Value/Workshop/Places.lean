import GdbMi.Proofs.Value.Stored

/-!
# The places of a workshop

Callers know the places of field lists that were handed over, and each builder writes at a place of
its own that nobody knows (`Workshop.Sound`). So nothing that is done changes what can be read from
what is known (`Workshop.Leads`), and what is done for one builder leaves what another one has
written (`Workshop.page`) as it is.
-/

namespace GdbMi
set_option autoImplicit false

theorem Stored.Within.mono {known more : List Nat} {v : Stored} (h : v.Within known)
    (grows : known ⊆ more) : v.Within more := by
  induction h with
  | text s => exact .text s
  | list _ ih => exact .list ih
  | fields hp => exact .fields (grows hp)

namespace Workshop

/-- All that lies in the workshop refers to known places, and builders write at places that nobody
knows, each at one of its own. -/
structure Sound (w : Workshop) : Prop where
  within : ∀ (place : Nat) (c : Cell), w.cells[place]? = some c → c.Within w.known
  known_lt : ∀ place ∈ w.known, place < w.cells.length
  draft_lt : ∀ name place, w.drafts.lookup name = some place → place < w.cells.length
  unknown : ∀ name place, w.drafts.lookup name = some place → place ∉ w.known
  own : ∀ name other place, w.drafts.lookup name = some place →
    w.drafts.lookup other = some place → name = other

/-- What is known in the first workshop is known in the second one, and reads the same there. -/
structure Leads (w w' : Workshop) : Prop where
  agree : Agree w.known w.cells w'.cells
  known : w.known ⊆ w'.known

/-- The field list that the builder of the name writes into. -/
def page (w : Workshop) (name : String) : Cell := (w.cells[w.draft name]?).getD {}

variable {w w' : Workshop}

theorem Leads.trans {w'' : Workshop} (h : Leads w w') (h' : Leads w' w'') : Leads w w'' where
  agree := h.agree.trans h'.agree h.known
  known := List.Subset.trans h.known h'.known

theorem Leads.refl (h : w.Sound) : Leads w w where
  agree := ⟨fun _ _ => rfl, fun place _ => h.within place⟩
  known := List.Subset.refl _

theorem draft_eq_of_lookup {name : String} {place : Nat}
    (drafted : w.drafts.lookup name = some place) : w.draft name = place := by
  rw [draft, drafted, Option.getD_some]

theorem page_eq_of_lookup {name : String} {place : Nat}
    (drafted : w.drafts.lookup name = some place) : w.page name = (w.cells[place]?).getD {} := by
  rw [page, draft_eq_of_lookup drafted]

theorem page_of_lookup_eq_none {name : String} (none : w.drafts.lookup name = none) :
    w.page name = {} := by
  rw [page, draft, none, Option.getD_none, List.getElem?_eq_none (Nat.le_refl _), Option.getD_none]

theorem lookup_renew (w : Workshop) (name other : String) :
    (w.renew name).drafts.lookup other
      = if other = name then some w.cells.length else w.drafts.lookup other := by
  simp only [renew, List.lookup_cons]
  split <;> simp_all

namespace Sound

theorem leads_of_same (h : w.Sound) (same : ∀ place ∈ w.known, w'.cells[place]? = w.cells[place]?)
    (known : w.known ⊆ w'.known) : Leads w w' where
  agree := ⟨same, fun place _ => h.within place⟩
  known := known

theorem page_within (h : w.Sound) (name : String) : (w.page name).Within w.known := by
  rw [page]
  cases found : w.cells[w.draft name]? with
  | none => exact nofun
  | some c => exact h.within _ c found

/-! ### A new place -/

theorem lay (h : w.Sound) {c : Cell} (within : c.Within w.known) : (w.lay c).Sound where
  within place c' found := by
    rcases List.mem_append.1 (List.mem_of_getElem? found) with old | new
    · obtain ⟨place', found'⟩ := List.getElem?_of_mem old
      exact h.within place' c' found'
    · rw [List.mem_singleton.1 new]
      exact within
  known_lt place hp := by
    have := h.known_lt place hp
    rw [Workshop.lay, List.length_append]
    omega
  draft_lt name place drafted := by
    have := h.draft_lt name place drafted
    rw [Workshop.lay, List.length_append]
    omega
  unknown := h.unknown
  own := h.own

theorem leads_lay (h : w.Sound) (c : Cell) : Leads w (w.lay c) :=
  h.leads_of_same (fun place hp => List.getElem?_append_left (h.known_lt place hp))
    (List.Subset.refl _)

theorem page_lay (h : w.Sound) (c : Cell) (name : String) : (w.lay c).page name = w.page name := by
  cases drafted : w.drafts.lookup name with
  | none => rw [page_of_lookup_eq_none drafted, page_of_lookup_eq_none (w := w.lay c) drafted]
  | some place =>
    rw [page_eq_of_lookup drafted, page_eq_of_lookup (w := w.lay c) drafted, Workshop.lay,
      List.getElem?_append_left (h.draft_lt name place drafted)]

theorem renew (h : w.Sound) (name : String) : (w.renew name).Sound where
  within := (h.lay (c := {}) nofun).within
  known_lt := (h.lay (c := {}) nofun).known_lt
  draft_lt other place drafted := by
    rw [lookup_renew] at drafted
    split at drafted
    · cases drafted
      simp [Workshop.renew, Workshop.lay]
    · exact (h.lay (c := {}) nofun).draft_lt other place drafted
  unknown other place drafted := by
    rw [lookup_renew] at drafted
    split at drafted
    · cases drafted
      exact fun hp => Nat.lt_irrefl _ (h.known_lt _ hp)
    · exact h.unknown other place drafted
  own first second place drafted drafted' := by
    have fresh (other : String) : w.drafts.lookup other ≠ some w.cells.length :=
      fun old => Nat.lt_irrefl _ (h.draft_lt other _ old)
    rw [lookup_renew] at drafted drafted'
    split at drafted <;> split at drafted'
    · next same same' => rw [same, same']
    · cases drafted
      exact absurd drafted' (fresh second)
    · cases drafted'
      exact absurd drafted (fresh first)
    · exact h.own first second place drafted drafted'

theorem leads_renew (h : w.Sound) (name : String) : Leads w (w.renew name) where
  agree := (h.leads_lay {}).agree
  known := List.Subset.refl _

/-- The builder that goes on has an empty field list, and the others have theirs. -/
theorem page_renew (h : w.Sound) (name other : String) :
    (w.renew name).page other = if other = name then {} else w.page other := by
  have drafted := lookup_renew w name other
  split at drafted
  · next same =>
    rw [if_pos same, page_eq_of_lookup drafted]
    simp [Workshop.renew, Workshop.lay]
  · next different =>
    have laid : (w.renew name).page other = (w.lay {}).page other := by
      rw [page, draft, drafted]
      rfl
    rw [if_neg different, laid, h.page_lay]

/-! ### The place of a builder -/

/-- A builder that begins has an empty field list, and it counts as having it before. -/
theorem started_cases (w : Workshop) (name : String) :
    w.started name = w ∧ w.drafts.lookup name = some (w.draft name) ∨
      w.started name = w.renew name ∧ w.drafts.lookup name = none := by
  rw [started]
  cases drafted : w.drafts.lookup name with
  | none => exact .inr ⟨rfl, rfl⟩
  | some place => exact .inl ⟨rfl, by rw [draft_eq_of_lookup drafted]⟩

theorem started (h : w.Sound) (name : String) : (w.started name).Sound := by
  rcases started_cases w name with ⟨same, -⟩ | ⟨begun, -⟩
  · rwa [same]
  · rw [begun]
    exact h.renew name

theorem leads_started (h : w.Sound) (name : String) : Leads w (w.started name) := by
  rcases started_cases w name with ⟨same, -⟩ | ⟨begun, -⟩
  · rw [same]
    exact .refl h
  · rw [begun]
    exact h.leads_renew name

theorem page_started (h : w.Sound) (name other : String) :
    (w.started name).page other = w.page other := by
  rcases started_cases w name with ⟨same, -⟩ | ⟨begun, none⟩
  · rw [same]
  · rw [begun, h.page_renew]
    split
    · next eq => rw [eq, page_of_lookup_eq_none none]
    · rfl

theorem known_started (w : Workshop) (name : String) : (w.started name).known = w.known := by
  rcases started_cases w name with ⟨same, -⟩ | ⟨begun, -⟩
  · rw [same]
  · rw [begun]
    rfl

theorem lookup_started (w : Workshop) (name : String) :
    (w.started name).drafts.lookup name = some (w.draft name) := by
  rcases started_cases w name with ⟨same, drafted⟩ | ⟨begun, none⟩
  · rw [same, drafted]
  · rw [begun, lookup_renew, if_pos rfl, draft, none, Option.getD_none]

/-- The field list of a builder lies at its place. -/
theorem getElem?_of_lookup (h : w.Sound) {name : String} {place : Nat}
    (drafted : w.drafts.lookup name = some place) : w.cells[place]? = some (w.page name) := by
  rw [page_eq_of_lookup drafted, List.getElem?_eq_getElem (h.draft_lt name place drafted),
    Option.getD_some]

/-! ### Writing and handing over -/

section
variable {name : String} {place : Nat} (drafted : w.drafts.lookup name = some place)
include drafted

theorem write (h : w.Sound) (key : Key) {v : Stored} (within : v.Within w.known) :
    (w.write name key v).Sound where
  within other c found := by
    rw [Workshop.write, draft_eq_of_lookup drafted, List.getElem?_modify] at found
    obtain ⟨c', before, rfl⟩ := Option.map_eq_some_iff.1 found
    have old := h.within other c' before
    split
    · exact List.forall_mem_append.2 ⟨old, List.forall_mem_singleton.2 within⟩
    · exact old
  known_lt other hp := by
    rw [Workshop.write, List.length_modify]
    exact h.known_lt other hp
  draft_lt other place' drafted' := by
    rw [Workshop.write, List.length_modify]
    exact h.draft_lt other place' drafted'
  unknown := h.unknown
  own := h.own

theorem leads_write (h : w.Sound) (key : Key) (v : Stored) : Leads w (w.write name key v) := by
  refine h.leads_of_same (fun other hp => ?_) (List.Subset.refl _)
  have different : place ≠ other := by
    rintro rfl
    exact h.unknown name place drafted hp
  rw [Workshop.write, draft_eq_of_lookup drafted, List.getElem?_modify_ne _ _ different]

/-- An entry that is written goes to the builder of the name only. -/
theorem page_write (h : w.Sound) (key : Key) (v : Stored) (other : String) :
    (w.write name key v).page other
      = if other = name then (w.page name).add key v else w.page other := by
  have cells : (w.write name key v).cells = w.cells.modify place (·.add key v) := by
    rw [Workshop.write, draft_eq_of_lookup drafted]
  split
  · next same =>
    subst same
    rw [page_eq_of_lookup (w := w.write other key v) drafted, cells, List.getElem?_modify_eq,
      h.getElem?_of_lookup drafted]
    rfl
  · next different =>
    cases drafted' : w.drafts.lookup other with
    | none =>
      rw [page_of_lookup_eq_none drafted', page_of_lookup_eq_none (w := w.write name key v) drafted']
    | some place' =>
      have apart : place ≠ place' := by
        rintro rfl
        exact different (h.own other name place drafted' drafted)
      rw [page_eq_of_lookup drafted', page_eq_of_lookup (w := w.write name key v) drafted', cells,
        List.getElem?_modify_ne _ _ apart]

end

theorem hand (h : w.Sound) {place : Nat} (lt : place < w.cells.length)
    (free : ∀ name, w.drafts.lookup name ≠ some place) : (w.hand place).Sound where
  within other c found := fun e he =>
    (h.within other c found e he).mono (List.subset_cons_self place w.known)
  known_lt := List.forall_mem_cons.2 ⟨lt, h.known_lt⟩
  draft_lt := h.draft_lt
  unknown name other drafted := by
    rintro (_ | ⟨_, hp⟩)
    · exact free name drafted
    · exact h.unknown name other drafted hp
  own := h.own

theorem leads_hand (h : w.Sound) (place : Nat) : Leads w (w.hand place) :=
  h.leads_of_same (fun _ _ => rfl) (List.subset_cons_self place w.known)

/-- Nobody writes any more at the place of a builder that goes on at another one. -/
theorem free_of_renew (h : w.Sound) {name : String} {place : Nat}
    (drafted : w.drafts.lookup name = some place) (other : String) :
    (w.renew name).drafts.lookup other ≠ some place := by
  rw [lookup_renew]
  split
  · intro new
    have := h.draft_lt name place drafted
    rw [Option.some.inj new] at this
    exact Nat.lt_irrefl _ this
  · next different => exact fun old => different (h.own other name place old drafted)

end Sound

end Workshop

end GdbMi
