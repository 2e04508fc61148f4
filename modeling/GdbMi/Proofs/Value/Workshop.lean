import GdbMi.Proofs.Value.Tasks
import GdbMi.Proofs.Value.Workshop.Places

/-!
# Field lists stay as they were handed over

A workshop, which writes in place, does what a bench does that keeps and hands over values
(`Workshop.Mirrors.perform`, `Workshop.Mirrors.run`). Main statement: `handed_over_for_good`.
-/

namespace GdbMi
set_option autoImplicit false

theorem Cell.Reads.add {cells : List Cell} {c : Cell} {f : FieldList} (h : c.Reads cells f)
    (key : Key) {v : Stored} {x : Value} (reads : v.Reads cells x) :
    (c.add key v).Reads cells { f with entries := f.entries ++ [(key, x)] } :=
  ⟨h.1, List.rel_append h.2 (.cons ⟨rfl, reads⟩ .nil)⟩

/-! ## The workshop beside the bench -/

namespace Workshop

/-- The builders hold what reads as the entries at the bench, and all that is known can be read. -/
structure Mirrors (w : Workshop) (bench : Bench) : Prop where
  sound : w.Sound
  pages : ∀ name, (w.page name).Reads w.cells (bench.builder name).build.1
  readable : ∀ place ∈ w.known, ∃ f : FieldList, (Stored.fields place).Reads w.cells f.toValue

/-- After a task both go on side by side, and what came of it is the same. -/
structure Proceeds (w w' : Workshop) (outcome : Outcome Nat) (bench' : Bench)
    (result : Outcome FieldList) : Prop where
  leads : Leads w w'
  mirrors : w'.Mirrors bench'
  reads : outcome.Reads w'.cells result
  handed : ∀ place, outcome = .handed place → place ∈ w'.known

variable {w w' : Workshop} {bench : Bench}

namespace Mirrors

theorem empty : Mirrors {} [] where
  sound := ⟨nofun, nofun, nofun, nofun, nofun⟩
  pages _ := ⟨rfl, .nil⟩
  readable := nofun

/-- What is known reads the same in a later workshop. -/
theorem readable_of_leads (h : w.Mirrors bench) (leads : Leads w w') :
    ∀ place ∈ w.known, ∃ f : FieldList, (Stored.fields place).Reads w'.cells f.toValue := by
  intro place hp
  obtain ⟨f, reads⟩ := h.readable place hp
  exact ⟨f, leads.agree.reads (.fields hp) reads⟩

theorem pages_of_leads (h : w.Mirrors bench) (leads : Leads w w') (name : String) :
    (w.page name).Reads w'.cells (bench.builder name).build.1 :=
  leads.agree.cellReads (h.sound.page_within name) (h.pages name)

/-! ### What is known can be read -/

theorem exists_reads (h : w.Mirrors bench) {v : Stored} (within : v.Within w.known) :
    ∃ x, v.Reads w.cells x := by
  induction within with
  | text s => exact ⟨_, .text s⟩
  | list _ ih =>
    obtain ⟨vs, each⟩ := exists_forall₂ ih
    exact ⟨_, .list each⟩
  | fields hp =>
    obtain ⟨f, reads⟩ := h.readable _ hp
    exact ⟨_, reads⟩

theorem exists_offerReads (h : w.Mirrors bench) {o : Offer} (within : o.Within w.known) :
    ∃ p, o.Reads w.cells p := by
  induction within with
  | text s => exact ⟨_, .text s⟩
  | list _ ih =>
    obtain ⟨ps, each⟩ := exists_forall₂ ih
    exact ⟨_, .list each⟩
  | value within =>
    obtain ⟨x, reads⟩ := h.exists_reads within
    exact ⟨_, .value reads⟩
  | foreign => exact ⟨_, .foreign⟩

theorem exists_taskReads (h : w.Mirrors bench) {task : Task Offer Cell}
    (within : task.Within w.known) : ∃ t, task.Reads w.cells t := by
  cases task with
  | add name key o =>
    obtain ⟨p, reads⟩ := h.exists_offerReads within
    exact ⟨_, .add reads⟩
  | build name => exact ⟨_, .build name⟩
  | bring c =>
    have each : ∀ e ∈ c.entries, ∃ e' : Key × Value, e.1 = e'.1 ∧ e.2.Reads w.cells e'.2 := by
      intro e he
      obtain ⟨x, reads⟩ := h.exists_reads (within e he)
      exact ⟨(e.1, x), rfl, reads⟩
    obtain ⟨entries, reads⟩ := exists_forall₂ each
    exact ⟨.bring { enclosed := c.enclosed, entries }, .bring ⟨rfl, reads⟩⟩

/-! ### One task -/

theorem proceeds_add (h : w.Mirrors bench) (name : String) (key : Key) {o : Offer} {p : Plain}
    (within : o.Within w.known) (reads : o.Reads w.cells p) :
    Proceeds w (w.perform (.add name key o)).2 (w.perform (.add name key o)).1
      (bench.perform (.add name key p)).2 (bench.perform (.add name key p)).1 := by
  rcases reads.convertsAs with ⟨v, x, stored, converted, read⟩ | ⟨e, stored, converted⟩
  · simp only [Workshop.perform, stored, Bench.perform, Bench.add_of_ok bench name key converted]
    have sound := h.sound.started name
    have drafted := Sound.lookup_started w name
    have begins := h.sound.leads_started name
    have leads := begins.trans (Sound.leads_write drafted sound key v)
    refine ⟨leads, ⟨?sound, ?pages, ?readable⟩, .added, fun _ handed => by cases handed⟩
    case sound =>
      exact Sound.write drafted sound key ((within.toStored stored).mono begins.known)
    case pages =>
      intro other
      rw [Sound.page_write drafted sound, Bench.builder_set, h.sound.page_started,
        h.sound.page_started]
      split
      · have added := leads.agree.reads (within.toStored stored) read
        exact (h.pages_of_leads leads name).add key added
      · exact h.pages_of_leads leads other
    case readable =>
      have same : ((w.started name).write name key v).known = w.known := Sound.known_started w name
      rw [same]
      exact h.readable_of_leads leads
  · simp only [Workshop.perform, stored, Bench.perform, Bench.add_of_error bench name key converted]
    exact ⟨.refl h.sound, h, .refused e, fun _ handed => by cases handed⟩

theorem proceeds_build (h : w.Mirrors bench) (name : String) :
    Proceeds w (w.perform (.build name)).2 (w.perform (.build name)).1
      (bench.perform (.build name)).2 (bench.perform (.build name)).1 := by
  simp only [Workshop.perform, Bench.perform, Bench.build]
  have sound := h.sound.started name
  have drafted := Sound.lookup_started w name
  have renewed := sound.renew name
  have leads := (h.sound.leads_started name).trans
    ((sound.leads_renew name).trans (renewed.leads_hand (w.draft name)))
  -- what is handed over is what the builder has written so far
  have found : ((w.started name).renew name).cells[w.draft name]? = some (w.page name) := by
    rw [← h.sound.page_started name name, ← sound.getElem?_of_lookup drafted]
    exact List.getElem?_append_left (sound.draft_lt name _ drafted)
  have handed : (Stored.fields (w.draft name)).Reads
      (((w.started name).renew name).hand (w.draft name)).cells
      (bench.builder name).build.1.toValue :=
    Stored.reads_fields_iff.2 ⟨_, _, found, h.pages_of_leads leads name, rfl⟩
  refine ⟨leads, ⟨?sound, ?pages, ?readable⟩, .handed handed, ?known⟩
  case sound =>
    exact renewed.hand (List.getElem?_eq_some_iff.1 found).1 (sound.free_of_renew drafted)
  case pages =>
    intro other
    have page : (((w.started name).renew name).hand (w.draft name)).page other
        = if other = name then {} else w.page other := by
      rw [← h.sound.page_started name other, ← sound.page_renew name other]
      rfl
    rw [page, Bench.builder_set]
    split
    · exact ⟨rfl, .nil⟩
    · exact h.pages_of_leads leads other
  case readable =>
    have same : (((w.started name).renew name).hand (w.draft name)).known
        = w.draft name :: w.known := congrArg (w.draft name :: ·) (Sound.known_started w name)
    rw [same]
    exact List.forall_mem_cons.2 ⟨⟨_, handed⟩, h.readable_of_leads leads⟩
  case known =>
    rintro place ⟨⟩
    exact List.mem_cons_self

theorem proceeds_bring (h : w.Mirrors bench) {c : Cell} {f : FieldList}
    (within : c.Within w.known) (reads : c.Reads w.cells f) :
    Proceeds w (w.perform (.bring c)).2 (w.perform (.bring c)).1
      (bench.perform (.bring f)).2 (bench.perform (.bring f)).1 := by
  simp only [Workshop.perform, Bench.perform]
  have laid := h.sound.lay within
  have leads := (h.sound.leads_lay c).trans (laid.leads_hand w.cells.length)
  have found : (w.lay c).cells[w.cells.length]? = some c := List.getElem?_concat_length
  have handed : (Stored.fields w.cells.length).Reads
      ((w.lay c).hand w.cells.length).cells f.toValue :=
    Stored.reads_fields_iff.2 ⟨c, f, found, leads.agree.cellReads within reads, rfl⟩
  refine ⟨leads, ⟨?sound, ?pages, ?readable⟩, .handed handed, ?known⟩
  case sound =>
    refine laid.hand (List.getElem?_eq_some_iff.1 found).1 fun name drafted => ?_
    exact Nat.lt_irrefl _ (h.sound.draft_lt name _ drafted)
  case pages =>
    intro name
    have page : ((w.lay c).hand w.cells.length).page name = w.page name := h.sound.page_lay c name
    rw [page]
    exact h.pages_of_leads leads name
  case readable =>
    exact List.forall_mem_cons.2 ⟨⟨_, handed⟩, h.readable_of_leads leads⟩
  case known =>
    rintro place ⟨⟩
    exact List.mem_cons_self

/-- One task. -/
theorem perform (h : w.Mirrors bench) {task : Task Offer Cell} {t : Task Plain FieldList}
    (within : task.Within w.known) (reads : task.Reads w.cells t) :
    Proceeds w (w.perform task).2 (w.perform task).1 (bench.perform t).2 (bench.perform t).1 := by
  cases reads with
  | add read => exact h.proceeds_add _ _ within read
  | build name => exact h.proceeds_build name
  | bring read => exact h.proceeds_bring within read

/-- Any tasks: the workshop and the bench do the same, and what comes of a task can still be read in
the end. -/
theorem run (h : w.Mirrors bench) {tasks : List (Task Offer Cell)} (permitted : w.Permits tasks) :
    ∃ ts, List.Forall₂ (Task.Reads (w.after tasks).cells) tasks ts ∧
      List.Forall₂ (Outcome.Reads (w.after tasks).cells) (w.outcomes tasks) (bench.outcomes ts) ∧
      (w.after tasks).Mirrors (bench.after ts) ∧ Leads w (w.after tasks) := by
  induction tasks generalizing w bench with
  | nil => exact ⟨[], .nil, .nil, h, .refl h.sound⟩
  | cons task tasks ih =>
    obtain ⟨within, permitted⟩ := permitted
    obtain ⟨t, reads⟩ := h.exists_taskReads within
    have first := h.perform within reads
    obtain ⟨ts, all, outcomes, mirrors, leads⟩ := ih first.mirrors permitted
    have whole := first.leads.trans leads
    exact ⟨t :: ts, .cons (whole.agree.taskReads within reads) all,
      .cons (leads.agree.outcomeReads first.handed first.reads) outcomes, mirrors, whole⟩

/-- What was handed over is known from then on. -/
theorem mem_known_of_handed (h : w.Mirrors bench) {tasks : List (Task Offer Cell)} {place : Nat}
    (permitted : w.Permits tasks) (handed : .handed place ∈ w.outcomes tasks) :
    place ∈ (w.after tasks).known := by
  induction tasks generalizing w bench with
  | nil => cases handed
  | cons task tasks ih =>
    obtain ⟨within, permitted⟩ := permitted
    obtain ⟨t, reads⟩ := h.exists_taskReads within
    have first := h.perform within reads
    rcases List.mem_cons.1 handed with now | later
    · obtain ⟨_, _, _, _, leads⟩ := first.mirrors.run permitted
      exact leads.known (first.handed place now.symm)
    · exact ih first.mirrors permitted later

end Mirrors

theorem after_append (w : Workshop) (before later : List (Task Offer Cell)) :
    w.after (before ++ later) = (w.after before).after later := List.foldl_append

theorem permits_append {before later : List (Task Offer Cell)} :
    w.Permits (before ++ later) ↔ w.Permits before ∧ (w.after before).Permits later := by
  induction before generalizing w with
  | nil => simp [Permits, after]
  | cons task before ih =>
    rw [List.cons_append, Permits, Permits, ih, and_assoc]
    rfl

end Workshop

/-- At a bench the outcome of a task is known from the tasks before it, and a task that is refused
changes nothing. A workshop, which hands over the field lists that it has written into, does the
same as the bench: each task reads as one at the bench, and its outcome reads in the end as the one
there. Whatever is done later, a field list that was handed over lies there as it did, and it reads
as one field list, the same as before. -/
theorem handed_over_for_good :
    (∀ before task, ((Bench.after [] before).perform task).1 = task.expected before ∧
      ∀ e, task.expected before = .refused e →
        ((Bench.after [] before).perform task).2 = Bench.after [] before) ∧
    (∀ tasks, Workshop.Permits {} tasks →
      ∃ ts, List.Forall₂ (Task.Reads (Workshop.after {} tasks).cells) tasks ts ∧
        List.Forall₂ (Outcome.Reads (Workshop.after {} tasks).cells)
          (Workshop.outcomes {} tasks) (Bench.outcomes [] ts)) ∧
    (∀ before later, Workshop.Permits {} (before ++ later) →
      ∀ place, .handed place ∈ Workshop.outcomes {} before →
        (Workshop.after {} (before ++ later)).cells[place]?
            = (Workshop.after {} before).cells[place]? ∧
          ∃ f : FieldList, ∀ x,
            ((Stored.fields place).Reads (Workshop.after {} before).cells x ↔ x = f.toValue) ∧
            ((Stored.fields place).Reads (Workshop.after {} (before ++ later)).cells x
              ↔ x = f.toValue)) ∧
    ∀ (w : Workshop) (task : Task Offer Cell) (e : PlainError),
      (w.perform task).1 = .refused e → (w.perform task).2 = w := by
  refine ⟨Bench.perform_after, fun tasks permitted => ?reads,
    fun before later permitted place handed => ?stays, fun w task e refused => ?unchanged⟩
  case reads =>
    obtain ⟨ts, all, outcomes, -, -⟩ := Workshop.Mirrors.empty.run permitted
    exact ⟨ts, all, outcomes⟩
  case stays =>
    obtain ⟨first, rest⟩ := Workshop.permits_append.1 permitted
    have known := Workshop.Mirrors.empty.mem_known_of_handed first handed
    obtain ⟨_, _, _, mirrors, -⟩ := Workshop.Mirrors.empty.run first
    obtain ⟨_, _, _, -, leads⟩ := mirrors.run rest
    obtain ⟨f, reads⟩ := mirrors.readable place known
    have still := leads.agree.reads (.fields known) reads
    rw [Workshop.after_append]
    exact ⟨leads.agree.same place known, f, fun x => ⟨reads.reads_iff, still.reads_iff⟩⟩
  case unchanged =>
    cases task with
    | add name key o =>
      rw [Workshop.perform] at refused ⊢
      cases converted : o.toStored with
      | ok v =>
        rw [converted] at refused
        cases refused
      | error e => rfl
    | build name => cases refused
    | bring c => cases refused

/-- A number inside a list is refused, and what was built is put into another field list while its
builder goes on. -/
theorem handed_over_for_good_nested :
    let before : List (Task Offer Cell) :=
      [.add "a" .bare (.text "x"),
        .add "a" .bare (.list [.text "y", .list [.foreign (.int 1) rfl, .foreign .none rfl]]),
        .build "a"]
    let later : List (Task Offer Cell) :=
      [.add "b" .unnamed (.list [.value (.fields 0)]), .add "a" .bare (.text "z"), .build "b",
        .build "a"]
    Workshop.outcomes {} (before ++ later)
        = [.added, .refused (.notConvertible "int"), .handed 0, .added, .added, .handed 2,
          .handed 1] ∧
      ∀ x, (Stored.fields 0).Reads (Workshop.after {} (before ++ later)).cells x
        ↔ x = .fields false [(.bare, .text "x")] := by
  intro before later
  have permitted : Workshop.Permits {} (before ++ later) := by
    refine ⟨.text "x", .list ?_, trivial, .list ?_, .text "z", trivial, trivial, trivial⟩
    · have numbers : ∀ o ∈ [Offer.foreign (.int 1) rfl, .foreign .none rfl], o.Within [] :=
        List.forall_mem_cons.2 ⟨.foreign, List.forall_mem_singleton.2 .foreign⟩
      exact List.forall_mem_cons.2 ⟨.text "y", List.forall_mem_singleton.2 (.list numbers)⟩
    · exact List.forall_mem_singleton.2 (.value (.fields (.head _)))
  have handed : .handed 0 ∈ Workshop.outcomes {} before := .tail _ (.tail _ (.head _))
  obtain ⟨-, -, stays, -⟩ := handed_over_for_good
  obtain ⟨-, f, only⟩ := stays before later permitted 0 handed
  have built : (Stored.fields 0).Reads (Workshop.after {} before).cells
      (.fields false [(.bare, .text "x")]) :=
    Stored.reads_fields_iff.2 ⟨{ entries := [(.bare, .text "x")] },
      { enclosed := false, entries := [(.bare, .text "x")] }, rfl,
      ⟨rfl, .cons ⟨rfl, .text "x"⟩ .nil⟩, rfl⟩
  have same := (only _).1.1 built
  refine ⟨rfl, fun x => ?_⟩
  rw [same]
  exact (only x).2

end GdbMi
