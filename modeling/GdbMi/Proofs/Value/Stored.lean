import GdbMi.Proofs.Value.Image
import GdbMi.Proofs.Value.Sameness
import GdbMi.Value.Workshop

/-!
# Reading from a store

What a value reads as where field lists lie at places: one value at most (`Stored.Reads.unique`).
Two stores that agree on the known places read the same for all that refers to these
(`Agree.reads`). Data that reads as other data is converted in the same way, and to a value that
reads as the other one (`Offer.Reads.convertsAs`).
-/

namespace GdbMi
set_option autoImplicit false

theorem forall₂_unique_of_mem {α β : Type} {R : α → β → Prop} {xs : List α} {ys zs : List β}
    (unique : ∀ y ∈ ys, ∀ x z, R x y → R x z → y = z) (first : List.Forall₂ R xs ys)
    (second : List.Forall₂ R xs zs) : ys = zs := by
  induction first generalizing zs with
  | nil =>
    cases second
    rfl
  | cons related _ ih =>
    rw [List.forall_mem_cons] at unique
    cases second with
    | cons related' rest => rw [unique.1 _ _ related related', ih unique.2 rest]

/-! ## What is read from a store -/

/-- What the value reads as, where each field list is at its place. -/
inductive Stored.Reads (cells : List Cell) : Stored → Value → Prop where
  | text (s : String) : Reads cells (.text s) (.text s)
  | list {items : List Stored} {vs : List Value} :
      List.Forall₂ (Reads cells) items vs → Reads cells (.list items) (.list vs)
  | fields {place : Nat} {c : Cell} {entries : List (Key × Value)} : cells[place]? = some c →
      c.entries.map Prod.fst = entries.map Prod.fst →
      List.Forall₂ (Reads cells) (c.entries.map Prod.snd) (entries.map Prod.snd) →
      Reads cells (.fields place) (.fields c.enclosed entries)

/-- What the field list reads as, entry by entry. -/
def Cell.Reads (cells : List Cell) (c : Cell) (f : FieldList) : Prop :=
  c.enclosed = f.enclosed ∧
    List.Forall₂ (fun e e' => e.1 = e'.1 ∧ e.2.Reads cells e'.2) c.entries f.entries

/-- What the data reads as. -/
inductive Offer.Reads (cells : List Cell) : Offer → Plain → Prop where
  | text (s : String) : Reads cells (.text s) (.text s)
  | list {items : List Offer} {ps : List Plain} :
      List.Forall₂ (Reads cells) items ps → Reads cells (.list items) (.list ps)
  | value {v : Stored} {x : Value} : v.Reads cells x → Reads cells (.value v) (.value x)
  | foreign {p : Plain} {no : p.isForeign = true} : Reads cells (.foreign p no) p

/-- The tasks are the same, but for places in one and what is read there in the other. -/
inductive Task.Reads (cells : List Cell) : Task Offer Cell → Task Plain FieldList → Prop where
  | add {name : String} {key : Key} {o : Offer} {p : Plain} : o.Reads cells p →
      Reads cells (.add name key o) (.add name key p)
  | build (name : String) : Reads cells (.build name) (.build name)
  | bring {c : Cell} {f : FieldList} : c.Reads cells f → Reads cells (.bring c) (.bring f)

/-- The outcomes are the same, but for places in one and what is read there in the other. -/
inductive Outcome.Reads (cells : List Cell) : Outcome Nat → Outcome FieldList → Prop where
  | added : Reads cells .added .added
  | refused (e : PlainError) : Reads cells (.refused e) (.refused e)
  | handed {place : Nat} {f : FieldList} : (Stored.fields place).Reads cells f.toValue →
      Reads cells (.handed place) (.handed f)

section
variable {cells cells' : List Cell} {known : List Nat}

theorem Stored.reads_fields_iff {place : Nat} {x : Value} :
    (Stored.fields place).Reads cells x ↔
      ∃ c f, cells[place]? = some c ∧ c.Reads cells f ∧ x = f.toValue := by
  constructor
  · intro h
    cases h with
    | @fields _ c entries found keys values =>
      exact ⟨c, { enclosed := c.enclosed, entries }, found,
        ⟨rfl, Keyed.forall₂_keyed_iff.2 ⟨keys, values⟩⟩, rfl⟩
  · rintro ⟨c, f, found, ⟨enclosed, entries⟩, rfl⟩
    obtain ⟨keys, values⟩ := Keyed.forall₂_keyed_iff.1 entries
    rw [FieldList.toValue, ← enclosed]
    exact .fields found keys values

theorem Stored.Reads.exists_place {v : Stored} {f : FieldList} (h : v.Reads cells f.toValue) :
    ∃ place c, v = .fields place ∧ cells[place]? = some c ∧ c.Reads cells f := by
  obtain ⟨enclosed, entries⟩ := f
  cases h with
  | @fields place c _ found keys values =>
    exact ⟨place, c, rfl, found, rfl, Keyed.forall₂_keyed_iff.2 ⟨keys, values⟩⟩

/-- A value reads as one value only. -/
theorem Stored.Reads.unique {v : Stored} {x y : Value} (h : v.Reads cells x)
    (h' : v.Reads cells y) : x = y := by
  induction x using Value.inductionOn generalizing v y with
  | text s =>
    cases h
    cases h'
    rfl
  | list vs ih =>
    cases h with
    | list items =>
      cases h' with
      | list items' =>
        have same := forall₂_unique_of_mem (R := Stored.Reads cells)
          (fun x hx v y first second => ih x hx first second) items items'
        rw [same]
  | fields enclosed entries ih =>
    obtain ⟨place, c, rfl, found, braces, reads⟩ := h.exists_place (f := { enclosed, entries })
    obtain ⟨c', f, found', ⟨braces', reads'⟩, rfl⟩ := reads_fields_iff.1 h'
    obtain rfl := Option.some.inj (found.symm.trans found')
    have same : entries = f.entries := by
      refine forall₂_unique_of_mem (fun e he e₀ e' first second => ?_) reads reads'
      exact Prod.ext (first.1.symm.trans second.1) (ih e he first.2 second.2)
    rw [FieldList.toValue, ← same, ← braces', braces]

theorem Stored.Reads.reads_iff {v : Stored} {x y : Value} (h : v.Reads cells x) :
    v.Reads cells y ↔ y = x :=
  ⟨fun h' => h'.unique h, fun same => same ▸ h⟩

/-! ## Stores that agree -/

/-- The field lists at known places are the same in both stores and refer to known places. -/
structure Agree (known : List Nat) (cells cells' : List Cell) : Prop where
  same : ∀ place ∈ known, cells'[place]? = cells[place]?
  within : ∀ place ∈ known, ∀ c, cells[place]? = some c → c.Within known

namespace Agree

theorem trans {more : List Nat} {cells'' : List Cell} (h : Agree known cells cells')
    (h' : Agree more cells' cells'') (grows : known ⊆ more) : Agree known cells cells'' where
  same place hp := (h'.same place (grows hp)).trans (h.same place hp)
  within := h.within

/-- What refers to known places reads the same. -/
theorem reads (h : Agree known cells cells') {v : Stored} {x : Value} (within : v.Within known)
    (reads : v.Reads cells x) : v.Reads cells' x := by
  induction x using Value.inductionOn generalizing v with
  | text s =>
    cases reads
    exact .text s
  | list vs ih =>
    cases reads with
    | list items =>
      cases within with
      | list each =>
        have both := (List.forall₂_and_left _ _).2 ⟨each, items⟩
        exact .list (forall₂_imp_of_mem (fun x hx v r => ih x hx r.1 r.2) both.flip).flip
  | fields enclosed entries ih =>
    obtain ⟨place, c, rfl, found, braces, reads⟩ := reads.exists_place (f := { enclosed, entries })
    cases within with
    | fields hp =>
      have both := (List.forall₂_and_left _ _).2 ⟨h.within place hp c found, reads⟩
      have entries := forall₂_imp_of_mem
        (fun e he e₀ r => And.intro r.2.1 (ih e he r.1 r.2.2)) both.flip
      exact Stored.reads_fields_iff.2
        ⟨c, _, (h.same place hp).trans found, ⟨braces, entries.flip⟩, rfl⟩

theorem cellReads (h : Agree known cells cells') {c : Cell} {f : FieldList}
    (within : c.Within known) (reads : c.Reads cells f) : c.Reads cells' f :=
  ⟨reads.1, forall₂_imp_of_mem (fun e he _ r => ⟨r.1, h.reads (within e he) r.2⟩) reads.2⟩

theorem offerReads (h : Agree known cells cells') {o : Offer} {p : Plain} (within : o.Within known)
    (reads : o.Reads cells p) : o.Reads cells' p := by
  induction within generalizing p with
  | text s =>
    cases reads
    exact .text s
  | list _ ih =>
    cases reads with
    | list items => exact .list (forall₂_imp_of_mem (fun o ho p r => ih o ho r) items)
  | value within =>
    cases reads with
    | value read => exact .value (h.reads within read)
  | foreign =>
    cases reads
    exact .foreign

theorem taskReads (h : Agree known cells cells') {task : Task Offer Cell} {t : Task Plain FieldList}
    (within : task.Within known) (reads : task.Reads cells t) : task.Reads cells' t := by
  cases reads with
  | add read => exact .add (h.offerReads within read)
  | build name => exact .build name
  | bring read => exact .bring (h.cellReads within read)

theorem outcomeReads (h : Agree known cells cells') {outcome : Outcome Nat}
    {result : Outcome FieldList} (within : ∀ place, outcome = .handed place → place ∈ known)
    (reads : outcome.Reads cells result) : outcome.Reads cells' result := by
  cases reads with
  | added => exact .added
  | refused e => exact .refused e
  | handed read => exact .handed (h.reads (.fields (within _ rfl)) read)

end Agree

/-! ## Conversions -/

namespace Offer

/-- Both conversions give values that read the same, or both fail in the same way. -/
def ConvertsAs (cells : List Cell) (o : Offer) (p : Plain) : Prop :=
  (∃ v x, o.toStored = .ok v ∧ p.toValue = .ok x ∧ v.Reads cells x) ∨
    ∃ e, o.toStored = .error e ∧ p.toValue = .error e

/-- Items are converted one by one. -/
theorem toStoreds_eq_ok_iff {items : List Offer} {vs : List Stored} :
    toStoreds items = .ok vs ↔ List.Forall₂ (fun o v => o.toStored = .ok v) items vs := by
  induction items generalizing vs with
  | nil => simp [toStoreds, eq_comm]
  | cons o items ih =>
    simp only [toStoreds, bind_eq_ok_iff, pure, Except.pure, Except.ok.injEq, ih,
      List.forall₂_cons_left_iff]
    constructor
    · rintro ⟨v, hv, vs, each, rfl⟩
      exact ⟨v, vs, hv, each, rfl⟩
    · rintro ⟨v, vs, hv, each, rfl⟩
      exact ⟨v, hv, vs, each, rfl⟩

theorem convertsAs_list {items : List Offer} {ps : List Plain}
    (each : List.Forall₂ (ConvertsAs cells) items ps) :
    ConvertsAs cells (.list items) (.list ps) := by
  have all : (∃ vs xs, toStoreds items = .ok vs ∧ Plain.toValues ps = .ok xs ∧
        List.Forall₂ (Stored.Reads cells) vs xs) ∨
      ∃ e, toStoreds items = .error e ∧ Plain.toValues ps = .error e := by
    induction each with
    | nil => exact .inl ⟨[], [], by rw [toStoreds], by rw [Plain.toValues], .nil⟩
    | cons first _ ih =>
      rw [toStoreds, Plain.toValues]
      rcases first with ⟨v, x, hv, hx, reads⟩ | ⟨e, hv, hx⟩
      · rw [hv, hx]
        rcases ih with ⟨vs, xs, hvs, hxs, rest⟩ | ⟨e, hvs, hxs⟩
        · rw [hvs, hxs]
          exact .inl ⟨v :: vs, x :: xs, rfl, rfl, .cons reads rest⟩
        · rw [hvs, hxs]
          exact .inr ⟨e, rfl, rfl⟩
      · rw [hv, hx]
        exact .inr ⟨e, rfl, rfl⟩
  rw [ConvertsAs, toStored, Plain.toValue]
  rcases all with ⟨vs, xs, hvs, hxs, reads⟩ | ⟨e, hvs, hxs⟩
  · rw [hvs, hxs]
    exact .inl ⟨.list vs, .list xs, rfl, rfl, .list reads⟩
  · rw [hvs, hxs]
    exact .inr ⟨e, rfl, rfl⟩

theorem Reads.convertsAs {o : Offer} {p : Plain} (h : o.Reads cells p) : ConvertsAs cells o p := by
  match o, p, h with
  | .text s, .text _, .text _ =>
    exact .inl ⟨.text s, .text s, by rw [toStored], by rw [Plain.toValue], .text s⟩
  | .list items, .list ps, .list each =>
    exact convertsAs_list (forall₂_imp_of_mem (fun o ho p r => Reads.convertsAs r) each)
  | .value v, .value x, .value reads =>
    exact .inl ⟨v, x, by rw [toStored], by rw [Plain.toValue], reads⟩
  | .foreign p no, _, .foreign =>
    refine .inr ⟨.notConvertible p.kindName, by rw [toStored], ?_⟩
    cases p <;> first | rfl | cases no
termination_by o

/-- What data is converted to refers to no other places. -/
theorem Within.toStored {o : Offer} {v : Stored} (h : o.Within known) (made : o.toStored = .ok v) :
    v.Within known := by
  induction h generalizing v with
  | text s =>
    rw [Offer.toStored] at made
    cases made
    exact .text s
  | list _ ih =>
    rw [Offer.toStored] at made
    obtain ⟨vs, each, made⟩ := bind_eq_ok_iff.1 made
    cases made
    refine .list fun v hv => ?_
    obtain ⟨o, ho, converted⟩ := exists_mem_of_forall₂ (toStoreds_eq_ok_iff.1 each) hv
    exact ih o ho converted
  | value within =>
    rw [Offer.toStored] at made
    cases made
    exact within
  | foreign =>
    rw [Offer.toStored] at made
    cases made

end Offer

end

end GdbMi
