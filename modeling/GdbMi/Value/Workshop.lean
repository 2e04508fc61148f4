import GdbMi.Value.Builder

/-!
# Builders that write in place

In a workshop every field list lies at a place, and values refer to it by that place. A builder
writes into the field list at its own place, and hands over the place itself, not a copy; then it
goes on at a new one. Values are not copied either when they are added. Nothing here keeps a field
list from being written into once it is handed over: whether that happens depends on who knows which
places. The place of a builder is the `_fields` of a `FieldListBuilder`, which `add` writes into and
`build` hands over and replaces.
-/

namespace GdbMi
set_option autoImplicit false

/-- A value that refers to field lists by their places. -/
inductive Stored where
  | text (s : String)
  | list (items : List Stored)
  | fields (place : Nat)

/-- A field list as it lies at its place. -/
structure Cell where
  enclosed : Bool := false
  entries : List (Key × Stored) := []

/-- Adds an entry. -/
def Cell.add (c : Cell) (key : Key) (v : Stored) : Cell :=
  { c with entries := c.entries ++ [(key, v)] }

/-- Whether the data is of a kind that no value is made of. -/
def Plain.isForeign : Plain → Bool
  | text _ | list _ | value _ => false
  | _ => true

/-- Plain data that refers to field lists by their places. -/
inductive Offer where
  | text (s : String)
  | list (items : List Offer)
  | value (v : Stored)
  | foreign (p : Plain) (no : p.isForeign = true)

namespace Offer

mutual

/-- The value that the data stands for. -/
def toStored : Offer → Except PlainError Stored
  | text s => .ok (.text s)
  | list items => do return .list (← toStoreds items)
  | value v => .ok v
  | foreign p _ => .error (.notConvertible p.kindName)

/-- The values that a list of data stands for. -/
def toStoreds : List Offer → Except PlainError (List Stored)
  | [] => .ok []
  | o :: items => do
    let v ← o.toStored
    return v :: (← toStoreds items)

end

end Offer

/-- The field lists by their places, the places at which builders write, the latest first, and the
places of the field lists that callers have got. -/
structure Workshop where
  cells : List Cell := []
  drafts : List (String × Nat) := []
  known : List Nat := []

namespace Workshop

/-- The place at which the builder of the name writes, or will write if it has not begun yet. -/
def draft (w : Workshop) (name : String) : Nat := (w.drafts.lookup name).getD w.cells.length

/-- Puts a field list at a new place. -/
def lay (w : Workshop) (c : Cell) : Workshop := { w with cells := w.cells ++ [c] }

/-- Lets the builder of the name go on with an empty field list at a new place. -/
def renew (w : Workshop) (name : String) : Workshop :=
  { w.lay {} with drafts := (name, w.cells.length) :: w.drafts }

/-- Makes sure that the builder of the name has a place. -/
def started (w : Workshop) (name : String) : Workshop :=
  if (w.drafts.lookup name).isSome then w else w.renew name

/-- Writes an entry into the field list of the builder of the name. -/
def write (w : Workshop) (name : String) (key : Key) (v : Stored) : Workshop :=
  { w with cells := w.cells.modify (w.draft name) (·.add key v) }

/-- Lets callers know a place. -/
def hand (w : Workshop) (place : Nat) : Workshop := { w with known := place :: w.known }

/-- Does a task. A builder begins with the first task that names it. -/
def perform (w : Workshop) : Task Offer Cell → Outcome Nat × Workshop
  | .add name key o =>
    match o.toStored with
    | .ok v => (.added, (w.started name).write name key v)
    | .error e => (.refused e, w)
  | .build name => (.handed (w.draft name), ((w.started name).renew name).hand (w.draft name))
  | .bring c => (.handed w.cells.length, (w.lay c).hand w.cells.length)

/-- The workshop after tasks. -/
def after (w : Workshop) (tasks : List (Task Offer Cell)) : Workshop :=
  tasks.foldl (fun w task => (w.perform task).2) w

/-- The outcomes of tasks, in order. -/
def outcomes (w : Workshop) : List (Task Offer Cell) → List (Outcome Nat)
  | [] => []
  | task :: tasks => (w.perform task).1 :: (w.perform task).2.outcomes tasks

end Workshop

/-! ## What callers know -/

/-- The value refers to known places only. -/
inductive Stored.Within (known : List Nat) : Stored → Prop where
  | text (s : String) : Within known (.text s)
  | list {items : List Stored} : (∀ v ∈ items, Within known v) → Within known (.list items)
  | fields {place : Nat} : place ∈ known → Within known (.fields place)

/-- The data refers to known places only. -/
inductive Offer.Within (known : List Nat) : Offer → Prop where
  | text (s : String) : Within known (.text s)
  | list {items : List Offer} : (∀ o ∈ items, Within known o) → Within known (.list items)
  | value {v : Stored} : v.Within known → Within known (.value v)
  | foreign {p : Plain} {no : p.isForeign = true} : Within known (.foreign p no)

/-- The entries of the field list refer to known places only. -/
def Cell.Within (known : List Nat) (c : Cell) : Prop := ∀ e ∈ c.entries, e.2.Within known

/-- What the task is given refers to known places only. -/
def Task.Within (known : List Nat) : Task Offer Cell → Prop
  | .add _ _ o => o.Within known
  | .build _ => True
  | .bring c => c.Within known

/-- Callers can ask for the tasks one after the other: each is given nothing but what they have got
by then. -/
def Workshop.Permits (w : Workshop) : List (Task Offer Cell) → Prop
  | [] => True
  | task :: tasks => task.Within w.known ∧ (w.perform task).2.Permits tasks

end GdbMi
