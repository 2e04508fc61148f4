import GdbMi.Value.Plain

/-!
# Building field lists

A builder collects entries and hands them over as a bare field list, after which it starts anew. A
bench holds builders by name; a step on one leaves the others as they are (`Bench.builder_set`), and
a refused addition leaves its own builder too. What is done at a bench is a list of tasks, each with
its outcome. A `Builder` is a `FieldListBuilder`; what it hands over is a value, and `Workshop` has
the same builders with field lists that are written in place.
-/

namespace GdbMi
set_option autoImplicit false

/-- The entries collected since the last field list was handed over, in order. -/
structure Builder where
  entries : List (Key × Value) := []

namespace Builder

/-- Adds an entry, whose value may be given as plain data. -/
def add (b : Builder) (key : Key) (p : Plain) : Except PlainError Builder := do
  let v ← p.toValue
  return { entries := b.entries ++ [(key, v)] }

/-- The field list built so far, and the builder that starts anew. -/
def build (b : Builder) : FieldList × Builder := ({ entries := b.entries }, {})

end Builder

/-- Builders by name, the latest first. -/
abbrev Bench := List (String × Builder)

namespace Bench

/-- The builder of the name; one that was never started is empty. -/
def builder (bench : Bench) (name : String) : Builder := (bench.lookup name).getD {}

/-- The bench with another builder under the name. -/
def set (bench : Bench) (name : String) (b : Builder) : Bench := (name, b) :: bench

/-- Starts a new builder under the name. -/
def start (bench : Bench) (name : String) : Bench := bench.set name {}

/-- Adds an entry to the builder of the name. -/
def add (bench : Bench) (name : String) (key : Key) (p : Plain) : Except PlainError Bench := do
  return bench.set name (← (bench.builder name).add key p)

/-- Hands over the field list of the builder of the name. -/
def build (bench : Bench) (name : String) : FieldList × Bench :=
  let (f, b) := (bench.builder name).build
  (f, bench.set name b)

theorem builder_set (bench : Bench) (name other : String) (b : Builder) :
    (bench.set name b).builder other = if other = name then b else bench.builder other := by
  simp only [set, builder, List.lookup_cons]
  split <;> simp_all

end Bench

/-- What is done at a bench, whose builders are known by their names. -/
inductive Task (Data Fields : Type) where
  | add (name : String) (key : Key) (data : Data)
  | build (name : String)
  /-- A field list comes from elsewhere. -/
  | bring (f : Fields)

/-- How a task ends. -/
inductive Outcome (Fields : Type) where
  | added
  /-- What should be added is no value. -/
  | refused (e : PlainError)
  /-- The caller gets a field list. -/
  | handed (f : Fields)

namespace Bench

/-- Does a task. -/
def perform (bench : Bench) : Task Plain FieldList → Outcome FieldList × Bench
  | .add name key p =>
    match bench.add name key p with
    | .ok bench => (.added, bench)
    | .error e => (.refused e, bench)
  | .build name =>
    let (f, bench) := bench.build name
    (.handed f, bench)
  | .bring f => (.handed f, bench)

/-- The bench after tasks. -/
def after (bench : Bench) (tasks : List (Task Plain FieldList)) : Bench :=
  tasks.foldl (fun bench task => (bench.perform task).2) bench

/-- The outcomes of tasks, in order. -/
def outcomes (bench : Bench) : List (Task Plain FieldList) → List (Outcome FieldList)
  | [] => []
  | task :: tasks => (bench.perform task).1 :: (bench.perform task).2.outcomes tasks

end Bench

end GdbMi
