import GdbMi.Value.Builder
import Mathlib.Data.List.DropRight

/-!
# Tasks at a bench

Whatever was done at a bench, the builder of a name holds the entries that were added to it since it
last handed over a field list (`Bench.builder_after`): what other builders do leaves it alone, and
so does an addition that is refused. An addition is refused if some part of the data does not
convert, and the error names the first such part (`Plain.stopsAt_toValue`). So the outcome of a task
is known from the tasks before it (`Bench.perform_after`).
-/

namespace GdbMi
set_option autoImplicit false

/-! ## Conversions that stop -/

namespace Plain

mutual

/-- The kinds of the parts that do not convert, in order of writing. -/
def misfits : Plain → List String
  | text _ => []
  | value _ => []
  | list items => misfitsOf items
  | other => [other.kindName]

/-- The kinds of the parts of a list that do not convert, in order of writing. -/
def misfitsOf : List Plain → List String
  | [] => []
  | p :: items => p.misfits ++ misfitsOf items

end

/-- The conversion gives something if all kinds convert, and else it stops at the first that does
not. -/
def StopsAt {α : Type} (r : Except PlainError α) : List String → Prop
  | [] => ∃ a, r = .ok a
  | kind :: _ => r = .error (.notConvertible kind)

/-- One conversion after the other stops where the first of them stops. -/
theorem StopsAt.bind {α β : Type} {r : Except PlainError α} {next : α → Except PlainError β}
    {kinds more : List String} (h : StopsAt r kinds) (step : ∀ a, StopsAt (next a) more) :
    StopsAt (r >>= next) (kinds ++ more) := by
  cases kinds with
  | nil =>
    obtain ⟨a, rfl⟩ := h
    exact step a
  | cons kind kinds =>
    obtain rfl : r = .error (.notConvertible kind) := h
    rfl

theorem StopsAt.pure {α : Type} (a : α) : StopsAt (Pure.pure a : Except PlainError α) [] := ⟨a, rfl⟩

mutual

/-- Conversion stops at the first part that does not convert. -/
theorem stopsAt_toValue (p : Plain) : StopsAt p.toValue p.misfits := by
  cases p with
  | text s => exact ⟨.text s, by rw [toValue]⟩
  | value v => exact ⟨v, by rw [toValue]⟩
  | list items =>
    rw [toValue, misfits, ← List.append_nil (misfitsOf items)]
    exact (stopsAt_toValues items).bind fun vs => .pure (Value.list vs)
  | none | bool | int | float | dict | object => rfl

theorem stopsAt_toValues (items : List Plain) : StopsAt (toValues items) (misfitsOf items) := by
  cases items with
  | nil => exact ⟨[], by rw [toValues]⟩
  | cons p items =>
    rw [toValues, misfitsOf, ← List.append_nil (misfitsOf items)]
    exact (stopsAt_toValue p).bind fun v => (stopsAt_toValues items).bind fun vs => .pure (v :: vs)

end

end Plain

/-! ## What a builder holds -/

namespace Task

/-- Whether the builder of the name hands over its field list. -/
def builds {Data Fields : Type} (name : String) : Task Data Fields → Bool
  | build other => other == name
  | _ => false

/-- The entry that the task adds to the builder of the name, if it succeeds in adding one. -/
def entry? (name : String) : Task Plain FieldList → Option (Key × Value)
  | add other key p => if other = name then p.toValue.toOption.map (key, ·) else none
  | _ => none

end Task

/-- The entries added to the builder of the name since it last handed over a field list. -/
def collected (name : String) (tasks : List (Task Plain FieldList)) : List (Key × Value) :=
  (tasks.rtakeWhile fun task => !task.builds name).filterMap (Task.entry? name)

theorem collected_append_singleton (name : String) (tasks : List (Task Plain FieldList))
    (task : Task Plain FieldList) :
    collected name (tasks ++ [task])
      = if task.builds name then [] else collected name tasks ++ (task.entry? name).toList := by
  rw [collected, List.rtakeWhile_concat]
  cases built : task.builds name with
  | true => simp
  | false =>
    cases added : task.entry? name <;> simp [collected, added]

namespace Bench

variable (bench : Bench) (name : String) (key : Key)

theorem add_of_ok {p : Plain} {v : Value} (h : p.toValue = .ok v) :
    bench.add name key p
      = .ok (bench.set name { entries := (bench.builder name).entries ++ [(key, v)] }) := by
  rw [add, Builder.add, h]
  rfl

theorem add_of_error {p : Plain} {e : PlainError} (h : p.toValue = .error e) :
    bench.add name key p = .error e := by
  rw [add, Builder.add, h]
  rfl

/-- A task changes what a builder holds only if it is a successful task of that builder. -/
theorem builder_perform (task : Task Plain FieldList) :
    ((bench.perform task).2.builder name).entries
      = if task.builds name then []
        else (bench.builder name).entries ++ (task.entry? name).toList := by
  cases task with
  | add other key p =>
    cases converted : p.toValue with
    | ok v =>
      rw [perform, add_of_ok bench other key converted]
      by_cases same : other = name
      · subst same
        simp [builder_set, Task.builds, Task.entry?, converted, Except.toOption]
      · simp [builder_set, Task.builds, Task.entry?, same, Ne.symm same]
    | error e =>
      rw [perform, add_of_error bench other key converted]
      simp [Task.builds, Task.entry?, converted, Except.toOption]
  | build other =>
    by_cases same : other = name
    · subst same
      simp [perform, build, builder_set, Builder.build, Task.builds]
    · simp [perform, build, builder_set, Task.builds, Task.entry?, same, Ne.symm same]
  | bring f => simp [perform, Task.builds, Task.entry?]

/-- After any tasks a builder holds what was added to it since it last handed over a field list. -/
theorem builder_after (tasks : List (Task Plain FieldList)) :
    (after [] tasks).builder name = { entries := collected name tasks } := by
  induction tasks using List.reverseRecOn with
  | nil => rfl
  | append_singleton tasks task ih =>
    have last : after [] (tasks ++ [task]) = ((after [] tasks).perform task).2 := by
      rw [after, List.foldl_append, List.foldl_cons, List.foldl_nil, after]
    have entries := builder_perform (after [] tasks) name task
    rw [ih, ← collected_append_singleton] at entries
    rw [last, ← entries]

end Bench

/-- What comes of a task after others. -/
def Task.expected (before : List (Task Plain FieldList)) :
    Task Plain FieldList → Outcome FieldList
  | add _ _ p =>
    match p.misfits with
    | [] => .added
    | kind :: _ => .refused (.notConvertible kind)
  | build name => .handed { enclosed := false, entries := collected name before }
  | bring f => .handed f

/-- The outcome of a task is known from the tasks before it, and a task that is refused leaves the
bench as it was. -/
theorem Bench.perform_after (before : List (Task Plain FieldList)) (task : Task Plain FieldList) :
    ((after [] before).perform task).1 = task.expected before ∧
      ∀ e, task.expected before = .refused e →
        ((after [] before).perform task).2 = after [] before := by
  cases task with
  | add name key p =>
    have stops := p.stopsAt_toValue
    cases kinds : p.misfits with
    | nil =>
      rw [kinds] at stops
      obtain ⟨v, converted⟩ := stops
      rw [perform, add_of_ok _ name key converted, Task.expected, kinds]
      exact ⟨rfl, fun _ refused => by cases refused⟩
    | cons kind more =>
      rw [kinds] at stops
      rw [perform, add_of_error _ name key stops, Task.expected, kinds]
      exact ⟨rfl, fun _ _ => rfl⟩
  | build name =>
    rw [perform, build, builder_after, Task.expected]
    exact ⟨rfl, fun _ refused => by cases refused⟩
  | bring f => exact ⟨rfl, fun _ refused => by cases refused⟩

end GdbMi
