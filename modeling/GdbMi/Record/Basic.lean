import GdbMi.Text.Basic
import GdbMi.Value.Basic

/-!
# Records

A record is one line of debugger output, classified: a result, one of three kinds of asynchronous
news, text for one of three streams, the prompt, or output of the program being debugged. `Kind` is
`RecordKind` with its sigils, `SIGIL_KINDS`.
-/

namespace GdbMi
set_option autoImplicit false

/-- The kinds of lines. -/
inductive Kind where
  | result
  | exec
  | status
  | notify
  | console
  | target
  | log
  | prompt
  | output
deriving DecidableEq, Repr

namespace Kind

/-- All kinds. -/
def all : List Kind := [result, exec, status, notify, console, target, log, prompt, output]

/-- The name of the kind. -/
def name : Kind → String
  | result => "result"
  | exec => "exec"
  | status => "status"
  | notify => "notify"
  | console => "console"
  | target => "target"
  | log => "log"
  | prompt => "prompt"
  | output => "output"

/-- The kind with the name. -/
def ofName? (name : String) : Option Kind := all.find? (·.name == name)

/-- The wording for a name that no kind has. -/
def unknownName (name : String) : String := displayString name ++ " is not a valid RecordKind"

/-- The character that marks a line of the kind. The prompt and program output have none. -/
def sigil? : Kind → Option Char
  | result => some '^'
  | exec => some '*'
  | status => some '+'
  | notify => some '='
  | console => some '~'
  | target => some '@'
  | log => some '&'
  | prompt => none
  | output => none

/-- Whether lines of the kind carry text for a stream. -/
def isStream : Kind → Bool
  | console => true
  | target => true
  | log => true
  | _ => false

/-- The kind of the lines marked by the glyph. -/
def ofSigil? (g : Glyph) : Option Kind :=
  all.find? fun k => k.sigil?.map Glyph.char == some g

theorem ofName?_name (k : Kind) : ofName? k.name = some k := by
  cases k <;> rfl

theorem ofSigil?_eq_some_iff {g : Glyph} {k : Kind} :
    ofSigil? g = some k ↔ k.sigil?.map Glyph.char = some g := by
  constructor
  · intro h
    have found := List.find?_some h
    exact beq_iff_eq.1 found
  · intro h
    cases k <;> cases h <;> rfl

end Kind

/-- The content of a line: nothing, text, or data of the given type. -/
inductive Content (α : Type) where
  | absent
  | text (t : Text)
  | data (a : α)

/-- Applies a function to data. -/
def Content.map {α β : Type} (f : α → β) : Content α → Content β
  | absent => absent
  | text t => text t
  | data a => data (f a)

/-- One line of debugger output. -/
structure Record where
  kind : Kind
  /-- The class of a result or asynchronous record. -/
  recordClass : Option Text := none
  /-- The number that ties a result to its command. -/
  token : Option Int := none
  /-- The fields of a result or asynchronous record, the text of a stream record, or a line of
  program output. -/
  payload : Content FieldList := .absent

end GdbMi
