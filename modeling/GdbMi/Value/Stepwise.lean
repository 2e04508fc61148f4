import GdbMi.Value.Reader

/-!
# Reading step by step

A text may be read piece by piece: a command reads one thing off the front of what is left, and the
next command goes on where it stopped, also after an error. Main statement: a command leaves the end
of its text (`Command.rest_run_suffix`), so the position of a step never decreases. The commands are
the methods of an `MIParser` and of its `cursor`.
-/

namespace GdbMi
set_option autoImplicit false

/-- One step of reading. Where a flag is given, it tells whether spacing is skipped first. -/
inductive Command where
  /-- Look at the next glyph. -/
  | peek (skipping : Bool)
  /-- Read any glyph. -/
  | next
  | token (k : Token) (skipping : Bool)
  /-- Make sure that nothing is left. -/
  | checkEnd (skipping : Bool)
  | skipSpacing
  /-- Look at all that is left. -/
  | remaining
  /-- Look whether anything is left. -/
  | hasRemaining
  | string
  | value
  | list
  | map
  | fields (enclosed : Bool)

/-- What a step yields. -/
inductive Answer where
  | nothing
  | glyph (g : Glyph)
  | text (t : Text)
  | flag (b : Bool)
  | string (s : String)
  | value (v : Value)

/-- The text to read from, after spacing if it is to be skipped. -/
def skipIf (skipping : Bool) (t : Text) : Text := if skipping then skipSpacing t else t

namespace Command

/-- Looks at the next glyph. -/
def peekAt : Text → Reading Answer
  | [] => .fail Reader.exhausted []
  | g :: t => .ok (.glyph g) (g :: t)

/-- Reads any glyph. -/
def nextAt : Text → Reading Answer
  | [] => .fail Reader.exhausted []
  | g :: t => .ok (.glyph g) t

/-- Makes sure that nothing is left. -/
def checkEndAt : Text → Reading Answer
  | [] => .ok .nothing []
  | t => .fail (.trailing t) t

/-- Reads what the command asks for. -/
def run (c : Command) (t : Text) : Reading Answer :=
  match c with
  | peek skipping => peekAt (skipIf skipping t)
  | next => nextAt t
  | token k skipping => (k.read (skipIf skipping t)).map .text
  | checkEnd skipping => checkEndAt (skipIf skipping t)
  | skipSpacing => .ok .nothing (GdbMi.skipSpacing t)
  | remaining => .ok (.text t) t
  | hasRemaining => .ok (.flag !t.isEmpty) t
  | string => (Literal.read t).map .string
  | value => (Value.read t).map .value
  | list => (Value.readList t).map .value
  | map => (Value.readMap t).map .value
  | fields enclosed => (FieldList.read enclosed t).map fun f => .value f.toValue

/-- Reads what the commands ask for, each from where the one before it stopped. -/
def runAll : List Command → Text → List (Reading Answer)
  | [], _ => []
  | c :: commands, t =>
    let r := c.run t
    r :: runAll commands r.rest

theorem rest_run_suffix (c : Command) (t : Text) : (c.run t).rest <:+ t := by
  have skipped (skipping : Bool) : skipIf skipping t <:+ t := by
    cases skipping with
    | false => exact List.suffix_refl _
    | true => exact skipSpacing_suffix t
  have peeked (t : Text) : (peekAt t).rest <:+ t := by cases t <;> exact List.suffix_refl _
  have checked (t : Text) : (checkEndAt t).rest <:+ t := by cases t <;> exact List.suffix_refl _
  cases c with
  | peek skipping => exact (peeked _).trans (skipped skipping)
  | next =>
    cases t with
    | nil => exact List.suffix_refl _
    | cons g t => exact List.suffix_cons g t
  | token k skipping =>
    simp only [run, Reading.rest_map]
    exact (k.rest_read_suffix _).trans (skipped skipping)
  | checkEnd skipping => exact (checked _).trans (skipped skipping)
  | skipSpacing => exact skipSpacing_suffix t
  | remaining => exact List.suffix_refl _
  | hasRemaining => exact List.suffix_refl _
  | string => simpa only [run, Reading.rest_map] using Literal.rest_read_suffix t
  | value => simpa only [run, Reading.rest_map, Value.read] using Reader.rest_run_suffix _ t
  | list => simpa only [run, Reading.rest_map] using Value.rest_readList_suffix t
  | map => simpa only [run, Reading.rest_map] using Value.rest_readMap_suffix t
  | fields enclosed =>
    simpa only [run, Reading.rest_map, FieldList.read] using Reader.rest_run_suffix _ t

end Command

/-- How many glyphs of the text have been read when `rest` is left. -/
def position (text rest : Text) : Nat := text.length - rest.length

end GdbMi
