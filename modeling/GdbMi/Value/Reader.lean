import GdbMi.Literal
import GdbMi.Reading.Token
import GdbMi.Value.Basic

/-!
# Reading values

The grammar, with spacing allowed before every token:

    value  := literal | list | map | fields
    list   := '[' (','? value)* (']' | end of text)
    map    := '{' fields '}'
    fields := (','? entry)*
    entry  := map | literal | identifier '=' value

One glyph always decides what comes next, so values are read in one pass: a `State` says what is
due and which aggregates are open around it, and `State.step` reads one glyph. Fields are closed by
the bracket or brace of the aggregate around them, which they leave unread, and lists and bare
fields also by the end of the text. A list whose only item is a bare field list stands for that
field list.

`run` recurses on the text, so it ends on every text; what it leaves unread is the end of the text
(`rest_run_suffix`).

`Value.read`, `Value.readList`, `Value.readMap` and `FieldList.read` are `parse_value`,
`parse_list`, `parse_map` and `parse_fields` of `MIParser`; `Value.parse` and `FieldList.parse` are
the functions `parse_value` and `parse_fields` of a whole text. Where a `State` has a list of frames
the methods call each other, once for every aggregate that is open. An interpreter may limit how
deep calls are nested and give up on a text that is nested deeper. That limit is left out: `run`
reads such a text too.
-/

namespace GdbMi.Reader
set_option autoImplicit false

/-- How fields are fenced off from what follows. -/
inductive Fence where
  /-- Not at all. -/
  | bare
  /-- By braces, the closing one of which is theirs. -/
  | braces
  /-- By braces that are not read with them. -/
  | inside
deriving DecidableEq, Repr

/-- Whether fields with the fence are enclosed. -/
def Fence.isEnclosed : Fence → Bool
  | bare => false
  | _ => true

/-- The field list with the given fence and entries, the latest first. -/
def Fence.fields (fence : Fence) (held : List (Key × Value)) : Value :=
  .fields fence.isEnclosed held.reverse

/-- An aggregate around the value being read, with what it holds already, the latest first. -/
inductive Frame where
  /-- A list, which takes the value as its next item. -/
  | list (held : List Value)
  /-- Fields, which take the value under the key. -/
  | field (fence : Fence) (held : List (Key × Value)) (key : Key)

/-- What is due next, inside the frames around it, the innermost first. Where a list or fields may
end with the text, `spaced` tells whether spacing has been read since the last token: spacing
promises more. -/
inductive State where
  | value (around : List Frame)
  | items (spaced : Bool) (held : List Value) (around : List Frame)
  | entries (spaced : Bool) (fence : Fence) (held : List (Key × Value)) (around : List Frame)
  /-- An entry is due, after the comma that may come before it. -/
  | entry (fence : Fence) (held : List (Key × Value)) (around : List Frame)
  /-- In an identifier, of which the characters are given, the latest first. -/
  | identifier (fence : Fence) (held : List (Key × Value)) (name : List Char) (around : List Frame)
  /-- The sign between an identifier and its value is due. -/
  | equals (fence : Fence) (held : List (Key × Value)) (name : String) (around : List Frame)
  | literal (scan : Literal.Scan) (around : List Frame)
  | done (v : Value)

/-- What a glyph does. -/
inductive Step where
  /-- The glyph is read. -/
  | go (s : State)
  /-- The value ended before the glyph. -/
  | stop (v : Value)
  /-- The glyph stands where another token is due, and stays unread. -/
  | mismatch (due : Token)
  /-- The glyph is read and wrong. -/
  | refuse (e : ParseError)

/-- The value of a complete list: the last lines of `parse_list`. -/
def ofItems : List Value → Value
  | [.fields false entries] => .fields false entries
  | items => .list items

/-- Hands a complete value to the aggregate around it. -/
def deliver (v : Value) : List Frame → State
  | [] => .done v
  | .list held :: around => .items false (v :: held) around
  | .field fence held key :: around => .entries false fence ((key, v) :: held) around

/-- What a closing bracket or brace does after fields: the fields end, and so do fields around them,
up to the braces or the list that it has to belong to. -/
def close (g : Glyph) : Fence → List (Key × Value) → List Frame → Step
  | .braces, held, around =>
    if g = '\x7d' then .go (deliver (Fence.braces.fields held) around) else .mismatch .mapClose
  | fence, held, [] => .stop (fence.fields held)
  | fence, held, .list items :: around =>
    if g = ']' then .go (deliver (ofItems (fence.fields held :: items).reverse) around)
    else .mismatch .listClose
  | fence, held, .field outer entries key :: around =>
    close g outer ((key, fence.fields held) :: entries) around

namespace State

/-- The state after an opening bracket. -/
def openList (around : List Frame) : State := .items false [] around

/-- The state after an opening brace. -/
def openMap (around : List Frame) : State := .entries false .braces [] around

/-- Reads a glyph where the sign after an identifier is due. -/
def stepEquals (fence : Fence) (held : List (Key × Value)) (name : String) (around : List Frame)
    (g : Glyph) : Step :=
  if g.isSpacing then .go (.equals fence held name around)
  else if g = '=' then .go (.value (.field fence held (.ofName name) :: around))
  else .mismatch .equals

/-- Reads a glyph where an entry is due. -/
def stepEntry (fence : Fence) (held : List (Key × Value)) (around : List Frame) (g : Glyph) :
    Step :=
  if g.isSpacing then .go (.entry fence held around)
  else if g = '\x7b' then .go (openMap (.field fence held .unnamed :: around))
  else if g = '"' then .go (.literal {} (.field fence held .bare :: around))
  else match g with
    | .char c =>
      if g.isIdentifier then .go (.identifier fence held [c] around) else .mismatch .identifier
    | .stray _ => .mismatch .identifier

/-- Reads a glyph between the entries of fields, at the head of the loop of `parse_fields`. -/
def stepEntries (fence : Fence) (held : List (Key × Value)) (around : List Frame) (g : Glyph) :
    Step :=
  if g.isSpacing then .go (.entries true fence held around)
  else if g = ']' ∨ g = '\x7d' then close g fence held around
  else if g = ',' then .go (.entry fence held around)
  else stepEntry fence held around g

/-- Reads a glyph where a value is due. What begins no other value begins bare fields. -/
def stepValue (around : List Frame) (g : Glyph) : Step :=
  if g.isSpacing then .go (.value around)
  else if g = '"' then .go (.literal {} around)
  else if g = '[' then .go (openList around)
  else if g = '\x7b' then .go (openMap around)
  else stepEntries .bare [] around g

/-- Reads a glyph between the items of a list, at the head of the loop of `parse_list`. -/
def stepItems (held : List Value) (around : List Frame) (g : Glyph) : Step :=
  if g.isSpacing then .go (.items true held around)
  else if g = ']' then .go (deliver (ofItems held.reverse) around)
  else if g = '\x7d' then .mismatch .listClose
  else if g = ',' then .go (.value (.list held :: around))
  else stepValue (.list held :: around) g

/-- Reads a glyph in or after an identifier. -/
def stepIdentifier (fence : Fence) (held : List (Key × Value)) (name : List Char)
    (around : List Frame) (g : Glyph) : Step :=
  let after := stepEquals fence held (String.ofList name.reverse) around g
  match g with
  | .char c => if g.isIdentifier then .go (.identifier fence held (c :: name) around) else after
  | .stray _ => after

/-- Reads a glyph of a literal. -/
def stepLiteral (scan : Literal.Scan) (around : List Frame) (g : Glyph) : Step :=
  match scan.step g with
  | .go scan => .go (.literal scan around)
  | .close bytes => .go (deliver (.text (Utf8.decodeLossy bytes)) around)
  | .refuse e => .refuse e

/-- Reads one glyph. -/
def step : State → Glyph → Step
  | value around, g => stepValue around g
  | items _ held around, g => stepItems held around g
  | entries _ fence held around, g => stepEntries fence held around g
  | entry fence held around, g => stepEntry fence held around g
  | identifier fence held name around, g => stepIdentifier fence held name around g
  | equals fence held name around, g => stepEquals fence held name around g
  | literal scan around, g => stepLiteral scan around g
  | done v, _ => .stop v

end State

/-- The error of a text that ends where more is due. -/
def exhausted : ParseError := .ended "more input"

/-- The error of a text that ends where a token is due. -/
def missing (due : Token) : ParseError := .unexpected due.pattern []

/-- The fields that the end of the text ends, which must have no brace to close. -/
def Fence.atEnd (fence : Fence) (held : List (Key × Value)) : Except ParseError Value :=
  if fence = braces then .error (missing .mapClose) else .ok (fence.fields held)

/-- What the end of the text makes of a value that is complete there: everything around it that is
still open ends too. -/
def finish (v : Value) : List Frame → Except ParseError Value
  | [] => .ok v
  | .list held :: around => finish (ofItems (v :: held).reverse) around
  | .field fence held key :: around =>
    match fence.atEnd ((key, v) :: held) with
    | .ok v => finish v around
    | .error e => .error e

/-- What the end of the text makes of a state. -/
def State.atEnd : State → Except ParseError Value
  | items false held around => finish (ofItems held.reverse) around
  | entries false fence held around =>
    match fence.atEnd held with
    | .ok v => finish v around
    | .error e => .error e
  | identifier _ _ _ _ => .error (missing .equals)
  | equals _ _ _ _ => .error (missing .equals)
  | literal _ _ => .error Literal.unclosed
  | done v => .ok v
  | _ => .error exhausted

/-- Reads from a state to the end of the value. -/
def run (s : State) : Text → Reading Value
  | [] =>
    match s.atEnd with
    | .ok v => .ok v []
    | .error e => .fail e []
  | g :: t =>
    match s.step g with
    | .go s => run s t
    | .stop v => .ok v (g :: t)
    | .mismatch due => .fail (.unexpected due.pattern (g :: t)) (g :: t)
    | .refuse e => .fail e t

theorem run_done (v : Value) (t : Text) : run (.done v) t = .ok v t := by
  cases t <;> rfl

theorem run_nil_eq_ok_iff {s : State} {v : Value} {r : Text} :
    run s [] = .ok v r ↔ s.atEnd = .ok v ∧ r = [] := by
  rw [run]
  cases s.atEnd <;> simp [eq_comm]

/-- A glyph is behind a value, or part of it. -/
theorem run_cons_eq_ok_iff {s : State} {g : Glyph} {t r : Text} {v : Value} :
    run s (g :: t) = .ok v r ↔
      (∃ s', s.step g = .go s' ∧ run s' t = .ok v r) ∨ s.step g = .stop v ∧ r = g :: t := by
  rw [run]
  cases s.step g <;> simp [eq_comm]

theorem rest_run_suffix (s : State) (t : Text) : (run s t).rest <:+ t := by
  induction t generalizing s with
  | nil => simp only [run]; split <;> exact List.suffix_refl _
  | cons g t ih =>
    simp only [run]
    split
    · exact (ih _).trans (List.suffix_cons g t)
    · exact List.suffix_refl _
    · exact List.suffix_refl _
    · exact List.suffix_cons g t

end GdbMi.Reader

namespace GdbMi

open Reader

/-- Reads the value at the front of the text, as `MIParser.parse_value` does. -/
def Value.read (t : Text) : Reading Value := run (.value []) t

/-- Reads the list at the front of the text, as `MIParser.parse_list` does. -/
def Value.readList (t : Text) : Reading Value :=
  (Token.listOpen.read (skipSpacing t)).andThen fun _ rest => run (.openList []) rest

/-- Reads the map at the front of the text, as `MIParser.parse_map` does. -/
def Value.readMap (t : Text) : Reading Value :=
  (Token.mapOpen.read (skipSpacing t)).andThen fun _ rest => run (.openMap []) rest

/-- Reads fields up to a closing bracket or brace or the end of the text, as
`MIParser.parse_fields` does. -/
def FieldList.read (enclosed : Bool) (t : Text) : Reading FieldList :=
  let fence : Fence := if enclosed then .inside else .bare
  (run (.entries false fence [] []) t).map fun v => { enclosed, entries := v.entries }

theorem Value.rest_readList_suffix (t : Text) : (Value.readList t).rest <:+ t := by
  have h := (Token.rest_read_suffix .listOpen (skipSpacing t)).trans (skipSpacing_suffix t)
  exact Reading.rest_andThen_suffix h fun _ rest => rest_run_suffix _ rest

theorem Value.rest_readMap_suffix (t : Text) : (Value.readMap t).rest <:+ t := by
  have h := (Token.rest_read_suffix .mapOpen (skipSpacing t)).trans (skipSpacing_suffix t)
  exact Reading.rest_andThen_suffix h fun _ rest => rest_run_suffix _ rest

/-- The value of a text that holds one value, and spacing after it. -/
def Value.parse (t : Text) : Except ParseError Value := (Value.read t).whole

/-- The bare field list of a text that holds nothing else but spacing after it. -/
def FieldList.parse (t : Text) : Except ParseError FieldList := (FieldList.read false t).whole

end GdbMi
