import GdbMi.Literal
import GdbMi.Value.Display

/-!
# Writing values

The canonical text of a value: literals spelled canonically, no spacing, enclosed field lists in
braces and all others in brackets. A bare field list that starts with an entry without an identifier
has no such text, since between brackets alone that entry would be an item; at the top of a record,
where it stands without brackets, it is written all the same.

`Value.render` is `format_value`, with both cases of `_format_fields`; `FieldList.render` is
`format_fields`, `entryText` is `_format_entry`, and `RenderError` is the error that
`_format_fields` raises. As in reading, a limit on nested calls, which an interpreter may have, is
left out: a value is written however deep it is nested.
-/

namespace GdbMi
set_option autoImplicit false

/-- Why a value has no text. -/
inductive RenderError where
  /-- A bare field list inside the value starts with an entry without an identifier. -/
  | startsUnkeyed (f : FieldList)

/-- The wording of the error. -/
def RenderError.message : RenderError → String
  | startsUnkeyed f =>
    "Cannot render a bracketed field list that starts unkeyed: " ++ f.display

/-- Whether the first entry has no identifier. -/
def startsUnkeyed : List (Key × Value) → Bool
  | [] => false
  | (key, _) :: _ => key.isUnkeyed

/-- Parts with commas between them. -/
def separated (parts : List Text) : Text := [Glyph.char ','].intercalate parts

theorem separated_singleton (part : Text) : separated [part] = part :=
  List.intercalate_singleton

theorem separated_cons_cons (part next : Text) (parts : List Text) :
    separated (part :: next :: parts) = part ++ Glyph.char ',' :: separated (next :: parts) := by
  rw [separated, separated, List.intercalate_cons_cons, List.append_assoc]
  rfl

/-- Parts with commas between them and a bracket or brace on either side. -/
def enclosedIn (left right : Char) (parts : List Text) : Text :=
  Glyph.char left :: (separated parts ++ [Glyph.char right])

/-- The text of an entry, given that of its value. -/
def entryText (key : Key) (value : Text) : Text :=
  match key with
  | .named name => Text.ofString name ++ Glyph.char '=' :: value
  | _ => value

mutual

/-- The canonical text of a value. -/
def Value.render : Value → Except RenderError Text
  | .text s => .ok (Literal.quote (Text.ofString s))
  | .list items => do return enclosedIn '[' ']' (← Value.renderItems items)
  | .fields true entries => do return enclosedIn '\x7b' '\x7d' (← Value.renderEntries entries)
  | .fields false entries =>
    if startsUnkeyed entries then .error (.startsUnkeyed { entries })
    else do return enclosedIn '[' ']' (← Value.renderEntries entries)

/-- The texts of the items of a list. -/
def Value.renderItems : List Value → Except RenderError (List Text)
  | [] => .ok []
  | v :: items => do
    let text ← v.render
    return text :: (← Value.renderItems items)

/-- The texts of entries. -/
def Value.renderEntries : List (Key × Value) → Except RenderError (List Text)
  | [] => .ok []
  | (key, v) :: entries => do
    let text ← v.render
    return entryText key text :: (← Value.renderEntries entries)

end

/-- The canonical text of a field list at the top of a record, without brackets or braces. -/
def FieldList.render (f : FieldList) : Except RenderError Text :=
  separated <$> Value.renderEntries f.entries

end GdbMi
