import GdbMi.Payload
import GdbMi.Text.Display

/-!
# JSON output

JSON in printable ASCII on one line: a space follows each comma and colon, the usual controls have
short escapes, and everything else outside printable ASCII is written in UTF-16 units. Members keep
their order, and the missing key of bare strings is written as the name `null`. This is how
`_render` writes a response (`json.dumps`).
-/

namespace GdbMi
set_option autoImplicit false

/-- JSON data with whole numbers only. -/
inductive Json where
  | null
  | number (n : Int)
  | text (t : Text)
  | array (items : List Json)
  | object (members : List (String × Json))

namespace Json

/-- One UTF-16 unit as an escape. -/
def unitEscape (n : Nat) : String := "\\u" ++ hexDigits 4 n

/-- A code point in UTF-16 units, each as an escape. -/
def utf16Escape (n : Nat) : String :=
  if n < 0x10000 then unitEscape n
  else
    let m := n - 0x10000
    unitEscape (0xD800 + m / 0x400) ++ unitEscape (0xDC00 + m % 0x400)

/-- A glyph inside a JSON string. -/
def writeGlyph (g : Glyph) : String :=
  match g with
  | .char '"' => "\\\""
  | .char '\\' => "\\\\"
  | .char '\n' => "\\n"
  | .char '\r' => "\\r"
  | .char '\t' => "\\t"
  | .char '\x08' => "\\b"
  | .char '\x0c' => "\\f"
  | .char c => if 0x20 ≤ c.toNat ∧ c.toNat ≤ 0x7E then c.toString else utf16Escape g.code
  | .stray _ => utf16Escape g.code

/-- A JSON string. -/
def writeText (t : Text) : String := "\"" ++ String.join (t.map writeGlyph) ++ "\""

mutual

/-- JSON data on one line. -/
def write : Json → String
  | null => "null"
  | number n => toString n
  | text t => writeText t
  | array items => "[" ++ ", ".intercalate (writeItems items) ++ "]"
  | object members => "\x7b" ++ ", ".intercalate (writeMembers members) ++ "\x7d"

/-- The items of an array. -/
def writeItems : List Json → List String
  | [] => []
  | j :: items => j.write :: writeItems items

/-- The members of an object. -/
def writeMembers : List (String × Json) → List String
  | [] => []
  | (name, j) :: members =>
    (writeText (Text.ofString name) ++ ": " ++ j.write) :: writeMembers members

end

end Json

/-- The member name of a key. -/
def Key.jsonName (k : Key) : String := k.name?.getD "null"

mutual

/-- Plain data as JSON. -/
def Payload.toJson : Payload → Json
  | .text s => .text (Text.ofString s)
  | .list items => .array (Payload.itemsToJson items)
  | .dict members => .object (Payload.membersToJson members)

/-- The items of a list as JSON. -/
def Payload.itemsToJson : List Payload → List Json
  | [] => []
  | p :: items => p.toJson :: Payload.itemsToJson items

/-- The members of a dictionary as JSON. -/
def Payload.membersToJson : List (Key × Payload) → List (String × Json)
  | [] => []
  | (k, p) :: members => (k.jsonName, p.toJson) :: Payload.membersToJson members

end

end GdbMi
