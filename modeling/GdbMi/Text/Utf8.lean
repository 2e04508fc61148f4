import GdbMi.Text.Basic

/-!
# UTF-8

Bytes are cut into chunks: a character, or a maximal invalid part, which is a longest run of bytes
that begins some character and is not completed, or a byte that begins none. The cut is made in one
pass with at most one character under way. `decodeLossy` puts one replacement character for each
invalid part, as `decode_string` does with the bytes of a literal; `decode` keeps the bytes of an
invalid part as stray glyphs, as `_open_input` does with a transcript (`surrogateescape`).
-/

namespace GdbMi.Utf8
set_option autoImplicit false

/-- A piece of a byte sequence. -/
inductive Chunk where
  | char (c : Char)
  | invalid (bytes : List UInt8)
deriving DecidableEq, Repr

/-- A character of which some bytes are read and at least one is due. The next byte lies between
`low` and `high`; `due` more come after it. -/
structure Partial where
  /-- The bytes read, the latest first. -/
  taken : List UInt8
  /-- The bits of the code point read so far. -/
  bits : Nat
  low : Nat := 0x80
  high : Nat := 0xBF
  due : Nat
deriving DecidableEq, Repr

/-- The bytes that begin a character of two to four bytes, with the bounds of the second byte. -/
def lead? (b : UInt8) : Option Partial :=
  let n := b.toNat
  let taken := [b]
  if 0xC2 ≤ n ∧ n ≤ 0xDF then some { taken, bits := n - 0xC0, due := 0 }
  else if n = 0xE0 then some { taken, bits := 0, low := 0xA0, due := 1 }
  else if n = 0xED then some { taken, bits := 0xD, high := 0x9F, due := 1 }
  else if 0xE1 ≤ n ∧ n ≤ 0xEF then some { taken, bits := n - 0xE0, due := 1 }
  else if n = 0xF0 then some { taken, bits := 0, low := 0x90, due := 2 }
  else if 0xF1 ≤ n ∧ n ≤ 0xF3 then some { taken, bits := n - 0xF0, due := 2 }
  else if n = 0xF4 then some { taken, bits := 4, high := 0x8F, due := 2 }
  else none

/-- The chunks complete so far, the latest first, and the character under way. -/
structure Scan where
  chunks : List Chunk := []
  pending : Option Partial := none

namespace Scan

/-- Reads a byte where no character is under way. -/
def start (chunks : List Chunk) (b : UInt8) : Scan :=
  if b.toNat < 0x80 then { chunks := .char (Char.ofNat b.toNat) :: chunks }
  else match lead? b with
    | some p => { chunks, pending := some p }
    | none => { chunks := .invalid [b] :: chunks }

/-- Reads a byte. One that does not continue the character under way ends it as invalid. -/
def step (s : Scan) (b : UInt8) : Scan :=
  match s.pending with
  | none => start s.chunks b
  | some p =>
    if p.low ≤ b.toNat ∧ b.toNat ≤ p.high then
      let bits := 64 * p.bits + (b.toNat - 0x80)
      match p.due with
      | 0 => { chunks := .char (Char.ofNat bits) :: s.chunks }
      | due + 1 => { s with pending := some { taken := b :: p.taken, bits, due } }
    else start (.invalid p.taken.reverse :: s.chunks) b

/-- All chunks in order; a character still under way is invalid. -/
def finish (s : Scan) : List Chunk :=
  match s.pending with
  | none => s.chunks.reverse
  | some p => (.invalid p.taken.reverse :: s.chunks).reverse

end Scan

/-- The characters and maximal invalid parts of a byte sequence, in order. -/
def chunks (bytes : List UInt8) : List Chunk :=
  (bytes.foldl Scan.step {}).finish

/-- The character of a chunk, the replacement character for an invalid one. -/
def Chunk.replaced : Chunk → Char
  | char c => c
  | invalid _ => Char.ofNat 0xFFFD

/-- The glyphs of a chunk, a stray one for each byte of an invalid one. -/
def Chunk.glyphs : Chunk → Text
  | char c => [.char c]
  | invalid bytes => bytes.map Glyph.stray

/-- Decodes bytes with one replacement character for each maximal invalid part. -/
def decodeLossy (bytes : List UInt8) : String :=
  String.ofList ((chunks bytes).map Chunk.replaced)

/-- Decodes bytes and keeps those of invalid parts. -/
def decode (bytes : List UInt8) : Text :=
  (chunks bytes).flatMap Chunk.glyphs

-- a cut-off sequence is one invalid part; a byte that could not follow starts anew
example : chunks [0xE2, 0x82, 0x41] = [.invalid [0xE2, 0x82], .char 'A'] := by decide
example : chunks [0xE0, 0x80] = [.invalid [0xE0], .invalid [0x80]] := by decide

end GdbMi.Utf8
