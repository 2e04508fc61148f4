import GdbMi.Text.Digit
import GdbMi.Transcript

/-!
# Command-line options

The arguments of the program: an input, `-` by default, and options, whose long names may be cut
short as long as they stay unambiguous and may take their value after an equals sign. Every word is
classified first; the options then act in order. Help ends the program with success, and anything
wrong with code 2. Two hyphens where a value is attached leave the option without one. The options
are those of `_build_arg_parser`.
-/

namespace GdbMi.CommandLine
set_option autoImplicit false

/-- How records are printed. -/
inductive Format where
  | json
  | mi
deriving DecidableEq, Repr

/-- The format with the name. -/
def Format.ofName? : String → Option Format
  | "json" => some json
  | "mi" => some mi
  | _ => none

/-- The input that stands for standard input. -/
def standardInput : String := "-"

/-- The argument that separates options from operands. -/
def separatorText : String := "--"

/-- What the program is to do. -/
structure Options where
  input : String := standardInput
  strict : Bool := false
  format : Format := .json
  /-- The least severity of the notes that are shown. Without one the program does not start. -/
  logLevel : Option Severity := some .warning
deriving DecidableEq, Repr

/-- How the program ends when it does not run: after help, or because the arguments are wrong. -/
inductive Refusal where
  | help
  | usage
deriving DecidableEq, Repr

/-- The exit code. -/
def Refusal.exitCode : Refusal → Nat
  | help => 0
  | usage => 2

/-- The options with long names. -/
inductive Name where
  | help
  | strict
  | format
  | logLevel
deriving DecidableEq, Repr

/-- All options. -/
def Name.all : List Name := [.help, .strict, .format, .logLevel]

/-- The long name of an option. -/
def Name.long : Name → String
  | help => "--help"
  | strict => "--strict"
  | format => "--format"
  | logLevel => "--log-level"

/-- A classified argument. -/
inductive Word where
  | operand (s : String)
  /-- Two hyphens, after which every argument is an operand. -/
  | separator
  | help
  | strict
  | format (attached : Option String)
  | logLevel (attached : Option String)
  /-- An option with a value that it does not take. -/
  | misused
  | unknown
deriving DecidableEq, Repr

namespace Word

/-- The option with the value after its equals sign, if there is one. -/
def ofName : Name → Option String → Word
  | .help, none => help
  | .strict, none => strict
  | .format, value => format value
  | .logLevel, value => logLevel value
  | _, some _ => misused

/-- Whether the characters are digits up to the end of a line. -/
def allDigits (cs : List Char) : Bool := cs.all fun c => (Glyph.char c).isDigit

/-- Whether an argument looks like a negative number. -/
def isNegativeNumber (cs : List Char) : Bool :=
  match if cs.getLast? = some '\n' then cs.dropLast else cs with
  | '-' :: cs =>
    let (whole, fraction) := cs.span (· != '.')
    match fraction with
    | [] => allDigits whole && !whole.isEmpty
    | _ :: fraction => allDigits whole && allDigits fraction && !fraction.isEmpty
  | _ => false

/-- Splits an argument at its first equals sign. -/
def splitValue (cs : List Char) : List Char × Option String :=
  match cs.span (· != '=') with
  | (name, _ :: value) => (name, some (String.ofList value))
  | (name, []) => (name, none)

/-- The short help option with what is attached to it, which may only be the same letter again. -/
def shortHelp (attached : List Char) : Word :=
  if !attached.isEmpty && attached.all (· == 'h') then help else misused

/-- An argument with a single hyphen in front that is no option. -/
def unmatched (cs : List Char) : Word :=
  if isNegativeNumber cs || cs.contains ' ' then operand (String.ofList cs) else unknown

/-- Classifies an argument that begins with two hyphens. -/
def classifyLong (cs : List Char) : Except Refusal Word :=
  let (name, value) := splitValue cs
  match Name.all.find? fun n => n.long.toList == name with
  | some n => .ok (ofName n value)
  | none =>
    match Name.all.filter fun n => name.isPrefixOf n.long.toList with
    | [] => .ok (unmatched cs)
    | [n] => .ok (ofName n value)
    | _ => .error .usage

/-- Classifies an argument. -/
def classify (s : String) : Except Refusal Word :=
  match s.toList with
  | '-' :: '-' :: _ => classifyLong s.toList
  | ['-', 'h'] => .ok help
  | '-' :: 'h' :: '=' :: attached => .ok (shortHelp attached)
  | '-' :: 'h' :: attached => .ok (shortHelp attached)
  | '-' :: c :: cs => .ok (unmatched ('-' :: c :: cs))
  | _ => .ok (operand s)

/-- Classifies arguments in order, all after a separator as operands. -/
def classifyAll : List String → Except Refusal (List Word)
  | [] => .ok []
  | s :: args =>
    if s = separatorText then .ok (separator :: args.map operand)
    else do
      let word ← classify s
      return word :: (← classifyAll args)

end Word

/-- The options gathered so far. -/
structure Progress where
  options : Options := {}
  /-- Whether the place of the input is taken. -/
  inputTaken : Bool := false
  /-- Whether some argument belongs nowhere. -/
  surplus : Bool := false

namespace Progress

/-- Takes the input. -/
def takeInput (p : Progress) (s : String) : Progress :=
  { p with options := { p.options with input := s }, inputTaken := true }

/-- Sets the format by name. -/
def setFormat (p : Progress) (name : String) : Except Refusal Progress :=
  match Format.ofName? name with
  | some format => .ok { p with options := { p.options with format } }
  | none => .error .usage

/-- Sets the format to what is attached to its option. Without a value records are printed as
JSON. -/
def attachFormat (p : Progress) (attached : String) : Except Refusal Progress :=
  if attached = separatorText then .ok { p with options := { p.options with format := .json } }
  else p.setFormat attached

/-- Sets the level by name. -/
def setLogLevel (p : Progress) (name : String) : Except Refusal Progress :=
  match Severity.ofName? name with
  | some level => .ok { p with options := { p.options with logLevel := some level } }
  | none => .error .usage

/-- Sets the level to what is attached to its option. -/
def attachLogLevel (p : Progress) (attached : String) : Except Refusal Progress :=
  if attached = separatorText then .ok { p with options := { p.options with logLevel := none } }
  else p.setLogLevel attached

/-- Lets classified arguments act in order. A separator is taken together with the input, on either
side of it or in its place. -/
def act : Progress → List Word → Except Refusal Options
  | p, [] => if p.surplus then .error .usage else .ok p.options
  | _, .help :: _ => .error .help
  | _, .misused :: _ => .error .usage
  | p, .unknown :: words => act { p with surplus := true } words
  | p, .strict :: words => act { p with options := { p.options with strict := true } } words
  | p, .format (some attached) :: words => do act (← p.attachFormat attached) words
  | p, .format none :: .operand value :: words => do act (← p.setFormat value) words
  | _, .format none :: _ => .error .usage
  | p, .logLevel (some attached) :: words => do act (← p.attachLogLevel attached) words
  | p, .logLevel none :: .operand value :: words => do act (← p.setLogLevel value) words
  | _, .logLevel none :: _ => .error .usage
  | p, .operand s :: .separator :: words =>
    if p.inputTaken then act { p with surplus := true } words else act (p.takeInput s) words
  | p, .separator :: .operand s :: words =>
    if p.inputTaken then act { p with surplus := true } words else act (p.takeInput s) words
  | p, .separator :: words => act { p with inputTaken := true, surplus := p.surplus || p.inputTaken } words
  | p, .operand s :: words =>
    if p.inputTaken then act { p with surplus := true } words else act (p.takeInput s) words

end Progress

/-- Reads the arguments of the program. -/
def Options.ofArguments (args : List String) : Except Refusal Options := do
  Progress.act {} (← Word.classifyAll args)

end GdbMi.CommandLine
