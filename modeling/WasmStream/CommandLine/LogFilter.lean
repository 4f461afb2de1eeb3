import WasmStream.Decimal.Integer
import WasmStream.Pattern.Support
import WasmStream.Text.Encoding

/-! Log filters: directives between commas. A directive is a level, a target, or a target with a
level behind an equals sign; a target may be narrowed to a span with some fields, as in
`net[request]=debug`. Only the form of a filter is checked here.

Blanks around a directive are passed over when its parts are told apart, but the parts are cut out of
the directive as written, at the byte offsets counted without the blanks. Hence a directive with a
level is refused if there are blanks around it, and an offset may fall within a character. -/
namespace WasmStream
namespace LogFilter

inductive Fault where
  | directive
  | level
  /-- The value of a field is a pattern that cannot be used. -/
  | field (value : List Char) (refusal : Pattern.Refusal)
  /-- A part begins or ends within a character. -/
  | withinCharacter
  deriving DecidableEq, Repr

def levelMessage : String :=
  "error parsing level filter: expected one of \"off\", \"error\", \"warn\", \"info\", \"debug\", " ++
    "\"trace\", or a number 0-5"

/-- What is wrong, with its causes behind it. -/
def Fault.message : Fault → String
  | directive => "invalid filter directive"
  | level => s!"{levelMessage}: {levelMessage}"
  | field value refusal =>
    let chain := refusal.chain value
    String.intercalate ": " ("invalid field filter" :: chain.take 1 ++ chain)
  | withinCharacter => "a part of the log filter begins or ends within a character"

def levels : List String := ["off", "error", "warn", "info", "debug", "trace"]

/-- A level by its name in any case or by its place among the levels, or no text at all. -/
def isLevel (text : List Char) : Bool :=
  text.isEmpty || levels.contains (asciiLower (String.ofList text)) ||
    (natural? text).any (· < levels.length)

/-! ## Fields -/

/-- Digits with a point among them or none, and perhaps an exponent, or a word for what is no finite
number, behind a sign or none. -/
def isNumber (text : List Char) : Bool :=
  let digits (cs : List Char) : Bool := !cs.isEmpty && cs.all (·.isDigit)
  let unsigned := match text with
    | '+' :: rest | '-' :: rest => rest
    | rest => rest
  let (mantissa, exponent) := unsigned.span fun c => c != 'e' && c != 'E'
  let (whole, fraction) := mantissa.span (· != '.')
  ["inf", "infinity", "nan"].contains (asciiLower (String.ofList unsigned)) ||
    digits (whole ++ fraction.tail) && match exponent with
      | [] => true
      | _ :: '+' :: ds | _ :: '-' :: ds | _ :: ds => digits ds

/-- A field is a name, or a name and a value with an equals sign between them. A value that is no
number is a pattern; what follows another equals sign counts for nothing. -/
def checkField (text : List Char) : Except Fault Unit :=
  match text.dropWhile (· != '=') with
  | [] => .ok ()
  | _ :: rest =>
    let value := rest.takeWhile (· != '=')
    if isNumber value then .ok ()
    else match Pattern.refusal? value with
      | some refusal => .error (.field value refusal)
      | none => .ok ()

/-! ## Directives -/

/-- The characters from a byte offset on, if one begins there. -/
def dropBytes? : (n : Nat) → List Char → Option (List Char)
  | 0, cs => some cs
  | _ + 1, [] => none
  | n, c :: rest => if c.utf8Size ≤ n then dropBytes? (n - c.utf8Size) rest else none

/-- The characters in front of a byte offset, if one ends there. -/
def takeBytes? : (n : Nat) → List Char → Option (List Char)
  | 0, _ => some []
  | _ + 1, [] => none
  | n, c :: rest =>
    if c.utf8Size ≤ n then (takeBytes? (n - c.utf8Size) rest).map (c :: ·) else none

/-- The part of a directive between two byte offsets. -/
def part (text : List Char) (start stop : Nat) : Except Fault (List Char) :=
  match (dropBytes? start text).bind (takeBytes? (stop - start)) with
  | some cs => .ok cs
  | none => .error .withinCharacter

/-- How far a directive has been read, with the offset at which the part begins that is not yet
complete. -/
inductive Progress where
  | start
  | name
  | span (start : Nat)
  | field (start : Nat)
  | fields
  | target
  | level (start : Nat)

/-- Letters, digits and a few marks begin a name. -/
def beginsName (c : Char) : Bool := isAlphanumeric c || c == '-' || c == ':' || c == '_'

/-- Read the character at a byte offset. -/
def advance (text : List Char) (offset : Nat) : Progress → Char → Except Fault Progress
  | .start, c =>
    if c = '[' then .ok (.span (offset + 1))
    else if beginsName c then .ok .name
    else .error .directive
  | .name, c =>
    if c = '=' ∨ c = '[' then do
      let _ ← part text 0 offset
      return if c = '=' then .level (offset + 1) else .span (offset + 1)
    else .ok .name
  | .span start, c =>
    if c = ']' ∨ c = '\x7b' then do
      let _ ← part text start offset
      return if c = ']' then .target else .field (offset + 1)
    else .ok (.span start)
  | .field start, c =>
    if c = '\x7d' then do
      let field ← part text start offset
      if field.isEmpty then throw .directive
      checkField field
      return .fields
    else .ok (.field start)
  | .fields, c => if c = ']' then .ok .target else .error .directive
  | .target, c => if c = '=' then .ok (.level (offset + 1)) else .error .directive
  | .level start, _ => .ok (.level start)

/-- Whether a directive may end here. -/
def finish (text : List Char) : Progress → Except Fault Unit
  | .name | .target => .ok ()
  | .level start =>
    match dropBytes? start text with
    | some level => if isLevel level then .ok () else .error .level
    | none => .error .withinCharacter
  | _ => .error .directive

def trim (cs : List Char) : List Char :=
  ((cs.dropWhile isWhiteSpace).reverse.dropWhile isWhiteSpace).reverse

def checkDirective (text : List Char) : Except Fault Unit := do
  let (_, progress) ← (trim text).foldlM (fun (offset, progress) c => do
    return (offset + c.utf8Size, ← advance text offset progress c)) (0, .start)
  finish text progress

/-- The pieces of a text between commas. -/
def pieces : List Char → List (List Char)
  | [] => [[]]
  | c :: rest =>
    match pieces rest with
    | first :: others => if c = ',' then [] :: first :: others else (c :: first) :: others
    | [] => [[c]]

/-- Every directive has to be well formed; nothing between two commas is no directive. -/
def check (text : String) : Except Fault Unit :=
  ((pieces text.toList).filter (!·.isEmpty)).forM checkDirective

end LogFilter
end WasmStream
