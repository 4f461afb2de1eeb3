/-! Patterns are regular expressions. This module names what can be wrong with one and where, and
lays out the report: the pattern with carets under the place, and the cause in words. -/
namespace WasmStream
namespace Pattern

/-- The characters from `start` to before `stop`. -/
structure Span where
  start : Nat
  stop : Nat
  deriving DecidableEq, Repr

inductive Cause where
  | classEscape
  | classRangeOrder
  | classRangeEnd
  | classUnclosed
  | decimalTooLarge
  | escapeCut
  | escapeUnknown
  | hexDigit
  | hexNotScalar
  | flagCut
  | flagRepeated
  | flagUnknown
  | negationDangling
  | negationRepeated
  | groupNameCharacter
  | groupNameCut
  | groupNameEmpty
  | groupNameRepeated
  | groupUnclosed
  | groupUnopened
  | countEmpty
  | countUnclosed
  | nothingToRepeat
  | boundaryOrCountCut
  | boundaryUnclosed
  | propertyName
  | backreference
  | lookAround
  | caseUnavailable
  | notText
  | perlClassUnavailable
  | propertyUnavailable
  | unicodeNotAllowed
  deriving DecidableEq, Repr

def Cause.message : Cause → String
  | classEscape => "invalid escape sequence found in character class"
  | classRangeOrder => "invalid character class range, the start must be <= the end"
  | classRangeEnd => "invalid range boundary, must be a literal"
  | classUnclosed => "unclosed character class"
  | decimalTooLarge => "decimal literal invalid"
  | escapeCut => "incomplete escape sequence, reached end of pattern prematurely"
  | escapeUnknown => "unrecognized escape sequence"
  | hexDigit => "invalid hexadecimal digit"
  | hexNotScalar => "hexadecimal literal is not a Unicode scalar value"
  | flagCut => "expected flag but got end of regex"
  | flagRepeated => "duplicate flag"
  | flagUnknown => "unrecognized flag"
  | negationDangling => "dangling flag negation operator"
  | negationRepeated => "flag negation operator repeated"
  | groupNameCharacter => "invalid capture group character"
  | groupNameCut => "unclosed capture group name"
  | groupNameEmpty => "empty capture group name"
  | groupNameRepeated => "duplicate capture group name"
  | groupUnclosed => "unclosed group"
  | groupUnopened => "unopened group"
  | countEmpty => "repetition quantifier expects a valid decimal"
  | countUnclosed => "unclosed counted repetition"
  | nothingToRepeat => "repetition operator missing expression"
  | boundaryOrCountCut =>
    "found either the beginning of a special word boundary or a bounded repetition on a \\b with " ++
      "an opening brace, but no closing brace"
  | boundaryUnclosed =>
    "special word boundary assertion is either unclosed or contains an invalid character"
  | propertyName => "invalid Unicode character class"
  | backreference => "backreferences are not supported"
  | lookAround => "look-around, including look-ahead and look-behind, is not supported"
  | caseUnavailable =>
    "Unicode-aware case insensitivity matching is not available (make sure the unicode-case " ++
      "feature is enabled)"
  | notText => "pattern can match invalid UTF-8"
  | perlClassUnavailable =>
    "Unicode-aware Perl class not found (make sure the unicode-perl feature is enabled)"
  | propertyUnavailable => "Unicode property not found"
  | unicodeNotAllowed => "Unicode not allowed here"

/-- A cause and its place, perhaps with an earlier place that it conflicts with. -/
structure Fault where
  cause : Cause
  span : Span
  earlier : Option Span := none
  deriving DecidableEq, Repr

/-! ## Layout -/

/-- The lines of a text without their ends; a line feed at the end of the text opens no line. -/
def linesOf (text : List Char) : List (List Char) :=
  match (text.splitOn '\n').reverse with
  | [] :: rest => (rest.map dropReturn).reverse
  | last :: rest => (last :: rest.map dropReturn).reverse
  | [] => []
where
  dropReturn (line : List Char) : List Char :=
    if line.getLast? = some '\r' then line.dropLast else line

/-- The line and the column of a place, both counted from one. -/
def position (pattern : List Char) (place : Nat) : Nat × Nat :=
  let front := pattern.take place
  (front.count '\n' + 1, (front.reverse.takeWhile (· != '\n')).length + 1)

/-- Marks under the columns of places on one line, of which the first `column` columns are done. A
place has one caret at least. -/
def carets : (column : Nat) → List (Nat × Nat) → List Char
  | _, [] => []
  | column, (first, stop) :: rest =>
    let indent := first - 1 - column
    let width := max 1 (stop - first)
    List.replicate indent ' ' ++ List.replicate width '^' ++ carets (column + indent + width) rest

/-- The report on a fault. Lines are numbered if there are several, and a place over several lines is
told in words. -/
def Fault.layout (f : Fault) (pattern : List Char) : List String :=
  let places := (f.earlier.toList ++ [f.span]).map fun s =>
    (position pattern s.start, position pattern s.stop)
  let (short, long) := places.partition fun p => p.1.1 == p.2.1
  let lines := linesOf pattern
  let count := lines.length + if pattern.getLast? = some '\n' then 1 else 0
  let width := if count ≤ 1 then 0 else (toString count).length
  let margin := if width = 0 then 4 else width + 2
  let label (n : Nat) : String :=
    if width = 0 then "    "
    else String.ofList (List.replicate (width - (toString n).length) ' ') ++ s!"{n}: "
  let notated := lines.zipIdx.flatMap fun (line, i) =>
    let marks := (short.filter fun p => p.1.1 == i + 1).map fun p => (p.1.2, p.2.2)
    (label (i + 1) ++ String.ofList line) ::
      if marks.isEmpty then [] else [String.ofList (List.replicate margin ' ' ++ carets 0 marks)]
  let ruler := if pattern.contains '\n' then [String.ofList (List.replicate 79 '~')] else []
  let told := long.map fun p =>
    let (line, column) := p.1
    let (lastLine, stop) := p.2
    s!"on line {line} (column {column}) through line {lastLine} (column {stop - 1})"
  ["regex parse error:"] ++ ruler ++ notated ++ ruler ++ told ++ [s!"error: {f.cause.message}"]

def Fault.message (f : Fault) (pattern : List Char) : String :=
  String.intercalate "\n" (f.layout pattern)

end Pattern
end WasmStream
