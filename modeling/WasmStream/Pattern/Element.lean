import WasmStream.Decimal.Integer
import WasmStream.Pattern.Fault
import WasmStream.Text.Class

/-! The elements of a pattern in the order of its text. Repetitions and alternatives have to be in
place but leave no element, as nothing is said about them later. A pattern stands in a field of a log
filter, where a closing brace, a comma or an equals sign ends it, so what needs one of them is never
complete here. -/
namespace WasmStream
namespace Pattern

/-- The modes that a group sets or clears. -/
abbrev Flags := List (Char × Bool)

inductive Atom where
  /-- A character; `isByte` if it is written with two digits in base sixteen. -/
  | literal (span : Span) (char : Char) (isByte : Bool)
  | anyChar (span : Span)
  /-- A class such as that of the digits. -/
  | perlClass (span : Span) (negated : Bool)
  /-- A class by a property of its characters. -/
  | property (span : Span)
  | anchor (span : Span)
  /-- The beginning or end of a word, or what is neither. -/
  | boundary (span : Span)
  deriving DecidableEq, Repr

def Atom.span : Atom → Span
  | literal s _ _ | anyChar s | perlClass s _ | property s | anchor s | boundary s => s

inductive Element where
  | flags (flags : Flags)
  | groupOpen (flags : Flags)
  | groupClose
  | atom (atom : Atom)
  /-- An atom between brackets. -/
  | member (atom : Atom)
  /-- The end of what stands between brackets. -/
  | bracketed (span : Span) (negated : Bool)
  deriving DecidableEq, Repr

/-- What is left of the pattern, the number of characters read, whether blanks and comments count for
nothing, and the names of groups. -/
structure Cursor where
  rest : List Char
  offset : Nat := 0
  verbose : Bool := false
  names : List (List Char × Span) := []

abbrev Read := StateT Cursor (Except Fault)

/-! ## Single characters -/

def here : Read Nat := return (← get).offset

def head? : Read (Option Char) := return (← get).rest.head?

def fail {α : Type} (start stop : Nat) (cause : Cause) : Read α :=
  throw { cause, span := ⟨start, stop⟩ }

/-- A fault between two characters. -/
def failHere {α : Type} (cause : Cause) : Read α := do fail (← here) (← here) cause

/-- A fault at the next character. -/
def failAtHead {α : Type} (cause : Cause) : Read α := do fail (← here) ((← here) + 1) cause

def skip (n : Nat) : Read Unit :=
  modify fun c => { c with rest := c.rest.drop n, offset := c.offset + min n c.rest.length }

/-- How many characters at the front are blanks or in comments, which end with their line. -/
def insignificant : (inComment : Bool) → List Char → Nat
  | _, [] => 0
  | true, c :: rest => insignificant (c != '\n') rest + 1
  | false, c :: rest =>
    if isWhiteSpace c || c == '#' then insignificant (c == '#') rest + 1 else 0

def skipSpace : Read Unit := do
  if (← get).verbose then skip (insignificant false (← get).rest)

/-- The next character behind the one at the front. -/
def advance? : Read (Option Char) := do
  skip 1
  if (← head?).isSome then skipSpace
  head?

def skipIf (word : List Char) : Read Bool := do
  if word.isPrefixOf (← get).rest then
    skip word.length
    return true
  else return false

/-- What comes behind the character at the front, with blanks and the first sign of a comment left
out if they count for nothing and something else follows them. -/
def peekSpace? : Read (Option Char) := do
  let c ← get
  let rest := c.rest.tail
  if !c.verbose then return rest.head?
  match rest.filter (!isWhiteSpace ·) with
  | '#' :: found :: _ => return some found
  | '#' :: [] | [] => return rest.head?
  | found :: _ => return some found

/-! ## Escapes -/

/-- The marks that stand for themselves behind a backslash: all of ASCII but letters, digits and the
signs of the ends of words. -/
def isEscapable (c : Char) : Bool :=
  c.toNat < 128 && !c.isAlphanum && c != '<' && c != '>'

/-- The digits of a character, of which there are as many as the width. -/
def hexDigits : (width : Nat) → Read (List Char)
  | 0 => return []
  | width + 1 => do
    let some c ← head? | failHere .escapeCut
    if (digitValue? c).isNone then failAtHead .hexDigit
    let _ ← advance?
    return c :: (← hexDigits width)

/-- The characters of a brace, which is never closed, or the digits of a character. -/
def hexadecimal (escape width : Nat) : Read Atom := do
  let some c ← advance? | failHere .escapeCut
  let start ← here
  if c = '\x7b' then
    let c ← get
    skip 1
    unbraced start c.rest.length
  else
    let digits ← hexDigits width
    let n := (digits? 16 digits).getD 0
    if n.isValidChar then return .literal ⟨escape, ← here⟩ (Char.ofNat n) (width == 2)
    else fail start (← here) .hexNotScalar
where
  unbraced (start : Nat) : (fuel : Nat) → Read Atom
    | 0 => do fail start (← here) .escapeCut
    | fuel + 1 => do
      skipSpace
      let some c ← head? | fail start (← here) .escapeCut
      if (digitValue? c).isNone then failAtHead .hexDigit
      skip 1
      unbraced start fuel

def property (escape : Nat) : Read Atom := do
  match ← advance? with
  | none => failHere .escapeCut
  | some '\x7b' => do
    skip (← get).rest.length
    failHere .escapeCut
  | some '\\' => failAtHead .propertyName
  | some _ =>
    let _ ← advance?
    return .property ⟨escape, ← here⟩

/-- A word in a brace behind the sign of a boundary is never closed; any other brace begins a
count. -/
def boundaryBrace (escape : Nat) : Read Unit := do
  let c ← get
  if c.rest.head? ≠ some '\x7b' then return
  let isWordChar (c : Char) : Bool := c.isAlpha || c == '-'
  match ← advance? with
  | none => fail escape (← here) .boundaryOrCountCut
  | some first => if isWordChar first then word c.offset isWordChar c.rest.length else set c
where
  word (start : Nat) (isWordChar : Char → Bool) : (fuel : Nat) → Read Unit
    | 0 => do fail start (← here) .boundaryUnclosed
    | fuel + 1 => do
      if (← head?).any isWordChar then
        let _ ← advance?
        word start isWordChar fuel
      else fail start (← here) .boundaryUnclosed

/-- A backslash and what belongs to it. -/
def escape : Read Atom := do
  let start ← here
  skip 1
  let some c ← head? | fail start (← here) .escapeCut
  if c.isDigit then fail start ((← here) + 1) .backreference
  if c = 'x' then return ← hexadecimal start 2
  if c = 'u' then return ← hexadecimal start 4
  if c = 'U' then return ← hexadecimal start 8
  if c = 'p' ∨ c = 'P' then return ← property start
  skip 1
  let span : Span := ⟨start, ← here⟩
  if "dsw".toList.contains c then return .perlClass span false
  if "DSW".toList.contains c then return .perlClass span true
  if isEscapable c then return .literal span c false
  match c with
  | 'a' => return .literal span '\x07' false
  | 'f' => return .literal span '\x0c' false
  | 't' => return .literal span '\t' false
  | 'n' => return .literal span '\n' false
  | 'r' => return .literal span '\r' false
  | 'v' => return .literal span '\x0b' false
  | 'A' | 'z' => return .anchor span
  | 'b' =>
    boundaryBrace start
    return .boundary span
  | 'B' | '<' | '>' => return .boundary span
  | _ => throw { cause := .escapeUnknown, span }

/-! ## Brackets -/

/-- The classes that have a name of their own between brackets. -/
def classNames : List String :=
  ["alnum", "alpha", "ascii", "blank", "cntrl", "digit", "graph", "lower", "print", "punct",
    "space", "upper", "word", "xdigit"]

/-- A named class such as `[:alpha:]`; anything else is left unread. -/
def namedClass? : Read (Option Element) := do
  let c ← get
  match c.rest with
  | '[' :: ':' :: rest =>
    let negated := rest.head? = some '^'
    let rest := if negated then rest.tail else rest
    let name := rest.takeWhile (· != ':')
    if classNames.contains (String.ofList name) ∧
        [':', ']'].isPrefixOf (rest.drop name.length) then
      skip (name.length + if negated then 5 else 4)
      return some (.bracketed ⟨c.offset, ← here⟩ negated)
    else return none
  | _ => return none

/-- Brackets that are open, with the span to report if they stay so. -/
structure OpenClass where
  span : Span
  negated : Bool

/-- Hyphens at the beginning stand for themselves. -/
def hyphens (start : Nat) : (fuel : Nat) → Read (List Element)
  | 0 => return []
  | fuel + 1 => do
    if (← head?) ≠ some '-' then return []
    let h ← here
    if (← advance?).isNone then fail start start .classUnclosed
    return .member (.literal ⟨h, h + 1⟩ '-' false) :: (← hyphens start fuel)

/-- An opening bracket, with a caret, hyphens and a closing bracket that stands for itself. -/
def openClass : Read (OpenClass × List Element) := do
  let start ← here
  let unclosed : Read Unit := do fail start (← here) .classUnclosed
  if (← advance?).isNone then unclosed
  let negated := (← head?) = some '^'
  if negated then
    if (← advance?).isNone then unclosed
  let h ← hyphens start (← get).rest.length
  let mut members := h
  if h.isEmpty ∧ (← head?) = some ']' then
    members := [.member (.literal ⟨← here, (← here) + 1⟩ ']' false)]
    if (← advance?).isNone then unclosed
  return (⟨⟨start, ← here⟩, negated⟩, members)

/-- An escape, or a character that stands for itself. -/
def classAtom : Read Atom := do
  match ← head? with
  | some '\\' => escape
  | some c =>
    let h ← here
    skip 1
    return .literal ⟨h, h + 1⟩ c false
  | none => failHere .classUnclosed

/-- One atom, or two literals with a hyphen between them. -/
def classRange (unclosed : Span) : Read (List Element) := do
  let first ← classAtom
  skipSpace
  match ← head? with
  | none => throw { cause := .classUnclosed, span := unclosed }
  | some c =>
    let beyond ← peekSpace?
    if c ≠ '-' ∨ beyond = some ']' ∨ beyond = some '-' then
      match first with
      | .literal .. | .perlClass .. | .property _ => return [.member first]
      | _ => throw { cause := .classEscape, span := first.span }
    else
      if (← advance?).isNone then throw { cause := .classUnclosed, span := unclosed }
      let last ← classAtom
      match first, last with
      | .literal s a _, .literal t b _ =>
        if a ≤ b then return [.member first, .member last]
        else fail s.start t.stop .classRangeOrder
      | .literal .., other | other, _ => throw { cause := .classRangeEnd, span := other.span }

/-- What stands between brackets, up to the end of the outermost of them. -/
def classRest : (fuel : Nat) → OpenClass → (outer : List OpenClass) → Read (List Element)
  | 0, c, _ => throw { cause := .classUnclosed, span := c.span }
  | fuel + 1, c, outer => do
    skipSpace
    match (← get).rest with
    | [] => throw { cause := .classUnclosed, span := c.span }
    | '[' :: _ =>
      match ← namedClass? with
      | some e => return e :: (← classRest fuel c outer)
      | none =>
        let (inner, members) ← openClass
        return members ++ (← classRest fuel inner (c :: outer))
    | ']' :: _ =>
      skip 1
      let e := Element.bracketed ⟨c.span.start, ← here⟩ c.negated
      match outer with
      | [] => return [e]
      | c :: outer => return e :: (← classRest fuel c outer)
    | '&' :: '&' :: _ | '-' :: '-' :: _ | '~' :: '~' :: _ =>
      skip 2
      classRest fuel c outer
    | _ =>
      let members ← classRange c.span
      return members ++ (← classRest fuel c outer)

/-! ## Groups -/

def isFlag (c : Char) : Bool := "imsUuRx".toList.contains c

/-- Flags up to a colon or a closing parenthesis, with a hyphen before those that are cleared. `done`
holds what is read, with its places. -/
def flags : (fuel : Nat) → (done : List (Char × Nat)) → Read Flags
  | 0, _ => failHere .flagCut
  | fuel + 1, done => do
    let some c ← head? | failHere .flagCut
    let h ← here
    if c = ':' ∨ c = ')' then
      match done.getLast? with
      | some ('-', h) => fail h (h + 1) .negationDangling
      | _ =>
        let (on, off) := done.span fun f => f.1 != '-'
        return on.map (fun f => (f.1, true)) ++ off.tail.map fun f => (f.1, false)
    if c ≠ '-' ∧ !isFlag c then failAtHead .flagUnknown
    match done.lookup c with
    | some earlier =>
      throw { cause := if c = '-' then .negationRepeated else .flagRepeated, span := ⟨h, h + 1⟩,
              earlier := some ⟨earlier, earlier + 1⟩ }
    | none =>
      skip 1
      flags fuel (done ++ [(c, h)])

def isNameChar (first : Bool) (c : Char) : Bool :=
  c == '_' || if first then isAlphabetic c else c == '.' || c == '[' || c == ']' || isAlphanumeric c

/-- The name of a group, up to a closing angle bracket. -/
def groupName : Read Unit := do
  let start ← here
  let c ← get
  let name := c.rest.takeWhile (· != '>')
  match name.zipIdx.find? fun p => !isNameChar (p.2 == 0) p.1 with
  | some (_, i) => fail (start + i) (start + i + 1) .groupNameCharacter
  | none =>
    skip name.length
    let span : Span := ⟨start, ← here⟩
    if (← head?).isNone then failHere .groupNameCut
    skip 1
    if name.isEmpty then fail start start .groupNameEmpty
    match c.names.lookup name with
    | some earlier => throw { cause := .groupNameRepeated, span, earlier := some earlier }
    | none => modify fun c => { c with names := (name, span) :: c.names }

/-- An opening parenthesis: flags alone, or a group with its flags. -/
def group : Read Element := do
  let start ← here
  skip 1
  skipSpace
  if (← skipIf "?=".toList) || (← skipIf "?!".toList) || (← skipIf "?<=".toList) ||
      (← skipIf "?<!".toList) then
    fail start (← here) .lookAround
  let question ← here
  if (← skipIf "?P<".toList) || (← skipIf "?<".toList) then
    groupName
    return .groupOpen []
  if ← skipIf ['?'] then
    if (← head?).isNone then fail start (start + 1) .groupUnclosed
    let fs ← flags ((← get).rest.length + 1) []
    let closes := (← head?) = some ')'
    skip 1
    if !closes then return .groupOpen fs
    if fs.isEmpty then fail question question .nothingToRepeat
    return .flags fs
  return .groupOpen []

/-! ## Patterns -/

/-- A count behind an opening brace is never closed. -/
def count : Read (List Element) := do
  let start ← here
  if (← advance?).isNone then fail start (← here) .countUnclosed
  let c ← get
  skip (c.rest.takeWhile isWhiteSpace).length
  let first ← here
  let digits ← digitsFrom c.rest.length
  let stop ← here
  skip ((← get).rest.takeWhile isWhiteSpace).length
  skipSpace
  if (← head?).isSome then
    if digits.isEmpty then fail first stop .countEmpty
    if (digits? 10 digits).any (· ≥ UInt32.size) then fail first stop .decimalTooLarge
  fail start (← here) .countUnclosed
where
  digitsFrom : (fuel : Nat) → Read (List Char)
    | 0 => return []
    | fuel + 1 => do
      let some c ← head? | return []
      if !c.isDigit then return []
      let _ ← advance?
      return c :: (← digitsFrom fuel)

def setVerbose (b : Bool) : Read Unit := modify fun c => { c with verbose := b }

/-- An atom outside of brackets. -/
def atom : Read Atom := do
  match ← head? with
  | some '\\' => escape
  | some c =>
    let span : Span := ⟨← here, (← here) + 1⟩
    skip 1
    return if c = '.' then .anyChar span
      else if c = '^' ∨ c = '$' then .anchor span
      else .literal span c false
  | none => failHere .nothingToRepeat

/-- A group that is open: its place, and whether blanks counted for nothing outside. -/
structure OpenGroup where
  start : Nat
  verbose : Bool

/-- The rest of a pattern in which groups are open. `repeatable` says whether something that can be
repeated is right before it. -/
def patternRest : (fuel : Nat) → List OpenGroup → (repeatable : Bool) → Read (List Element)
  | 0, _, _ => return []
  | fuel + 1, groups, repeatable => do
    skipSpace
    let h ← here
    match ← head? with
    | none =>
      match groups with
      | [] => return []
      | g :: _ => fail g.start (g.start + 1) .groupUnclosed
    | some '(' =>
      let outer := (← get).verbose
      let e ← group
      match e with
      | .flags fs =>
        setVerbose ((fs.lookup 'x').getD outer)
        return e :: (← patternRest fuel groups false)
      | .groupOpen fs =>
        setVerbose ((fs.lookup 'x').getD outer)
        return e :: (← patternRest fuel (⟨h, outer⟩ :: groups) false)
      | e => return e :: (← patternRest fuel groups true)
    | some ')' =>
      match groups with
      | [] => failAtHead .groupUnopened
      | g :: groups =>
        setVerbose g.verbose
        skip 1
        return .groupClose :: (← patternRest fuel groups true)
    | some '|' =>
      skip 1
      patternRest fuel groups false
    | some '[' =>
      let (c, members) ← openClass
      let rest ← classRest ((← get).rest.length + 1) c []
      return members ++ rest ++ (← patternRest fuel groups true)
    | some '\x7b' => if repeatable then count else failHere .nothingToRepeat
    | some c =>
      if c = '?' ∨ c = '*' ∨ c = '+' then
        if !repeatable then failHere .nothingToRepeat
        skip 1
        let _ ← skipIf ['?']
        patternRest fuel groups true
      else
        let a ← atom
        return .atom a :: (← patternRest fuel groups true)

/-- The elements of a pattern. -/
def elements (pattern : List Char) : Except Fault (List Element) :=
  (patternRest (pattern.length + 1) [] false).run' { rest := pattern }

end Pattern
end WasmStream
