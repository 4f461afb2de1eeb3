import WasmStream.Decimal.Integer

/-! The words of TOML: the ends of lines, strings, keys and integers. -/
namespace WasmStream
namespace Toml

/-- What an element is read as, and the text behind it. -/
abbrev Parsed (α : Type) := Option (α × List Char)

def isBlank (c : Char) : Bool := c == ' ' || c == '\t'

def skipBlanks (cs : List Char) : List Char := cs.dropWhile isBlank

/-- Control characters other than the tab are part of no text. -/
def isControl (c : Char) : Bool := (c.toNat < 32 && c != '\t') || c.toNat == 127

/-- A line ends with a line feed, a carriage return and a line feed, or the document. -/
def lineEnd? : List Char → Option (List Char)
  | [] => some []
  | '\n' :: rest => some rest
  | '\r' :: '\n' :: rest => some rest
  | _ => none

/-- The text behind blanks and ends of lines. -/
def skipLines : List Char → List Char
  | '\r' :: '\n' :: rest => skipLines rest
  | c :: rest => if isBlank c || c == '\n' then skipLines rest else c :: rest
  | [] => []

/-- The end of a line, perhaps behind a comment. -/
def lineRest? (cs : List Char) : Option (List Char) :=
  match skipBlanks cs with
  | '#' :: rest => lineEnd? (rest.dropWhile fun c => !isControl c)
  | rest => lineEnd? rest

/-- The text behind blanks, ends of lines and comments; a comment ends with its line. `inComment` says
whether the text is in one. -/
def skipComments? (inComment : Bool) : List Char → Option (List Char)
  | '\r' :: '\n' :: rest => skipComments? false rest
  | '\n' :: rest => skipComments? false rest
  | c :: rest =>
    if inComment then if isControl c then none else skipComments? true rest
    else if isBlank c then skipComments? false rest
    else if c == '#' then skipComments? true rest
    else if c == '\r' then none
    else some (c :: rest)
  | [] => if inComment then none else some []

/-- The scalar value with these digits. -/
def scalar? (digits : List Char) : Option Char := do
  let n ← digits? 16 digits
  if n.isValidChar then some (Char.ofNat n) else none

/-- The character behind a backslash. -/
def escape? : List Char → Parsed Char
  | 'b' :: rest => some ('\x08', rest)
  | 't' :: rest => some ('\t', rest)
  | 'n' :: rest => some ('\n', rest)
  | 'f' :: rest => some ('\x0c', rest)
  | 'r' :: rest => some ('\r', rest)
  | '"' :: rest => some ('"', rest)
  | '\\' :: rest => some ('\\', rest)
  | 'u' :: rest => if 4 ≤ rest.length then (scalar? (rest.take 4)).map (·, rest.drop 4) else none
  | 'U' :: rest => if 8 ≤ rest.length then (scalar? (rest.take 8)).map (·, rest.drop 8) else none
  | _ => none

theorem length_of_escape? {cs : List Char} {c : Char} {rest : List Char}
    (h : escape? cs = some (c, rest)) : rest.length < cs.length := by
  unfold escape? at h
  split at h <;> simp_all
  all_goals
    obtain ⟨_, _, _, _, rfl⟩ := h
    simp only [List.length_drop]
    omega

/-- The rest of a string with escapes, after its opening quote. -/
def basic? : List Char → Parsed (List Char)
  | [] => none
  | '"' :: rest => some ([], rest)
  | '\\' :: rest =>
    match _h : escape? rest with
    | some (c, rest) => (basic? rest).map fun p => (c :: p.1, p.2)
    | none => none
  | c :: rest => if isControl c then none else (basic? rest).map fun p => (c :: p.1, p.2)
termination_by cs => cs.length
decreasing_by
  · have := length_of_escape? _h
    simp only [List.length_cons]
    omega
  · simp

/-- The rest of a string without escapes, after its opening quote. -/
def literal? : List Char → Parsed (List Char)
  | [] => none
  | '\'' :: rest => some ([], rest)
  | c :: rest => if isControl c then none else (literal? rest).map fun p => (c :: p.1, p.2)

/-- The closing quotes of a string over several lines, of which up to two may belong to the text. -/
def closing? (quote : Char) (cs : List Char) : Parsed (List Char) :=
  let quotes := (cs.takeWhile (· == quote)).length
  if 3 ≤ quotes ∧ quotes ≤ 5 then some (List.replicate (quotes - 3) quote, cs.drop quotes) else none

/-- The rest of a string over several lines, with its first `fuel` characters at most. A backslash
before the end of a line joins the next text to what is before it. -/
def lines? (quote : Char) : (fuel : Nat) → List Char → Parsed (List Char)
  | 0, _ => none
  | _ + 1, [] => none
  | fuel + 1, c :: rest =>
    let more (c : Char) (rest : List Char) := (lines? quote fuel rest).map fun p => (c :: p.1, p.2)
    if c = quote then
      match closing? quote (c :: rest) with
      | some p => some p
      | none => if (rest.takeWhile (· == quote)).length < 2 then more c rest else none
    else if c = '\n' then more c rest
    else if c = '\r' then
      match rest with
      | '\n' :: rest => more '\n' rest
      | _ => none
    else if c = '\\' ∧ quote = '"' then
      match escape? rest with
      | some (c, rest) => more c rest
      | none =>
        match skipBlanks rest with
        | '\n' :: rest | '\r' :: '\n' :: rest =>
          lines? quote fuel (skipLines rest)
        | _ => none
    else if isControl c then none
    else more c rest

def string? : List Char → Parsed (List Char)
  | '"' :: '"' :: '"' :: rest => multiline '"' rest
  | '\'' :: '\'' :: '\'' :: rest => multiline '\'' rest
  | '"' :: rest => basic? rest
  | '\'' :: rest => literal? rest
  | _ => none
where
  /-- The end of the first line is no part of the text if the line is empty. -/
  multiline (quote : Char) (cs : List Char) : Parsed (List Char) :=
    match cs with
    | '\n' :: rest | '\r' :: '\n' :: rest => lines? quote (rest.length + 1) rest
    | cs => lines? quote (cs.length + 1) cs

def isBare (c : Char) : Bool := c.isAlphanum || c == '_' || c == '-'

/-- One part of a key: a bare word or a string on one line. -/
def keyPart? (cs : List Char) : Parsed String :=
  match cs with
  | '"' :: rest => (basic? rest).map fun p => (String.ofList p.1, p.2)
  | '\'' :: rest => (literal? rest).map fun p => (String.ofList p.1, p.2)
  | cs =>
    let word := cs.takeWhile isBare
    if word.isEmpty then none else some (String.ofList word, cs.dropWhile isBare)

/-- A key: one part, or two with a point between them. -/
def key? (cs : List Char) : Option ((String × Option String) × List Char) := do
  let (first, rest) ← keyPart? (skipBlanks cs)
  match skipBlanks rest with
  | '.' :: rest => do
    let (second, rest) ← keyPart? (skipBlanks rest)
    some ((first, some second), skipBlanks rest)
  | rest => some ((first, none), rest)

/-- Whether there is an underscore right behind another one. -/
def doubleUnderscore : List Char → Bool
  | '_' :: '_' :: _ => true
  | _ :: rest => doubleUnderscore rest
  | [] => false

/-- Digits with single underscores between them. -/
def separated? (base : Nat) (cs : List Char) : Option Nat :=
  if cs.head? = some '_' ∨ cs.getLast? = some '_' ∨ doubleUnderscore cs then none
  else digits? base (cs.filter (· != '_'))

/-- Digits that do not begin with a zero, or zero itself. -/
def decimal? (cs : List Char) : Option Nat :=
  match cs with
  | '0' :: _ :: _ => none
  | cs => separated? 10 cs

/-- An integer of 64 bits, in decimal with an optional sign or in base sixteen, eight or two without
one. -/
def integer? (word : List Char) : Option Int := do
  let n : Int ← match word with
    | '0' :: 'x' :: digits => (separated? 16 digits).map Int.ofNat
    | '0' :: 'o' :: digits => (separated? 8 digits).map Int.ofNat
    | '0' :: 'b' :: digits => (separated? 2 digits).map Int.ofNat
    | '-' :: digits => (decimal? digits).map fun n => -(n : Int)
    | '+' :: digits => (decimal? digits).map Int.ofNat
    | digits => (decimal? digits).map Int.ofNat
  if Int64.minValue.toInt ≤ n ∧ n ≤ Int64.maxValue.toInt then some n else none

def isTruthValue (word : List Char) : Bool := word == "true".toList || word == "false".toList

/-- A decimal with digits behind a point, an exponent or both, or a word for what is no finite number,
behind a sign or none. -/
def isFraction (word : List Char) : Bool :=
  let unsigned := match word with
    | '+' :: rest | '-' :: rest => rest
    | rest => rest
  let (mantissa, exponent) := unsigned.span fun c => c != 'e' && c != 'E'
  let (whole, fraction) := mantissa.span (· != '.')
  let digits (cs : List Char) : Bool := (separated? 10 cs).isSome
  unsigned == "inf".toList || unsigned == "nan".toList ||
    (!(fraction.isEmpty && exponent.isEmpty) && (decimal? whole).isSome &&
      (fraction.isEmpty || digits fraction.tail) && match exponent with
        | [] => true
        | _ :: '+' :: ds | _ :: '-' :: ds | _ :: ds => digits ds)

end Toml
end WasmStream
