import WasmStream.Decimal.Integer
import WasmStream.StringSpan

/-! What a command line asks for. It has two levels: options for every command, the name of a command,
and what the command takes. The options for every command may stand on both levels; then the value
on the level of the command counts. -/
namespace WasmStream

inductive Command where
  /-- Summarise a module; with a chunk size it is decoded in pieces. -/
  | inspect (path : String) (chunkSize : Option Nat)
  | readString (path : String) (span : StringSpan) (encoding : StringEncoding)
  deriving DecidableEq, Repr

def Command.path : Command → String
  | inspect path _ | readString path _ _ => path

structure SharedOptions where
  config : Option String := none
  logLevel : Option String := none
  maxMemoryPages : Option UInt32 := none
  maxBlockDepth : Option UInt32 := none
  deriving DecidableEq, Repr

/-- The values of `inner`, and those of `outer` where it has none. -/
def SharedOptions.over (inner outer : SharedOptions) : SharedOptions where
  config := inner.config <|> outer.config
  logLevel := inner.logLevel <|> outer.logLevel
  maxMemoryPages := inner.maxMemoryPages <|> outer.maxMemoryPages
  maxBlockDepth := inner.maxBlockDepth <|> outer.maxBlockDepth

structure Invocation where
  options : SharedOptions
  command : Command
  deriving DecidableEq, Repr

/-- Why a command line runs nothing. -/
inductive Refusal where
  | help
  | version
  | misuse
  deriving DecidableEq, Repr

namespace CommandLine

/-- What one level has been given. -/
structure Given where
  shared : SharedOptions := {}
  path : Option String := none
  chunkSize : Option Nat := none
  offset : Option UInt32 := none
  length : Option UInt32 := none
  encoding : Option StringEncoding := none

/-- A value for an option that has none yet. -/
def once {α : Type} (old new : Option α) : Option (Option α) :=
  match old, new with
  | none, some a => some (some a)
  | _, _ => none

def nonEmpty? (text : String) : Option String := if text.isEmpty then none else some text

/-- An unsigned number of 32 bits; zero may have any sign. -/
def u32? (text : String) : Option UInt32 :=
  match integer? text.toList with
  | some n => if 0 ≤ n ∧ n.toNat < UInt32.size then some (UInt32.ofNat n.toNat) else none
  | none => none

/-- A number of bytes, at least one. -/
def chunkSize? (text : String) : Option Nat :=
  match natural? text.toList with
  | some n => if 0 < n ∧ n < UInt64.size then some n else none
  | none => none

def encoding? (text : String) : Option StringEncoding := (StringEncoding.parse text).toOption

def giveShared? (o : SharedOptions) (name value : String) : Option SharedOptions :=
  if name = "config" then (once o.config (nonEmpty? value)).map fun v => { o with config := v }
  else if name = "log-level" then
    (once o.logLevel (some value)).map fun v => { o with logLevel := v }
  else if name = "max-memory-pages" then
    (once o.maxMemoryPages (u32? value)).map fun v => { o with maxMemoryPages := v }
  else if name = "max-block-depth" then
    (once o.maxBlockDepth (u32? value)).map fun v => { o with maxBlockDepth := v }
  else none

/-- The levels of a command line. -/
inductive Level where
  | top | inspect | readString
  deriving DecidableEq, Repr

namespace Level

/-- The level of the command with this name. -/
def ofName? (name : String) : Option Level :=
  if name = "inspect" then some inspect else if name = "read-string" then some readString else none

/-- Take the value of an option, if the level has the option and the value suits it. -/
def give? (level : Level) (g : Given) (name value : String) : Option Given :=
  if level = inspect ∧ name = "chunk-size" then
    (once g.chunkSize (chunkSize? value)).map fun v => { g with chunkSize := v }
  else if level = readString ∧ name = "offset" then
    (once g.offset (u32? value)).map fun v => { g with offset := v }
  else if level = readString ∧ name = "length" then
    (once g.length (u32? value)).map fun v => { g with length := v }
  else if level = readString ∧ name = "encoding" then
    (once g.encoding (encoding? value)).map fun v => { g with encoding := v }
  else (giveShared? g.shared name value).map fun v => { g with shared := v }

def takeWord? (g : Given) (word : String) : Option Given :=
  (once g.path (nonEmpty? word)).map fun v => { g with path := v }

end Level

def orMisuse {α : Type} : Option α → Except Refusal α
  | some a => .ok a
  | none => .error .misuse

/-- The name of a long option and the value attached to it. -/
def splitOption (text : List Char) : String × Option String :=
  match text.dropWhile (· != '=') with
  | _ :: value => (String.ofList (text.takeWhile (· != '=')), some (String.ofList value))
  | [] => (String.ofList text, none)

/-- Whether a word can be the value of the option before it. -/
def isValue (word : String) : Bool := word == "-" || word.toList.head? != some '-'

/-- Read one level. The top level ends at the first word that is not an option. Behind two hyphens
there are only words. -/
def readLevel (level : Level) (g : Given) : List String → Except Refusal (Given × List String)
  | [] => .ok (g, [])
  | token :: rest =>
    match token.toList with
    | ['-', '-'] =>
      if level = .top then .error .misuse
      else do return (← orMisuse (rest.foldlM Level.takeWord? g), [])
    | '-' :: '-' :: option =>
      match splitOption option with
      | ("help", none) => .error .help
      | ("version", none) => .error (if level = .top then .version else .misuse)
      | (name, some value) =>
        match level.give? g name value with
        | some g => readLevel level g rest
        | none => .error .misuse
      | (name, none) =>
        match rest with
        | value :: rest =>
          if isValue value then
            match level.give? g name value with
            | some g => readLevel level g rest
            | none => .error .misuse
          else .error .misuse
        | [] => .error .misuse
    | '-' :: 'h' :: _ => .error .help
    | '-' :: 'V' :: _ => .error (if level = .top then .version else .misuse)
    | '-' :: _ :: _ => .error .misuse
    | _ =>
      if level = .top then .ok (g, token :: rest)
      else
        match Level.takeWord? g token with
        | some g => readLevel level g rest
        | none => .error .misuse

/-- The command of a level that has been read to its end. -/
def Level.command? (level : Level) (g : Given) : Option Command :=
  match level with
  | .top => none
  | .inspect => do return .inspect (← g.path) g.chunkSize
  | .readString => do
    return .readString (← g.path) ⟨← g.offset, ← g.length⟩ (g.encoding.getD .utf8)

/-- Whether these words ask for help about a command. -/
def isHelpTopic (words : List String) : Bool :=
  match words with
  | [] => true
  | [word] => word == "help" || (Level.ofName? word).isSome
  | _ => false

def parse (args : List String) : Except Refusal Invocation := do
  let (outer, rest) ← readLevel .top {} args
  match rest with
  | [] => throw .misuse
  | name :: rest =>
    match Level.ofName? name with
    | some level =>
      let (inner, _) ← readLevel level {} rest
      let command ← orMisuse (level.command? inner)
      return ⟨inner.shared.over outer.shared, command⟩
    | none => throw (if name = "help" ∧ isHelpTopic rest then .help else .misuse)

end CommandLine
end WasmStream
