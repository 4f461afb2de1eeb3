import WasmStream.Setting
import WasmStream.Toml.Lexeme

/-! The part of TOML in which settings are written: keys of one or two parts, tables with a header of
one part, inline tables, arrays and scalar values. No setting is a date or a table within a table, so
a document with one of these is no document of settings, and it is refused here. -/
namespace WasmStream
namespace Toml

/-- A string, an integer, or a value of a kind that no setting has. -/
def scalarValue? (cs : List Char) : Parsed Setting :=
  match cs with
  | '"' :: _ | '\'' :: _ => (string? cs).map fun p => (.text (String.ofList p.1), p.2)
  | cs =>
    let isWord (c : Char) : Bool := isBare c || c == '+' || c == '.'
    let word := cs.takeWhile isWord
    let rest := cs.dropWhile isWord
    match integer? word with
    | some n => some (.integer n, rest)
    | none => if isTruthValue word || isFraction word then some (.other, rest) else none

/-- The fields of an inline table after its opening brace, of which `fields` came before. -/
def inlineFields? (value? : List Char → Parsed Setting) : (fuel : Nat) →
    (fields : List (String × Setting)) → List Char → Option (Setting × List Char)
  | 0, _, _ => none
  | fuel + 1, fields, cs => do
    let ((name, none), '=' :: rest) ← key? cs | none
    if (fields.lookup name).isSome then none
    else do
      let (value, rest) ← value? (skipBlanks rest)
      match skipBlanks rest with
      | ',' :: rest => inlineFields? value? fuel (fields ++ [(name, value)]) rest
      | '\x7d' :: rest => some (.table (fields ++ [(name, value)]), rest)
      | _ => none

/-- The items of an array after its opening bracket, of which `items` came before. They may be on
several lines, with comments between them, and a comma may follow the last. -/
def arrayItems? (value? : List Char → Parsed Setting) : (fuel : Nat) → (items : List Setting) →
    List Char → Option (Setting × List Char)
  | 0, _, _ => none
  | fuel + 1, items, cs => do
    match ← skipComments? false cs with
    | ']' :: rest => some (.list items, rest)
    | cs =>
      let (value, rest) ← value? cs
      match ← skipComments? false rest with
      | ',' :: rest => arrayItems? value? fuel (items ++ [value]) rest
      | ']' :: rest => some (.list (items ++ [value]), rest)
      | _ => none

/-- A value in which arrays and inline tables are at most `depth` deep. -/
def valueWithin? : (depth : Nat) → List Char → Parsed Setting
  | 0, cs => scalarValue? cs
  | depth + 1, cs =>
    match cs with
    | '\x7b' :: rest =>
      match skipBlanks rest with
      | '\x7d' :: rest => some (.table [], rest)
      | rest => inlineFields? (valueWithin? depth) rest.length [] rest
    | '[' :: rest => arrayItems? (valueWithin? depth) (rest.length + 1) [] rest
    | cs => scalarValue? cs

def value? (cs : List Char) : Parsed Setting := valueWithin? 79 cs

/-- What a name at the top stands for. A table that dotted keys have made takes further ones; a table
with a header takes the fields under it. -/
inductive Item where
  | value (s : Setting)
  | dotted (fields : List (String × Setting))
  | header (fields : List (String × Setting))

def Item.setting : Item → Setting
  | .value s => s
  | .dotted fields | .header fields => .table fields

/-- The items read so far, the latest first, and whether the latest is the table of the fields that
come next. -/
structure Document where
  items : List (String × Item)
  inTable : Bool

namespace Document

def empty : Document := ⟨[], false⟩

def addHeader? (d : Document) (name : String) : Option Document :=
  if (d.items.lookup name).isSome then none else some ⟨(name, .header []) :: d.items, true⟩

/-- Add a field under the header that came last. -/
def addField? (d : Document) (name : String) (s : Setting) : Option Document :=
  match d.items with
  | (table, .header fields) :: rest =>
    if (fields.lookup name).isSome then none
    else some { d with items := (table, .header (fields ++ [(name, s)])) :: rest }
  | _ => none

def addValue? (d : Document) (name : String) (s : Setting) : Option Document :=
  if (d.items.lookup name).isSome then none
  else some { d with items := (name, .value s) :: d.items }

def addDotted? (d : Document) (table name : String) (s : Setting) : Option Document :=
  match d.items.lookup table with
  | none => some { d with items := (table, .dotted [(name, s)]) :: d.items }
  | some (.dotted fields) =>
    if (fields.lookup name).isSome then none
    else some { d with
      items := (table, .dotted (fields ++ [(name, s)])) :: d.items.filter (·.1 != table) }
  | some _ => none

def add? (d : Document) (key : String × Option String) (s : Setting) : Option Document :=
  match d.inTable, key with
  | true, (name, none) => d.addField? name s
  | true, (_, some _) => none
  | false, (name, none) => d.addValue? name s
  | false, (table, some name) => d.addDotted? table name s

def toSetting (d : Document) : Setting :=
  .table (d.items.reverse.map fun i => (i.1, i.2.setting))

end Document

/-- One line: a comment or nothing, a header, or a key and its value. -/
def line? (d : Document) (cs : List Char) : Option (Document × List Char) :=
  match skipBlanks cs with
  | '[' :: rest => do
    let ((name, none), ']' :: rest) ← key? rest | none
    let rest ← lineRest? rest
    return (← d.addHeader? name, rest)
  | cs =>
    match lineRest? cs with
    | some rest => some (d, rest)
    | none => do
      let (key, '=' :: rest) ← key? cs | none
      let (s, rest) ← value? (skipBlanks rest)
      let rest ← lineRest? rest
      return (← d.add? key s, rest)

/-- The lines, of which there are `fuel` at most. -/
def document? : (fuel : Nat) → Document → List Char → Option Document
  | _, d, [] => some d
  | 0, _, _ => none
  | fuel + 1, d, cs => do
    let (d, rest) ← line? d cs
    document? fuel d rest

/-- The settings in a document, which may begin with a byte order mark. -/
def parse? (cs : List Char) : Option Setting :=
  let cs := if cs.head? = some '\ufeff' then cs.tail else cs
  (document? cs.length .empty cs).map Document.toSetting

end Toml
end WasmStream
