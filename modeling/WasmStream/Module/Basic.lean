import WasmStream.EntityType
import WasmStream.Instruction.Basic
import WasmStream.Text.Utf8

/-! Modules and their entries. -/
namespace WasmStream

/-- A name from its bytes. -/
def readName (bytes : List UInt8) : Except Error String :=
  match Utf8.decode bytes with
  | .ok text => .ok (String.ofList text)
  | .error fault => .error (.invalidUtf8 fault)

inductive ExternalKind where
  | function | table | memory | global | tag
  deriving DecidableEq, Repr

namespace ExternalKind

def all : List ExternalKind := [function, table, memory, global, tag]

/-- Kinds are numbered from zero in the order of `all`. -/
def toByte (kind : ExternalKind) : UInt8 := UInt8.ofNat kind.ctorIdx

def ofByte (b : UInt8) (offset : Nat) : Except Error ExternalKind :=
  match all[b.toNat]? with
  | some kind => .ok kind
  | none => .error (.unexpectedElement "external kind" offset)

def name : ExternalKind → String
  | function => "func"
  | table => "table"
  | memory => "memory"
  | global => "global"
  | tag => "tag"

end ExternalKind

inductive ImportDesc where
  | function (typeIndex : UInt32)
  | table (type : TableType)
  | memory (pages : Limits)
  | global (type : GlobalType)
  | tag (typeIndex : UInt32)
  deriving DecidableEq, Repr

def ImportDesc.kind : ImportDesc → ExternalKind
  | function .. => .function
  | table .. => .table
  | memory .. => .memory
  | global .. => .global
  | tag .. => .tag

structure Import where
  moduleName : String
  name : String
  desc : ImportDesc
  deriving DecidableEq, Repr

/-- `index` counts in the combined space of the kind: imports first, then definitions. -/
structure Export where
  name : String
  kind : ExternalKind
  index : UInt32
  deriving DecidableEq, Repr

structure Global where
  type : GlobalType
  init : Expression
  deriving DecidableEq, Repr

/-- A passive segment has no offset, and zero for its memory. -/
structure DataSegment where
  memoryIndex : UInt32
  offset : Expression
  bytes : List UInt8
  passive : Bool
  deriving DecidableEq, Repr

/-- `locals` has one type for every slot, parameters excluded. -/
structure CodeBody where
  size : UInt32
  locals : List ValueType
  body : Expression
  deriving DecidableEq, Repr

structure CustomSection where
  name : String
  payload : List UInt8
  deriving DecidableEq, Repr

/-- What a section adds to a module. -/
inductive Entry where
  | type (entry : FuncType)
  | imports (entry : Import)
  | function (typeIndex : UInt32)
  | table (entry : TableType)
  | memory (entry : Limits)
  | global (entry : Global)
  | exports (entry : Export)
  | start (index : UInt32)
  | dataCount (count : UInt32)
  | data (entry : DataSegment)
  | code (entry : CodeBody)
  | custom (entry : CustomSection)
  deriving DecidableEq, Repr

/-- A decoded module: the entries of its sections, kind by kind and in order of appearance. -/
structure Module where
  types : List FuncType := []
  imports : List Import := []
  functions : List UInt32 := []
  tables : List TableType := []
  memories : List Limits := []
  globals : List Global := []
  exports : List Export := []
  start : Option UInt32 := none
  dataCount : Option UInt32 := none
  data : List DataSegment := []
  code : List CodeBody := []
  customSections : List CustomSection := []
  deriving DecidableEq, Repr

namespace Module

def empty : Module := {}

/-- A later start function or data count replaces an earlier one. -/
def add (m : Module) : Entry → Module
  | .type entry => { m with types := m.types ++ [entry] }
  | .imports entry => { m with imports := m.imports ++ [entry] }
  | .function typeIndex => { m with functions := m.functions ++ [typeIndex] }
  | .table entry => { m with tables := m.tables ++ [entry] }
  | .memory entry => { m with memories := m.memories ++ [entry] }
  | .global entry => { m with globals := m.globals ++ [entry] }
  | .exports entry => { m with exports := m.exports ++ [entry] }
  | .start index => { m with start := some index }
  | .dataCount count => { m with dataCount := some count }
  | .data entry => { m with data := m.data ++ [entry] }
  | .code entry => { m with code := m.code ++ [entry] }
  | .custom entry => { m with customSections := m.customSections ++ [entry] }

def addAll (m : Module) (entries : List Entry) : Module := entries.foldl add m

/-- The entries of one module, then those of another. -/
def append (m n : Module) : Module where
  types := m.types ++ n.types
  imports := m.imports ++ n.imports
  functions := m.functions ++ n.functions
  tables := m.tables ++ n.tables
  memories := m.memories ++ n.memories
  globals := m.globals ++ n.globals
  exports := m.exports ++ n.exports
  start := n.start <|> m.start
  dataCount := n.dataCount <|> m.dataCount
  data := m.data ++ n.data
  code := m.code ++ n.code
  customSections := m.customSections ++ n.customSections

@[simp] theorem append_empty (m : Module) : m.append empty = m := by
  cases m; simp [append, empty]

@[simp] theorem empty_append (m : Module) : empty.append m = m := by
  cases m; simp [append, empty]

theorem append_add (m n : Module) (e : Entry) : m.append (n.add e) = (m.append n).add e := by
  cases e <;> simp [append, add, List.append_assoc]

theorem addAll_eq_append (m : Module) (entries : List Entry) :
    m.addAll entries = m.append (empty.addAll entries) := by
  have key : ∀ (es : List Entry) (n : Module), (m.append n).addAll es = m.append (n.addAll es) := by
    intro es
    induction es with
    | nil => intro n; rfl
    | cons e es ih =>
      intro n
      have h := ih (n.add e)
      rw [append_add] at h
      exact h
  simpa using key entries empty

end Module
end WasmStream
