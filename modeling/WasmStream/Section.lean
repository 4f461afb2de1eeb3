/-! The module header and the section ids of the binary format, version 1. -/
namespace WasmStream

def magic : List UInt8 := [0x00, 0x61, 0x73, 0x6D]

def version : List UInt8 := [0x01, 0x00, 0x00, 0x00]

def header : List UInt8 := magic ++ version

/-- Whether the bytes begin with the header. -/
def hasHeader (bytes : List UInt8) : Bool := header.isPrefixOf bytes

inductive SectionId where
  | custom | type | imports | function | table | memory | global | exports | start | element
  | code | data | dataCount
  deriving DecidableEq, Repr

namespace SectionId

def all : List SectionId :=
  [custom, type, imports, function, table, memory, global, exports, start, element, code, data,
    dataCount]

/-- Ids are numbered from zero in the order of `all`. -/
def toByte (id : SectionId) : UInt8 := UInt8.ofNat id.ctorIdx

def ofByte? (b : UInt8) : Option SectionId := all[b.toNat]?

def name : SectionId → String
  | custom => "custom"
  | type => "type"
  | imports => "import"
  | function => "function"
  | table => "table"
  | memory => "memory"
  | global => "global"
  | exports => "export"
  | start => "start"
  | element => "element"
  | code => "code"
  | data => "data"
  | dataCount => "datacount"

@[simp] theorem ofByte?_toByte (id : SectionId) : ofByte? id.toByte = some id := by
  cases id <;> rfl

end SectionId
end WasmStream
