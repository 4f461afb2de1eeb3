import WasmStream.Leb128
import WasmStream.Instruction.Operators

/-! Opcodes and the immediates they ask for. An operator is known by one byte, or by a number behind
the lead byte `0xFC`. -/
namespace WasmStream

inductive Opcode where
  | short (byte : UInt8)
  | extended (number : UInt32)
  deriving DecidableEq, Repr

namespace Opcode

def lead : UInt8 := 0xFC

/-- The shortest written form. -/
def encode : Opcode → List UInt8
  | short b => [b]
  | extended n => lead :: Leb128.ofNat n.toNat

/-- The opcode that begins with the byte `b`, which has been read already. -/
def reader (b : UInt8) : Reader Opcode := do
  if b = lead then return extended (← Reader.u32) else return short b

/-- The error for an opcode that begins at `offset` and means nothing. -/
def unknown (offset : Nat) : Opcode → Error
  | short b => .unknownOpcode b offset
  | extended n => .unknownExtendedOpcode lead n offset

end Opcode

/-- Operators without immediates that are not numeric. -/
inductive PlainOp where
  | unreachable | nop | ret | drop | select | refIsNull
  deriving DecidableEq, Repr

namespace PlainOp

def all : List PlainOp := [unreachable, nop, ret, drop, select, refIsNull]

def opcode : PlainOp → Opcode
  | unreachable => .short 0x00
  | nop => .short 0x01
  | ret => .short 0x0F
  | drop => .short 0x1A
  | select => .short 0x1B
  | refIsNull => .short 0xD1

def mnemonic : PlainOp → String
  | unreachable => "unreachable"
  | nop => "nop"
  | ret => "return"
  | drop => "drop"
  | select => "select"
  | refIsNull => "ref.is_null"

def ofOpcode? (code : Opcode) : Option PlainOp := all.find? fun op => op.opcode == code

@[simp] theorem ofOpcode?_opcode (op : PlainOp) : ofOpcode? op.opcode = some op := by
  cases op <;> rfl

end PlainOp

/-- Operators with one index. -/
inductive IndexOp where
  | br | brIf | call
  | localGet | localSet | localTee | globalGet | globalSet | tableGet | tableSet
  | memorySize | memoryGrow | refFunc
  | dataDrop | memoryFill | elemDrop | tableGrow | tableSize | tableFill
  deriving DecidableEq, Repr

namespace IndexOp

def all : List IndexOp :=
  [br, brIf, call, localGet, localSet, localTee, globalGet, globalSet, tableGet, tableSet,
    memorySize, memoryGrow, refFunc, dataDrop, memoryFill, elemDrop, tableGrow, tableSize,
    tableFill]

def opcode : IndexOp → Opcode
  | br => .short 0x0C
  | brIf => .short 0x0D
  | call => .short 0x10
  | localGet => .short 0x20
  | localSet => .short 0x21
  | localTee => .short 0x22
  | globalGet => .short 0x23
  | globalSet => .short 0x24
  | tableGet => .short 0x25
  | tableSet => .short 0x26
  | memorySize => .short 0x3F
  | memoryGrow => .short 0x40
  | refFunc => .short 0xD2
  | dataDrop => .extended 9
  | memoryFill => .extended 11
  | elemDrop => .extended 13
  | tableGrow => .extended 15
  | tableSize => .extended 16
  | tableFill => .extended 17

def mnemonic : IndexOp → String
  | br => "br"
  | brIf => "br_if"
  | call => "call"
  | localGet => "local.get"
  | localSet => "local.set"
  | localTee => "local.tee"
  | globalGet => "global.get"
  | globalSet => "global.set"
  | tableGet => "table.get"
  | tableSet => "table.set"
  | memorySize => "memory.size"
  | memoryGrow => "memory.grow"
  | refFunc => "ref.func"
  | dataDrop => "data.drop"
  | memoryFill => "memory.fill"
  | elemDrop => "elem.drop"
  | tableGrow => "table.grow"
  | tableSize => "table.size"
  | tableFill => "table.fill"

def ofOpcode? (code : Opcode) : Option IndexOp := all.find? fun op => op.opcode == code

@[simp] theorem ofOpcode?_opcode (op : IndexOp) : ofOpcode? op.opcode = some op := by
  cases op <;> rfl

end IndexOp

/-- Operators with two indices. -/
inductive PairOp where
  | callIndirect | memoryInit | memoryCopy | tableInit | tableCopy
  deriving DecidableEq, Repr

namespace PairOp

def all : List PairOp := [callIndirect, memoryInit, memoryCopy, tableInit, tableCopy]

def opcode : PairOp → Opcode
  | callIndirect => .short 0x11
  | memoryInit => .extended 8
  | memoryCopy => .extended 10
  | tableInit => .extended 12
  | tableCopy => .extended 14

def mnemonic : PairOp → String
  | callIndirect => "call_indirect"
  | memoryInit => "memory.init"
  | memoryCopy => "memory.copy"
  | tableInit => "table.init"
  | tableCopy => "table.copy"

def ofOpcode? (code : Opcode) : Option PairOp := all.find? fun op => op.opcode == code

@[simp] theorem ofOpcode?_opcode (op : PairOp) : ofOpcode? op.opcode = some op := by
  cases op <;> rfl

end PairOp

/-- Every operator that opens no block, by the immediates it asks for. -/
inductive Operator where
  | plain (op : PlainOp)
  | indexed (op : IndexOp)
  | paired (op : PairOp)
  | load (op : LoadOp)
  | store (op : StoreOp)
  | numeric (op : NumericOp)
  | truncSat (op : TruncSatOp)
  | brTable | selectTyped | i32Const | i64Const | f32Const | f64Const | refNull
  deriving DecidableEq, Repr

namespace Operator

def opcode : Operator → Opcode
  | plain op => op.opcode
  | indexed op => op.opcode
  | paired op => op.opcode
  | load op => .short op.toByte
  | store op => .short op.toByte
  | numeric op => .short op.toByte
  | truncSat op => .extended op.toNumber
  | brTable => .short 0x0E
  | selectTyped => .short 0x1C
  | i32Const => .short 0x41
  | i64Const => .short 0x42
  | f32Const => .short 0x43
  | f64Const => .short 0x44
  | refNull => .short 0xD0

/-- The operator of a single byte that is none of the plain, indexed and paired ones. -/
def ofByte? (b : UInt8) : Option Operator :=
  if b = 0x0E then some brTable
  else if b = 0x1C then some selectTyped
  else if b = 0x41 then some i32Const
  else if b = 0x42 then some i64Const
  else if b = 0x43 then some f32Const
  else if b = 0x44 then some f64Const
  else if b = 0xD0 then some refNull
  else (LoadOp.ofByte? b).map load <|> (StoreOp.ofByte? b).map store <|>
    (NumericOp.ofByte? b).map numeric

def ofOpcode? (code : Opcode) : Option Operator :=
  (PlainOp.ofOpcode? code).map plain <|> (IndexOp.ofOpcode? code).map indexed <|>
    (PairOp.ofOpcode? code).map paired <|>
    match code with
    | .short b => ofByte? b
    | .extended n => (TruncSatOp.ofNumber? n).map truncSat

theorem ofOpcode?_opcode (op : Operator) : ofOpcode? op.opcode = some op := by
  cases op with
  | plain op => cases op <;> rfl
  | indexed op => cases op <;> rfl
  | paired op => cases op <;> rfl
  | load op => cases op <;> rfl
  | store op => cases op <;> rfl
  | numeric op => cases op <;> rfl
  | truncSat op => cases op <;> rfl
  | _ => rfl

end Operator
end WasmStream
