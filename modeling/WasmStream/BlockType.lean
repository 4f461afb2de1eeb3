import WasmStream.ValueType

/-! The signature of a block: nothing, one result, or an entry of the type section. All three share
their first byte; an index is the non-negative part of a signed 33 bit number. -/
namespace WasmStream

inductive BlockType where
  | empty
  | value (type : ValueType)
  | typeIndex (index : UInt32)
  deriving DecidableEq, Repr

namespace BlockType

def emptyByte : UInt8 := 0x40

def reader : Reader BlockType := do
  let start ← Reader.offset
  let b ← Reader.peek
  if b = emptyByte then
    Reader.skip 1
    return empty
  else match ValueType.ofByte? b with
    | some t =>
      Reader.skip 1
      return value t
    | none =>
      let index ← Reader.signed 33
      if index < 0 then Reader.fail (.invalidBlockType b start)
      else return typeIndex (UInt32.ofNat index.toNat)

def name : BlockType → String
  | empty => "empty"
  | value t => t.name
  | typeIndex index => s!"type={index}"

/-- The block type as it appears inside the description of an instruction. -/
def label : BlockType → String
  | empty => "Empty"
  | value t => s!"Value({t.label})"
  | typeIndex index => s!"TypeIndex({index})"

end BlockType
end WasmStream
