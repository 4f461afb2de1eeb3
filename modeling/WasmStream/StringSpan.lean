import WasmStream.Memory

/-! The place of a string in memory, as a module hands it to its host: one 64 bit number with the
address in the low half and the length in bytes in the high half. -/
namespace WasmStream

structure StringSpan where
  offset : UInt32
  length : UInt32
  deriving DecidableEq, Repr

namespace StringSpan

def ofPacked (packed : Int64) : StringSpan :=
  let bits := packed.toUInt64
  ⟨bits.toUInt32, (bits >>> 32).toUInt32⟩

def packed (s : StringSpan) : Int64 :=
  (s.length.toUInt64 <<< 32 ||| s.offset.toUInt64).toInt64

def read (s : StringSpan) (m : Memory) (e : StringEncoding) : Except Error (List Char) :=
  m.readString s.offset s.length e

end StringSpan
end WasmStream
