import WasmStream.Leb128

/-! Value types and their bytes. -/
namespace WasmStream

inductive ValueType where
  | i32 | i64 | f32 | f64 | v128 | funcRef | externRef
  deriving DecidableEq, Repr

namespace ValueType

def all : List ValueType := [i32, i64, f32, f64, v128, funcRef, externRef]

def toByte : ValueType → UInt8
  | i32 => 0x7F
  | i64 => 0x7E
  | f32 => 0x7D
  | f64 => 0x7C
  | v128 => 0x7B
  | funcRef => 0x70
  | externRef => 0x6F

def ofByte? (b : UInt8) : Option ValueType := all.find? fun t => t.toByte == b

def ofByte (b : UInt8) (offset : Nat) : Except Error ValueType :=
  match ofByte? b with
  | some t => .ok t
  | none => .error (.invalidValueType b offset)

def name : ValueType → String
  | i32 => "i32"
  | i64 => "i64"
  | f32 => "f32"
  | f64 => "f64"
  | v128 => "v128"
  | funcRef => "funcref"
  | externRef => "externref"

/-- The name as it appears inside the description of an instruction. -/
def label : ValueType → String
  | i32 => "I32"
  | i64 => "I64"
  | f32 => "F32"
  | f64 => "F64"
  | v128 => "V128"
  | funcRef => "FuncRef"
  | externRef => "ExternRef"

def isReference : ValueType → Bool
  | funcRef | externRef => true
  | _ => false

@[simp] theorem ofByte?_toByte (t : ValueType) : ofByte? t.toByte = some t := by cases t <;> rfl

theorem toByte_of_ofByte? {b : UInt8} {t : ValueType} (h : ofByte? b = some t) : t.toByte = b := by
  simpa using List.find?_some h

def reader : Reader ValueType := do
  let start ← Reader.offset
  let b ← Reader.byte
  match ofByte? b with
  | some t => return t
  | none => Reader.fail (.invalidValueType b start)

/-- A reference type. -/
def referenceReader : Reader ValueType := do
  let start ← Reader.offset
  let t ← reader
  if t.isReference then return t else Reader.fail (.invalidValueType t.toByte start)

/-- A count and that many types. -/
def listReader : Reader (List ValueType) := do Reader.times reader (← Reader.u32).toNat

end ValueType
end WasmStream
