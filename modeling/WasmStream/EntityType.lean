import WasmStream.ValueType

/-! The types of functions, tables, memories and globals. -/
namespace WasmStream

/-- Size bounds of a memory, in pages, or of a table, in elements. -/
structure Limits where
  min : UInt32
  max : Option UInt32
  deriving DecidableEq, Repr

/-- A flag byte, the minimum and, if the flag says so, the maximum. The flag is judged only when
the minimum has been read. -/
def Limits.reader : Reader Limits := do
  let start ← Reader.offset
  let flag ← Reader.byte
  let min ← Reader.u32
  if flag = 0 then return ⟨min, none⟩
  else if flag = 1 then return ⟨min, some (← Reader.u32)⟩
  else Reader.fail (.unexpectedElement "limits flag" start)

structure FuncType where
  params : List ValueType
  results : List ValueType
  deriving DecidableEq, Repr

namespace FuncType

/-- The byte that a function type begins with. -/
def form : UInt8 := 0x60

def reader : Reader FuncType := do
  let start ← Reader.offset
  let lead ← Reader.byte
  if lead = form then
    let params ← ValueType.listReader
    let results ← ValueType.listReader
    return ⟨params, results⟩
  else Reader.fail (.unexpectedElement "function type form" start)

def typeList (types : List ValueType) : String :=
  "(" ++ String.intercalate ", " (types.map ValueType.name) ++ ")"

def text (t : FuncType) : String := s!"{typeList t.params} -> {typeList t.results}"

end FuncType

structure TableType where
  element : ValueType
  limits : Limits
  deriving DecidableEq, Repr

def TableType.reader : Reader TableType := do
  let element ← ValueType.referenceReader
  let limits ← Limits.reader
  return ⟨element, limits⟩

structure GlobalType where
  type : ValueType
  isMutable : Bool
  deriving DecidableEq, Repr

def GlobalType.reader : Reader GlobalType := do
  let type ← ValueType.reader
  let start ← Reader.offset
  let flag ← Reader.byte
  if flag = 0 then return ⟨type, false⟩
  else if flag = 1 then return ⟨type, true⟩
  else Reader.fail (.unexpectedElement "mutability flag" start)

end WasmStream
