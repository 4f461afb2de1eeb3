import WasmStream.DecoderLimits
import WasmStream.Instruction.Basic

/-! Reading expressions. The blocks that are open are kept in a list, innermost first, so that the
sequence is read from left to right in one loop; its end is the `end` that no open block claims. -/
namespace WasmStream

def MemArg.reader : Reader MemArg := do
  let align ← Reader.u32
  let offset ← Reader.u32
  return ⟨align, offset⟩

namespace Operator

/-- The immediates of an operator whose opcode has been read. -/
def immediates : Operator → Reader Instruction
  | plain op => return .plain op
  | indexed op => do return .indexed op (← Reader.u32)
  | paired op => do
    let first ← Reader.u32
    let second ← Reader.u32
    return .paired op first second
  | load op => do return .load op (← MemArg.reader)
  | store op => do return .store op (← MemArg.reader)
  | numeric op => return .numeric op
  | truncSat op => return .truncSat op
  | brTable => do
    let count ← Reader.u32
    let targets ← Reader.times Reader.u32 count.toNat
    return .brTable targets (← Reader.u32)
  | selectTyped => do return .selectTyped (← ValueType.listReader)
  | i32Const => do return .i32Const (← Reader.i32)
  | i64Const => do return .i64Const (← Reader.i64)
  | f32Const => do return .f32Const (← Reader.f32Bits)
  | f64Const => do return .f64Const (← Reader.f64Bits)
  | refNull => do return .refNull (← ValueType.referenceReader)

/-- An instruction that begins with the byte `b` at `start`; the byte has been read already. -/
def reader (b : UInt8) (start : Nat) : Reader Instruction := do
  let code ← Opcode.reader b
  match ofOpcode? code with
  | some op => op.immediates
  | none => Reader.fail (code.unknown start)

end Operator

namespace Instruction

def endByte : UInt8 := 0x0B

def elseByte : UInt8 := 0x05

/-- A block whose end has not been read. `before` is what stands in front of it in the sequence
around it, last instruction first, and `elseSeen` whether that sequence has its `else` already. -/
structure OpenBlock where
  kind : BlockKind
  type : BlockType
  before : List Instruction
  elseSeen : Bool

/-- Whether an `else` may stand directly inside the open blocks. -/
def takesElse : List OpenBlock → Bool
  | b :: _ => b.kind == .conditional
  | [] => false

/-- Read on in the sequence inside `opened`, of which `body` has been read, last instruction first.
`used` counts the bytes in front of `c` that belong to the expression. -/
def scan (limits : DecoderLimits) (opened : List OpenBlock) (body : List Instruction)
    (elseSeen : Bool) (used : Nat) (c : Cursor) : Outcome Expression :=
  match _h : c.rest with
  | [] => .needMore
  | b :: _ =>
    if b = endByte then
      match opened with
      | [] => .done body.reverse (used + 1)
      | inner :: outer =>
        scan limits outer (.block inner.kind inner.type body.reverse :: inner.before)
          inner.elseSeen (used + 1) (c.drop 1)
    else if b = elseByte then
      if takesElse opened && !elseSeen then
        scan limits opened (.elseMark :: body) true (used + 1) (c.drop 1)
      else .fail (.unexpectedElement "else" c.offset)
    else match BlockKind.ofByte? b with
      | some kind =>
        if opened.length < limits.maxBlockDepth.toNat then
          match BlockType.reader (c.drop 1) with
          | .done type n =>
            scan limits (⟨kind, type, body, elseSeen⟩ :: opened) [] false (used + (1 + n))
              (c.drop (1 + n))
          | .needMore => .needMore
          | .fail error => .fail error
        else .fail (.limitExceeded "block nesting" limits.maxBlockDepth.toNat c.offset)
      | none =>
        match Operator.reader b c.offset (c.drop 1) with
        | .done instruction n =>
          scan limits opened (instruction :: body) elseSeen (used + (1 + n)) (c.drop (1 + n))
        | .needMore => .needMore
        | .fail error => .fail error
termination_by c.rest.length
decreasing_by
  · exact Cursor.length_drop_lt (by assumption) 0
  · exact Cursor.length_drop_lt (by assumption) 0
  · exact Cursor.length_drop_lt (by assumption) _
  · exact Cursor.length_drop_lt (by assumption) _

end Instruction

/-- Instructions up to and including the closing `end`. -/
def Expression.reader (limits : DecoderLimits) : Reader Expression :=
  Instruction.scan limits [] [] false 0

end WasmStream
