import WasmStream.Builder.Field
import WasmStream.Builder.Locals
import WasmStream.Instruction.Reader
import WasmStream.Module.Basic

/-! Function bodies. The bytes of a body are collected first; locals and instructions are read when
all of them are there. -/
namespace WasmStream

/-- Locals and instructions, out of exactly the bytes at `c`. -/
def CodeBody.contents (limits : DecoderLimits) (size : UInt32) (c : Cursor) :
    Except Error (List ValueType × Expression) :=
  match LocalsBuilder.builder limits {} c with
  | .failed error _ _ => .error error
  | .paused _ n => .error (.unexpectedElement "end of code body" (c.offset + n))
  | .ready _ b n => do
    let locals ← b.freeze
    match Expression.reader limits (c.drop n) with
    | .fail error => .error error
    | .needMore => .error (.unexpectedElement "end of code body" (c.offset + c.rest.length))
    | .done body m =>
      if n + m < c.rest.length then .error (.sectionSizeMismatch 10 size (n + m))
      else .ok (locals, body)

structure CodeBuilder where
  size : Option UInt32 := none
  bodyOffset : Nat := 0
  body : ByteField := .ofLength 0
  decoded : Option (List ValueType × Expression) := none
  deriving DecidableEq, Repr

namespace CodeBuilder

def readSize (limits : DecoderLimits) : Builder CodeBuilder UInt32 := do
  match (← Builder.get).size with
  | some size => return size
  | none =>
    let start ← Builder.offset
    let size ← Builder.read Reader.u32
    if limits.maxPayloadSize < size then
      Builder.fail (.limitExceeded "code body size" limits.maxPayloadSize.toNat start)
    let bodyOffset ← Builder.offset
    Builder.modify fun b =>
      { b with size := some size, bodyOffset := bodyOffset, body := .ofLength size.toNat }
    return size

def builder (limits : DecoderLimits) : Builder CodeBuilder Unit := do
  let size ← readSize limits
  let _ ← Builder.remember decoded (fun d b => { b with decoded := some d }) do
    Builder.zoom body (fun f b => { b with body := f }) ByteField.builder
    let b ← Builder.get
    Builder.modify fun b => { b with body := .ofLength 0 }
    Builder.lift do CodeBody.contents limits size ⟨b.bodyOffset, ← b.body.freeze⟩

def freeze (b : CodeBuilder) : Except Error CodeBody :=
  match b.size, b.decoded with
  | some size, some (locals, body) => .ok ⟨size, locals, body⟩
  | _, _ => .error (.invalidState "code body finalized before all of its fields were decoded")

end CodeBuilder
end WasmStream
