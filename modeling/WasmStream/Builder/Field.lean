import WasmStream.Builder.Basic

/-! Fields whose length is known before their bytes are there. -/
namespace WasmStream

/-- Bytes on the way to a known length: those that have arrived and the number still missing. -/
structure ByteField where
  filled : List UInt8
  missing : Nat
  deriving DecidableEq, Repr

namespace ByteField

def ofLength (n : Nat) : ByteField := ⟨[], n⟩

def length (f : ByteField) : Nat := f.filled.length + f.missing

def isComplete (f : ByteField) : Bool := f.missing == 0

/-- Take the whole chunk, or nothing if it is longer than what is missing. -/
def append (f : ByteField) (chunk : List UInt8) : Except Error ByteField :=
  if chunk.length ≤ f.missing then .ok ⟨f.filled ++ chunk, f.missing - chunk.length⟩
  else .error (.invalidState
    s!"append of {chunk.length} bytes to a field missing only {f.missing}")

/-- Take what is there, at most what is missing. -/
def fill (f : ByteField) (available : List UInt8) : ByteField :=
  let taken := available.take f.missing
  ⟨f.filled ++ taken, f.missing - taken.length⟩

/-- The number of bytes that `fill` takes. -/
def taken (f : ByteField) (available : List UInt8) : Nat := (available.take f.missing).length

def freeze (f : ByteField) : Except Error (List UInt8) :=
  if f.isComplete then .ok f.filled
  else .error (.invalidState
    s!"finalize with {f.missing} of {f.length} bytes still missing")

/-- Fill the field from the bytes ahead; ready once it is complete. -/
def builder : Builder ByteField Unit := fun f c =>
  let f' := f.fill c.rest
  if f'.isComplete then .ready () f' (f.taken c.rest) else .paused f' (f.taken c.rest)

@[simp] theorem filled_fill (f : ByteField) (available : List UInt8) :
    (f.fill available).filled = f.filled ++ available.take f.missing := rfl

theorem missing_fill (f : ByteField) (available : List UInt8) :
    (f.fill available).missing = f.missing - available.length := by
  simp only [fill, List.length_take]
  omega

theorem length_fill (f : ByteField) (available : List UInt8) :
    (f.fill available).length = f.length := by
  simp only [length, fill, List.length_append, List.length_take]
  omega

end ByteField

/-- A field written as its length and its bytes. -/
inductive Pending where
  | awaitingLength
  | filling (field : ByteField)
  deriving DecidableEq, Repr

namespace Pending

/-- The field of the length that comes next, or the one that is being filled. -/
def field (maxLength : UInt32) : Builder Pending ByteField := do
  match ← Builder.get with
  | filling f => return f
  | awaitingLength =>
    let start ← Builder.offset
    let length ← Builder.read Reader.u32
    if maxLength < length then
      Builder.fail (.limitExceeded "field length" maxLength.toNat start)
    let f := ByteField.ofLength length.toNat
    Builder.modify fun _ => filling f
    return f

/-- Take what is there for `f`. Once it is complete the next length is awaited. -/
def complete (f : ByteField) : Builder Pending ByteField := fun _ c =>
  let f' := f.fill c.rest
  if f'.isComplete then .ready f' awaitingLength (f.taken c.rest)
  else .paused (filling f') (f.taken c.rest)

def builder {α : Type} (freeze : List UInt8 → Except Error α) (maxLength : UInt32) :
    Builder Pending α := do
  let f ← complete (← field maxLength)
  Builder.lift do freeze (← f.freeze)

end Pending
end WasmStream
