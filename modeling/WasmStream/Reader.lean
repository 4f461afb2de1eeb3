import WasmStream.Error
import WasmStream.Word

/-! Readers of module bytes. A reader looks at the bytes that are there and answers with a value
and the number of bytes it used, with a wish for more input, or with an error. It never waits and
never moves anything itself: the holder of the bytes drops what was used. -/
namespace WasmStream

/-- A place in a module: the absolute offset of the next byte, and the bytes known from there. -/
structure Cursor where
  offset : Nat
  rest : List UInt8
  deriving DecidableEq, Repr

namespace Cursor

def drop (c : Cursor) (n : Nat) : Cursor := ⟨c.offset + n, c.rest.drop n⟩

/-- The same place after more input has arrived. -/
def append (c : Cursor) (more : List UInt8) : Cursor := ⟨c.offset, c.rest ++ more⟩

@[simp] theorem drop_offset (c : Cursor) (n : Nat) : (c.drop n).offset = c.offset + n := rfl
@[simp] theorem drop_rest (c : Cursor) (n : Nat) : (c.drop n).rest = c.rest.drop n := rfl
@[simp] theorem append_offset (c : Cursor) (more : List UInt8) : (c.append more).offset = c.offset :=
  rfl
@[simp] theorem append_rest (c : Cursor) (more : List UInt8) : (c.append more).rest = c.rest ++ more :=
  rfl
@[simp] theorem drop_zero (c : Cursor) : c.drop 0 = c := rfl
theorem drop_drop (c : Cursor) (m n : Nat) : (c.drop m).drop n = c.drop (m + n) := by
  simp [drop, Nat.add_assoc]

theorem length_drop_lt {c : Cursor} {b : UInt8} {rest : List UInt8} (h : c.rest = b :: rest)
    (n : Nat) : (c.drop (1 + n)).rest.length < c.rest.length := by
  rw [drop_rest, List.length_drop, h, List.length_cons]
  omega

end Cursor

inductive Outcome (α : Type) where
  | done (value : α) (used : Nat)
  | needMore
  | fail (error : Error)
  deriving Repr

namespace Outcome

/-- The outcome seen from `n` bytes further back. -/
def after {α : Type} (n : Nat) : Outcome α → Outcome α
  | done value used => done value (n + used)
  | needMore => needMore
  | fail error => fail error

end Outcome

def Reader (α : Type) : Type := Cursor → Outcome α

namespace Reader
variable {α β : Type}

instance : Monad Reader where
  pure a := fun _ => .done a 0
  bind r f := fun c =>
    match r c with
    | .done a n => (f a (c.drop n)).after n
    | .needMore => .needMore
    | .fail error => .fail error

theorem pure_run (a : α) (c : Cursor) : (pure a : Reader α) c = .done a 0 := rfl
theorem bind_run (r : Reader α) (f : α → Reader β) (c : Cursor) :
    (r >>= f) c = match r c with
      | .done a n => (f a (c.drop n)).after n
      | .needMore => .needMore
      | .fail error => .fail error := rfl

def fail (error : Error) : Reader α := fun _ => .fail error

/-- The offset of the next byte. -/
def offset : Reader Nat := fun c => .done c.offset 0

/-- The next byte, left where it is. -/
def peek : Reader UInt8 := fun c =>
  match c.rest with
  | [] => .needMore
  | b :: _ => .done b 0

def byte : Reader UInt8 := fun c =>
  match c.rest with
  | [] => .needMore
  | b :: _ => .done b 1

def bytes (n : Nat) : Reader (List UInt8) := fun c =>
  let taken := c.rest.take n
  if taken.length = n then .done taken n else .needMore

/-- All bytes that are there, left where they are. -/
def rest : Reader (List UInt8) := fun c => .done c.rest 0

def skip (n : Nat) : Reader Unit := do let _ ← bytes n

/-- Skip `n` bytes, or none if fewer are there; the answer says which. -/
def skip? (n : Nat) : Reader Bool := fun c =>
  match skip n c with
  | .done _ used => .done true used
  | .needMore => .done false 0
  | .fail error => .fail error

/-- `n` items in a row. -/
def times (r : Reader α) : (n : Nat) → Reader (List α)
  | 0 => pure []
  | n + 1 => do
    let a ← r
    let rest ← times r n
    return a :: rest

/-- The bits of a single precision number. -/
def f32Bits : Reader UInt32 := do return UInt32.ofNat (ofLittleEndian (← bytes 4))

/-- The bits of a double precision number. -/
def f64Bits : Reader UInt64 := do return UInt64.ofNat (ofLittleEndian (← bytes 8))

end Reader
end WasmStream
