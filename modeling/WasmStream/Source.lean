import WasmStream.Leb128

/-! Holders of module bytes: a complete buffer, and a stream that is fed with chunks. Both show
the bytes ahead as a cursor; a read takes from the holder what the reader used, and nothing if it
wants more input or fails. -/
namespace WasmStream

class Source (σ : Type) where
  ahead : σ → Cursor
  /-- Move past bytes that are ahead. -/
  consume : σ → Nat → σ

namespace Source
variable {σ α : Type} [Source σ]

def offset (s : σ) : Nat := (ahead s).offset

def peek (s : σ) : List UInt8 := (ahead s).rest

def available (s : σ) : Nat := (peek s).length

/-- Run a reader on the bytes ahead; `none` asks for more input. -/
def read (r : Reader α) (s : σ) : Except Error (Option α) × σ :=
  match r (ahead s) with
  | .done a used => (.ok (some a), consume s used)
  | .needMore => (.ok none, s)
  | .fail error => (.error error, s)

end Source

/-- A complete buffer whose first byte has the absolute offset `base`. -/
structure Slice where
  base : Nat
  bytes : List UInt8
  position : Nat
  deriving DecidableEq, Repr

namespace Slice

def ofBytes (bytes : List UInt8) (base : Nat) : Slice := ⟨base, bytes, 0⟩

instance : Source Slice where
  ahead s := ⟨s.base + s.position, s.bytes.drop s.position⟩
  consume s n := { s with position := s.position + n }

def isEmpty (s : Slice) : Bool := s.bytes.length ≤ s.position

end Slice

/-- A stream of chunks. Consumed bytes stay in front of the buffer until the next chunk arrives;
`dropped` counts those that were let go. -/
structure ChunkStream where
  dropped : Nat
  buffer : List UInt8
  position : Nat
  deriving DecidableEq, Repr

namespace ChunkStream

def empty : ChunkStream := ⟨0, [], 0⟩

def push (s : ChunkStream) (chunk : List UInt8) : ChunkStream :=
  ⟨s.dropped + s.position, s.buffer.drop s.position ++ chunk, 0⟩

instance : Source ChunkStream where
  ahead s := ⟨s.dropped + s.position, s.buffer.drop s.position⟩
  consume s n := { s with position := s.position + n }

def isEmpty (s : ChunkStream) : Bool := s.buffer.length ≤ s.position

/-- All bytes ever pushed. -/
def received (s : ChunkStream) : Nat := s.dropped + s.buffer.length

end ChunkStream
end WasmStream
