import WasmStream.Proofs.ExpressionScan

/-! A stream of chunks is one buffer that becomes longer. Whatever is pushed and read, and in whatever
order, the stream stands in front of the bytes that were pushed and not yet read, at their offset, and
a read of it is a read of a buffer with these bytes. -/
namespace WasmStream

namespace Reader
variable {α : Type}

/-- The reader uses no more bytes than there are. -/
def Confined (r : Reader α) : Prop := ∀ c a n, r c = .done a n → n ≤ c.rest.length

theorem Stable.confined {r : Reader α} (h : Stable r) : Confined r := fun _ _ _ hd => (h.done hd).1

theorem stable_u64 : Stable u64 := (stable_unsigned 64).bind fun _ => stable_pure _

theorem confined_skip? (n : Nat) : Confined (skip? n) := by
  intro c a used h
  unfold skip? at h
  split at h
  · next hskip =>
    cases h
    exact (stable_skip n).confined _ _ _ hskip
  · cases h
    exact Nat.zero_le _
  · cases h

/-- Decode something from a buffer with the bytes ahead, and use what was used of the buffer if
something comes of it. -/
def attempt (decode : Slice → Except Error (Option α) × Slice) : Reader α := fun c =>
  match decode (.ofBytes c.rest c.offset) with
  | (.ok (some a), lookahead) =>
    .done a (if lookahead.position ≤ c.rest.length then lookahead.position else 0)
  | (.ok none, _) => .needMore
  | (.error error, _) => .fail error

theorem confined_attempt (decode : Slice → Except Error (Option α) × Slice) :
    Confined (attempt decode) := by
  intro c a n h
  unfold attempt at h
  split at h
  · cases h
    split
    · assumption
    · exact Nat.zero_le _
  · cases h
  · cases h

/-- To attempt one read is to read. -/
theorem attempt_read {r : Reader α} (h : Confined r) : attempt (Source.read r) = r := by
  funext c
  have hahead : Source.ahead (Slice.ofBytes c.rest c.offset) = c := rfl
  unfold attempt Source.read
  rw [hahead]
  cases hr : r c with
  | done a n =>
    simp only [Source.consume, Slice.ofBytes, Nat.zero_add, if_pos (h c a n hr)]
  | needMore => rfl
  | fail e => rfl

end Reader

namespace Source
variable {σ α : Type} [Source σ] {r : Reader α} {s : σ}

theorem read_of_done {a : α} {n : Nat} (h : r (ahead s) = .done a n) :
    read r s = (.ok (some a), consume s n) := by rw [read, h]

theorem read_of_needMore (h : r (ahead s) = .needMore) : read r s = (.ok none, s) := by rw [read, h]

theorem read_of_fail {e : Error} (h : r (ahead s) = .fail e) : read r s = (.error e, s) := by
  rw [read, h]

end Source

/-- The reads that a source offers, with the values that they give. -/
inductive Read : Type → Type 1
  | bytes (n : Nat) : Read (List UInt8)
  | skip (n : Nat) : Read Bool
  | byte : Read UInt8
  | u64 : Read UInt64
  | i64 : Read Int64
  | u32 : Read UInt32
  | i32 : Read Int32
  | f32Bits : Read UInt32
  | f64Bits : Read UInt64
  | valueType : Read ValueType
  | blockType : Read BlockType
  | limits : Read Limits
  | funcType : Read FuncType
  | tableType : Read TableType
  | globalType : Read GlobalType
  | expression (bounds : DecoderLimits) : Read Expression
  | attempt {α : Type} (decode : Slice → Except Error (Option α) × Slice) : Read α

namespace Read

def reader {α : Type} : Read α → Reader α
  | bytes n => Reader.bytes n
  | skip n => Reader.skip? n
  | byte => Reader.byte
  | u64 => Reader.u64
  | i64 => Reader.i64
  | u32 => Reader.u32
  | i32 => Reader.i32
  | f32Bits => Reader.f32Bits
  | f64Bits => Reader.f64Bits
  | valueType => ValueType.reader
  | blockType => BlockType.reader
  | limits => Limits.reader
  | funcType => FuncType.reader
  | tableType => TableType.reader
  | globalType => GlobalType.reader
  | expression bounds => Expression.reader bounds
  | attempt decode => Reader.attempt decode

open Reader in
theorem confined_reader {α : Type} (r : Read α) : Confined r.reader := by
  cases r with
  | bytes n => exact (stable_bytes n).confined
  | skip n => exact confined_skip? n
  | byte => exact stable_byte.confined
  | u64 => exact stable_u64.confined
  | i64 => exact stable_i64.confined
  | u32 => exact stable_u32.confined
  | i32 => exact stable_i32.confined
  | f32Bits => exact stable_f32Bits.confined
  | f64Bits => exact stable_f64Bits.confined
  | valueType => exact ValueType.stable_reader.confined
  | blockType => exact BlockType.stable_reader.confined
  | limits => exact Limits.stable_reader.confined
  | funcType => exact FuncType.stable_reader.confined
  | tableType => exact TableType.stable_reader.confined
  | globalType => exact GlobalType.stable_reader.confined
  | expression bounds => exact (Expression.stable_reader bounds).confined
  | attempt decode => exact confined_attempt decode

end Read

namespace ChunkStream

/-- What the holder of a stream can do with it. -/
inductive Operation : Type 1
  | push (chunk : List UInt8)
  | read {α : Type} (r : Read α)

def perform (s : ChunkStream) : Operation → ChunkStream
  | .push chunk => s.push chunk
  | .read r => (Source.read r.reader s).2

/-- The stream after some operations, one after the other. -/
def run (s : ChunkStream) (operations : List Operation) : ChunkStream := operations.foldl perform s

/-- The bytes that an operation adds. -/
def Operation.pushed : Operation → List UInt8
  | push chunk => chunk
  | read _ => []

/-- All the bytes that some operations add. -/
def pushed (operations : List Operation) : List UInt8 := operations.flatMap Operation.pushed

/-- The number of bytes that a read takes away from those ahead, if it succeeds. -/
def taken (s : ChunkStream) : Operation → Nat
  | .push _ => 0
  | .read r =>
    match Source.read r.reader s with
    | (.ok (some _), after) => Source.available s - Source.available after
    | _ => 0

/-- The number of bytes that some operations take, one after the other. -/
def takenIn (s : ChunkStream) : List Operation → Nat
  | [] => 0
  | operation :: rest => s.taken operation + takenIn (s.perform operation) rest

/-- The buffer holds the bytes from `dropped` on, and the position is inside it. -/
structure Holds (s : ChunkStream) (received : List UInt8) (used : Nat) : Prop where
  used_eq : used = s.dropped + s.position
  position_le : s.position ≤ s.buffer.length
  dropped_le : s.dropped ≤ received.length
  buffer_eq : s.buffer = received.drop s.dropped

variable {s : ChunkStream} {received : List UInt8} {used : Nat}

namespace Holds

theorem length_buffer (h : s.Holds received used) :
    s.dropped + s.buffer.length = received.length := by
  have hdropped := h.dropped_le
  rw [h.buffer_eq, List.length_drop]
  omega

theorem used_le (h : s.Holds received used) : used ≤ received.length := by
  have hused := h.used_eq
  have hposition := h.position_le
  have hlength := h.length_buffer
  omega

theorem ahead_eq (h : s.Holds received used) : Source.ahead s = ⟨used, received.drop used⟩ := by
  change (⟨s.dropped + s.position, s.buffer.drop s.position⟩ : Cursor) = _
  rw [h.used_eq, h.buffer_eq, List.drop_drop]

theorem ahead_eq_ahead_ofBytes (h : s.Holds received used) :
    Source.ahead s = Source.ahead (Slice.ofBytes (received.drop used) used) := h.ahead_eq

/-- The bytes that are kept and the chunk are what is behind the bytes that are let go. -/
theorem push (h : s.Holds received used) (chunk : List UInt8) :
    (s.push chunk).Holds (received ++ chunk) used where
  used_eq := h.used_eq
  position_le := Nat.zero_le _
  dropped_le := by
    have hused := h.used_le
    rw [h.used_eq] at hused
    rw [List.length_append]
    exact Nat.le_add_right_of_le hused
  buffer_eq := by
    have hused := h.used_le
    rw [h.used_eq] at hused
    rw [ChunkStream.push, List.drop_append_of_le_length hused, h.buffer_eq, List.drop_drop]

theorem consume (h : s.Holds received used) {n : Nat} (hn : n ≤ (Source.ahead s).rest.length) :
    (Source.consume s n).Holds received (used + n) where
  used_eq := by
    rw [h.used_eq]
    exact Nat.add_assoc ..
  position_le := by
    have hposition := h.position_le
    change n ≤ (s.buffer.drop s.position).length at hn
    rw [List.length_drop] at hn
    change s.position + n ≤ s.buffer.length
    omega
  dropped_le := h.dropped_le
  buffer_eq := h.buffer_eq

/-- A read takes away what its reader has used. -/
theorem taken_read (h : s.Holds received used) {α : Type} {r : Read α} {a : α} {n : Nat}
    (hr : r.reader (Source.ahead s) = .done a n) : s.taken (.read r) = n := by
  have hn := r.confined_reader _ _ _ hr
  have hafter := congrArg Cursor.rest (h.consume hn).ahead_eq
  rw [taken, Source.read_of_done hr]
  rw [h.ahead_eq, List.length_drop] at hn
  simp only [Source.available, Source.peek, hafter, h.ahead_eq, List.length_drop]
  omega

theorem read (h : s.Holds received used) {α : Type} (r : Read α) :
    (s.perform (.read r)).Holds received (used + s.taken (.read r)) := by
  cases hr : r.reader (Source.ahead s) with
  | done a n =>
    rw [h.taken_read hr, ChunkStream.perform, Source.read_of_done hr]
    exact h.consume (r.confined_reader _ _ _ hr)
  | needMore =>
    rw [ChunkStream.perform, taken, Source.read_of_needMore hr]
    exact h
  | fail e =>
    rw [ChunkStream.perform, taken, Source.read_of_fail hr]
    exact h

theorem perform (h : s.Holds received used) (operation : Operation) :
    (s.perform operation).Holds (received ++ operation.pushed) (used + s.taken operation) := by
  cases operation with
  | push chunk => exact h.push chunk
  | read r =>
    rw [Operation.pushed, List.append_nil]
    exact h.read r

theorem run (h : s.Holds received used) (operations : List Operation) :
    (s.run operations).Holds (received ++ pushed operations) (used + s.takenIn operations) := by
  induction operations generalizing s received used with
  | nil => simpa [ChunkStream.run, pushed, takenIn] using h
  | cons operation rest ih =>
    have hrest := ih (h.perform operation)
    rwa [List.append_assoc, Nat.add_assoc] at hrest

end Holds

theorem holds_empty : empty.Holds [] 0 :=
  ⟨rfl, Nat.le_refl _, Nat.le_refl _, rfl⟩

/-- The stream is as good as a buffer with the bytes of `received` behind the first `used`: a read gives
the same and takes as many bytes. -/
structure Refines (s : ChunkStream) (received : List UInt8) (used : Nat) : Prop where
  offset_eq : Source.offset s = used
  received_eq : s.received = received.length
  peek_eq : Source.peek s = received.drop used
  isEmpty_iff : s.isEmpty = true ↔ used = received.length
  read_eq : ∀ {α : Type} (r : Read α), (Source.read r.reader s).1 =
    (Source.read r.reader (Slice.ofBytes (received.drop used) used)).1
  taken_eq : ∀ {α : Type} (r : Read α), s.taken (.read r) =
    (Source.read r.reader (Slice.ofBytes (received.drop used) used)).2.position

theorem Holds.refines (h : s.Holds received used) : s.Refines received used where
  offset_eq := congrArg Cursor.offset h.ahead_eq
  received_eq := h.length_buffer
  peek_eq := congrArg Cursor.rest h.ahead_eq
  isEmpty_iff := by
    have hused := h.used_eq
    have hposition := h.position_le
    have hlength := h.length_buffer
    simp only [isEmpty, decide_eq_true_eq]
    omega
  read_eq r := by
    have hahead := h.ahead_eq_ahead_ofBytes
    cases hr : r.reader (Source.ahead s) with
    | done a n => rw [Source.read_of_done hr, Source.read_of_done (hahead ▸ hr)]
    | needMore => rw [Source.read_of_needMore hr, Source.read_of_needMore (hahead ▸ hr)]
    | fail e => rw [Source.read_of_fail hr, Source.read_of_fail (hahead ▸ hr)]
  taken_eq r := by
    have hahead := h.ahead_eq_ahead_ofBytes
    cases hr : r.reader (Source.ahead s) with
    | done a n =>
      rw [h.taken_read hr, Source.read_of_done (hahead ▸ hr)]
      exact (Nat.zero_add n).symm
    | needMore =>
      rw [taken, Source.read_of_needMore hr, Source.read_of_needMore (hahead ▸ hr)]
      rfl
    | fail e =>
      rw [taken, Source.read_of_fail hr, Source.read_of_fail (hahead ▸ hr)]
      rfl

/-- However pushes and reads alternate, no byte of a stream is lost, repeated or moved: it is the
buffer of all the bytes that were pushed, read as far as the reads have come. -/
theorem run_refines (operations : List Operation) :
    (empty.run operations).Refines (pushed operations) (empty.takenIn operations) := by
  have h := holds_empty.run operations
  rw [List.nil_append, Nat.zero_add] at h
  exact h.refines

end ChunkStream
end WasmStream
