import WasmStream.Proofs.Accumulation

/-! Fields in a store. The bytes of a field stand in a store that has its length from the start, and a
cursor says how far it is filled; what is behind the cursor is zero until it is written. Under any calls
store and cursor stay in step with the field. -/
namespace WasmStream
open Builder

/-- A store, and how far it is filled. -/
structure ByteStore where
  bytes : List UInt8
  cursor : Nat
  cursor_le : cursor ≤ bytes.length
  deriving DecidableEq, Repr

namespace ByteStore

def ofLength (n : Nat) : ByteStore := ⟨List.replicate n 0, 0, Nat.zero_le _⟩

def missing (s : ByteStore) : Nat := s.bytes.length - s.cursor

def isComplete (s : ByteStore) : Bool := s.cursor == s.bytes.length

theorem length_overwrite {bytes chunk : List UInt8} {start : Nat}
    (h : start + chunk.length ≤ bytes.length) :
    (ByteField.overwrite bytes start chunk).length = bytes.length := by
  simp only [ByteField.overwrite, List.length_append, List.length_take, List.length_drop]
  omega

/-- Copy what has a place behind the cursor, and move the cursor behind it. -/
def write (s : ByteStore) (chunk : List UInt8) (h : chunk.length ≤ s.missing) : ByteStore :=
  have hfits : s.cursor + chunk.length ≤ s.bytes.length := by
    have hcursor := s.cursor_le
    unfold missing at h
    omega
  ⟨ByteField.overwrite s.bytes s.cursor chunk, s.cursor + chunk.length, by
    rwa [length_overwrite hfits]⟩

def append (s : ByteStore) (chunk : List UInt8) : Except Error ByteStore :=
  if h : chunk.length ≤ s.missing then .ok (s.write chunk h)
  else .error (.invalidState
    s!"append of {chunk.length} bytes to a field missing only {s.missing}")

/-- Copy what the source has, at most what is missing, and take it from the source. -/
def fillFrom {τ : Type} [Source τ] (s : ByteStore) (source : τ) : ByteStore × τ :=
  let count := min s.missing (Source.available source)
  (s.write ((Source.peek source).take count) (by rw [List.length_take]; omega),
    Source.consume source count)

def freeze (s : ByteStore) : Except Error (List UInt8) :=
  if s.isComplete then .ok s.bytes
  else .error (.invalidState
    s!"finalize with {s.missing} of {s.bytes.length} bytes still missing")

/-- The store after a call; a refusal leaves it as it is. -/
def perform (s : ByteStore) : ByteField.Call → ByteStore
  | .append chunk =>
    match s.append chunk with
    | .ok s' => s'
    | .error _ => s
  | @ByteField.Call.fill _ _ _ source => (s.fillFrom source).1

def performAll (s : ByteStore) (calls : List ByteField.Call) : ByteStore := calls.foldl perform s

end ByteStore

namespace ByteField
variable {f : ByteField} {chunk : List UInt8}

theorem length_buffer (f : ByteField) : f.buffer.length = f.length := by
  rw [buffer, List.length_append, List.length_replicate, length]

/-- The store of a field, filled with what it has accepted. -/
def store (f : ByteField) : ByteStore := ⟨f.buffer, f.filled.length, by
  rw [length_buffer]
  exact Nat.le_add_right _ _⟩

theorem length_store (f : ByteField) : f.store.bytes.length = f.length := length_buffer f

theorem store_ofLength (n : Nat) : (ofLength n).store = .ofLength n := rfl

theorem missing_store (f : ByteField) : f.store.missing = f.missing := by
  rw [ByteStore.missing, length_store, length]
  exact Nat.add_sub_cancel_left _ _

theorem isComplete_store (f : ByteField) : f.store.isComplete = f.isComplete := by
  change (f.filled.length == f.buffer.length) = (f.missing == 0)
  rw [length_buffer, Bool.eq_iff_iff, beq_iff_eq, beq_iff_eq, length]
  omega

/-- What is copied behind the cursor stands behind what has been accepted. -/
theorem write_store (h : chunk.length ≤ f.store.missing) :
    f.store.write chunk h = store ⟨f.filled ++ chunk, f.missing - chunk.length⟩ := by
  have hwritten := buffer_perform f (.append chunk)
  rw [missing_store] at h
  simp only [perform, accepted, append_of_le h] at hwritten
  simp only [ByteStore.write, store, hwritten, List.length_append]

theorem append_store (f : ByteField) (chunk : List UInt8) :
    f.store.append chunk = (f.append chunk).map store := by
  rw [ByteStore.append, append]
  by_cases h : chunk.length ≤ f.missing
  · rw [dif_pos (by rwa [missing_store]), if_pos h, write_store]
    rfl
  · rw [dif_neg (by rwa [missing_store]), if_neg h, missing_store]
    rfl

theorem freeze_store (f : ByteField) : f.store.freeze = f.freeze := by
  rw [ByteStore.freeze, freeze, isComplete_store, missing_store, length_store]
  by_cases h : f.isComplete = true
  · have hmissing : f.missing = 0 := beq_iff_eq.mp h
    have hbytes : f.store.bytes = f.filled := calc
      f.store.bytes = f.filled ++ List.replicate f.missing 0 := rfl
      _ = f.filled := by rw [hmissing, List.replicate_zero, List.append_nil]
    rw [if_pos h, if_pos h, hbytes]
  · rw [if_neg h, if_neg h]

section Fill
variable {τ : Type} [Source τ]

/-- Filling the store and filling the field take the same from a source. -/
theorem fillFrom_store (f : ByteField) (source : τ) : f.store.fillFrom source =
    ((builder.run f source).1.state.store, (builder.run f source).2) := by
  obtain ⟨hstate, hused, -⟩ := builder_pass f (Source.ahead source)
  have htaken : (Source.peek source).take (min f.store.missing (Source.available source)) =
      (Source.peek source).take f.missing := by
    rw [missing_store, Source.available, ← List.take_eq_take_min]
  rw [ByteStore.fillFrom, Builder.run, hstate, hused, Prod.mk.injEq]
  constructor
  · rw [write_store]
    simp only [htaken]
    rfl
  · rw [missing_store]
    rfl

end Fill

/-- One call on the store does what it does on the field. -/
theorem perform_store (f : ByteField) (call : Call) : f.store.perform call = (f.perform call).store := by
  cases call with
  | append chunk =>
    rw [ByteStore.perform, append_store, perform]
    cases f.append chunk <;> rfl
  | fill source => rw [ByteStore.perform, fillFrom_store, perform]

theorem performAll_store (f : ByteField) (calls : List Call) :
    f.store.performAll calls = (f.performAll calls).store := by
  induction calls generalizing f with
  | nil => rfl
  | cons call rest ih =>
    rw [performAll_cons, ← ih, ← perform_store]
    rfl

end ByteField

namespace ByteStore
open ByteField

/-- A store of the length `n` that is in step with `f`: what has been accepted stands in front of the
cursor and zeros stand behind it, and what is done next has the same answer as for the field. -/
structure InStep (n : Nat) (s : ByteStore) (f : ByteField) (accepted : List UInt8) : Prop where
  length_eq : s.bytes.length = n
  bytes_eq : s.bytes = accepted ++ List.replicate (n - accepted.length) 0
  cursor_eq : s.cursor = accepted.length
  append_eq : ∀ chunk, s.append chunk = (f.append chunk).map store
  fill_eq : ∀ {τ : Type} [Source τ] (source : τ), s.fillFrom source =
    ((builder.run f source).1.state.store, (builder.run f source).2)
  isComplete_eq : s.isComplete = f.isComplete
  freeze_eq : s.freeze = f.freeze

theorem inStep_store (f : ByteField) : InStep f.length f.store f f.filled where
  length_eq := length_store f
  bytes_eq := (accumulated f).buffer_eq
  cursor_eq := rfl
  append_eq := append_store f
  fill_eq := fillFrom_store f
  isComplete_eq := isComplete_store f
  freeze_eq := freeze_store f

/-- Whatever calls are made, a fresh store stays in step with a fresh field. -/
theorem performAll_inStep (n : Nat) (calls : List Call) :
    InStep n ((ofLength n).performAll calls) ((ByteField.ofLength n).performAll calls)
      ((ByteField.ofLength n).acceptedAll calls) := by
  have hstore := inStep_store ((ByteField.ofLength n).performAll calls)
  rw [length_performAll, filled_performAll, ← performAll_store, store_ofLength] at hstore
  have hlength : (ByteField.ofLength n).length = n := Nat.zero_add n
  rw [hlength] at hstore
  exact hstore

/-- A chunk that is refused leaves nothing behind in the store. -/
example : ((ofLength 3).performAll [.append [1], .append [2, 3, 4]]).bytes = [1, 0, 0] := by decide

end ByteStore
end WasmStream
