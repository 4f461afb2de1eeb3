import WasmStream.Proofs.Chunking
import WasmStream.Proofs.Grammar.Entries
import WasmStream.Proofs.Relocation.Builders

/-! Fields of a known length under any calls. Chunks are appended and sources are drawn on in any order;
the field holds what it has accepted, in that order, never more than its length, and can be frozen once
it has accepted as much as its length. -/
namespace WasmStream
open Builder

/-- Bytes that no text is written as are refused with the place of the fault. -/
theorem readName_of_not_encode {bytes : List UInt8}
    (h : ∀ name : String, bytes ≠ Utf8.encode name.toList) :
    ∃ fault, Utf8.decode bytes = .error fault ∧ readName bytes = .error (.invalidUtf8 fault) := by
  cases hd : Utf8.decode bytes with
  | ok text =>
    refine absurd (Utf8.decode_eq_ok_iff.mp hd) ?_
    rw [← String.toList_ofList (l := text)]
    exact h (String.ofList text)
  | error fault => exact ⟨fault, rfl, by rw [readName, hd]⟩

namespace ByteField
variable {f : ByteField} {chunk : List UInt8}

theorem append_of_le (h : chunk.length ≤ f.missing) :
    f.append chunk = .ok ⟨f.filled ++ chunk, f.missing - chunk.length⟩ := if_pos h

theorem append_of_lt (h : f.missing < chunk.length) : f.append chunk = .error (.invalidState
    s!"append of {chunk.length} bytes to a field missing only {f.missing}") :=
  if_neg (Nat.not_le_of_lt h)

theorem freeze_of_missing (h : f.missing ≠ 0) : f.freeze = .error (.invalidState
    s!"finalize with {f.missing} of {f.length} bytes still missing") :=
  if_neg (by rwa [isComplete, beq_iff_eq])

/-- A pass takes what is missing, at most what is there, and is ready if that is enough. -/
theorem builder_pass (f : ByteField) (c : Cursor) :
    (builder f c).state = f.fill c.rest ∧ (builder f c).used = min f.missing c.rest.length ∧
      (builder f c).isReady = .ok (decide (f.missing ≤ c.rest.length)) := by
  have htaken : f.taken c.rest = min f.missing c.rest.length := List.length_take
  by_cases h : (f.fill c.rest).isComplete = true
  · rw [builder_of_isComplete h, decide_eq_true ((isComplete_fill_iff _ _).mp h)]
    exact ⟨rfl, htaken, rfl⟩
  · rw [builder_of_not_isComplete h, decide_eq_false (mt (isComplete_fill_iff _ _).mpr h)]
    exact ⟨rfl, htaken, rfl⟩

/-- One way to give bytes to a field: a chunk, or a source to draw on. -/
inductive Call : Type 1
  | append (chunk : List UInt8)
  | fill {τ : Type} [Source τ] [LawfulSource τ] (source : τ)

/-- The field after a call; a refusal leaves it as it is. -/
def perform (f : ByteField) : Call → ByteField
  | .append chunk =>
    match f.append chunk with
    | .ok f' => f'
    | .error _ => f
  | @Call.fill _ _ _ source => (builder.run f source).1.state

/-- The bytes that a call gives to the field: a chunk that is not refused, or what has left the
source. -/
def accepted (f : ByteField) : Call → List UInt8
  | .append chunk =>
    match f.append chunk with
    | .ok _ => chunk
    | .error _ => []
  | @Call.fill _ _ _ source => (Source.peek source).take
      (Source.available source - Source.available (builder.run f source).2)

def performAll (f : ByteField) (calls : List Call) : ByteField := calls.foldl perform f

theorem performAll_cons (f : ByteField) (call : Call) (rest : List Call) :
    f.performAll (call :: rest) = (f.perform call).performAll rest := rfl

/-- The bytes that some calls give to the field, one after the other. -/
def acceptedAll (f : ByteField) : List Call → List UInt8
  | [] => []
  | call :: rest => f.accepted call ++ (f.perform call).acceptedAll rest

section Fill
variable {τ : Type} [Source τ] (source : τ)

theorem perform_fill [LawfulSource τ] (f : ByteField) :
    f.perform (.fill source) = f.fill (Source.peek source) := (builder_pass f _).1

theorem ahead_run [LawfulSource τ] (f : ByteField) : Source.ahead (builder.run f source).2 =
    (Source.ahead source).drop (min f.missing (Source.available source)) := by
  rw [Builder.run, LawfulSource.ahead_consume, (builder_pass f _).2.1]
  rfl

theorem accepted_fill [LawfulSource τ] (f : ByteField) :
    f.accepted (.fill source) = (Source.peek source).take f.missing := by
  have hleft : Source.available (builder.run f source).2 =
      Source.available source - min f.missing (Source.available source) := by
    rw [Source.available, Source.peek, ahead_run, Cursor.drop_rest, List.length_drop]
    rfl
  rw [accepted, hleft, List.take_eq_take_iff]
  change min (Source.available source - _) (Source.available source) = min _ (Source.available source)
  omega

end Fill

theorem filled_perform (f : ByteField) (call : Call) :
    (f.perform call).filled = f.filled ++ f.accepted call := by
  cases call with
  | append chunk =>
    rcases Nat.lt_or_ge f.missing chunk.length with hlt | hle
    · simp only [perform, accepted, append_of_lt hlt, List.append_nil]
    · simp only [perform, accepted, append_of_le hle]
  | fill source => rw [perform_fill, accepted_fill, filled_fill]

theorem length_perform (f : ByteField) (call : Call) : (f.perform call).length = f.length := by
  cases call with
  | append chunk =>
    rcases Nat.lt_or_ge f.missing chunk.length with hlt | hle
    · simp only [perform, append_of_lt hlt]
    · simp only [perform, append_of_le hle, length, List.length_append]
      omega
  | fill source => rw [perform_fill, length_fill]

theorem filled_performAll (f : ByteField) (calls : List Call) :
    (f.performAll calls).filled = f.filled ++ f.acceptedAll calls := by
  induction calls generalizing f with
  | nil => exact (List.append_nil _).symm
  | cons call rest ih =>
    rw [performAll_cons, ih, filled_perform, acceptedAll, List.append_assoc]

theorem length_performAll (f : ByteField) (calls : List Call) :
    (f.performAll calls).length = f.length := by
  induction calls generalizing f with
  | nil => rfl
  | cons call rest ih => rw [performAll_cons, ih, length_perform]

/-- The buffer of a field: what it has accepted, and zeros where the rest will come. -/
def buffer (f : ByteField) : List UInt8 := f.filled ++ List.replicate f.missing 0

/-- The buffer with other bytes in it from the place `start` on. -/
def overwrite (buffer : List UInt8) (start : Nat) (bytes : List UInt8) : List UInt8 :=
  buffer.take start ++ bytes ++ buffer.drop (start + bytes.length)

/-- A call writes what it gives behind what is there, and nothing else. -/
theorem buffer_perform (f : ByteField) (call : Call) :
    (f.perform call).buffer = overwrite f.buffer f.filled.length (f.accepted call) := by
  have hmissing : (f.perform call).missing = f.missing - (f.accepted call).length := by
    have hlength := length_perform f call
    rw [length, filled_perform, List.length_append, length] at hlength
    omega
  rw [overwrite, buffer, buffer, filled_perform, hmissing, List.take_left', List.drop_append,
    List.drop_of_length_le (Nat.le_add_right _ _), List.nil_append, List.drop_replicate,
    Nat.add_sub_cancel_left]
  rfl

/-- A field of the length `n` that has accepted `bytes`: what it takes, refuses and answers next. -/
structure Accumulated (n : Nat) (f : ByteField) (bytes : List UInt8) : Prop where
  length_le : bytes.length ≤ n
  missing_eq : f.missing = n - bytes.length
  buffer_eq : f.buffer = bytes ++ List.replicate (n - bytes.length) 0
  writes : ∀ call, (f.perform call).buffer = overwrite f.buffer bytes.length (f.accepted call)
  append_fits : ∀ chunk, chunk.length ≤ n - bytes.length →
    f.append chunk = .ok (f.perform (.append chunk)) ∧ f.accepted (.append chunk) = chunk
  append_refused : ∀ chunk, n - bytes.length < chunk.length →
    (∃ message, f.append chunk = .error (.invalidState message)) ∧
      f.accepted (.append chunk) = [] ∧ f.perform (.append chunk) = f
  fill_takes : ∀ {τ : Type} [Source τ] [LawfulSource τ] (source : τ),
    let taken := min (n - bytes.length) (Source.available source)
    f.accepted (.fill source) = (Source.peek source).take taken ∧
      Source.ahead (builder.run f source).2 = (Source.ahead source).drop taken ∧
      (builder.run f source).1.isReady = .ok (decide (bytes.length + taken = n))
  freeze_iff : ∀ value, f.freeze = .ok value ↔ bytes.length = n ∧ value = bytes
  freeze_short : bytes.length < n → ∃ message, f.freeze = .error (.invalidState message)
  name_iff : ∀ name, Pending.close readName f = .ok name ↔
    bytes.length = n ∧ bytes = Utf8.encode name.toList
  name_short : bytes.length < n →
    ∃ message, Pending.close readName f = .error (.invalidState message)
  name_invalid : bytes.length = n → (∀ name : String, bytes ≠ Utf8.encode name.toList) →
    ∃ fault, Utf8.decode bytes = .error fault ∧
      Pending.close readName f = .error (.invalidUtf8 fault)

theorem freeze_eq_ok_iff {value : List UInt8} :
    f.freeze = .ok value ↔ f.missing = 0 ∧ value = f.filled := by
  by_cases h : f.missing = 0
  · rw [freeze_of_isComplete (beq_iff_eq.mpr h), Except.ok.injEq]
    exact ⟨fun hvalue => ⟨h, hvalue.symm⟩, fun hvalue => hvalue.2.symm⟩
  · rw [freeze_of_missing h]
    exact ⟨fun hvalue => (by cases hvalue), fun hvalue => absurd hvalue.1 h⟩

theorem close_of_missing {α : Type} (freeze : List UInt8 → Except Error α) (h : f.missing ≠ 0) :
    ∃ message, Pending.close freeze f = .error (.invalidState message) := by
  rw [Pending.close, freeze_of_missing h]
  exact ⟨_, rfl⟩

theorem close_readName_eq_ok_iff {name : String} : Pending.close readName f = .ok name ↔
    f.missing = 0 ∧ f.filled = Utf8.encode name.toList := by
  by_cases h : f.missing = 0
  · rw [Pending.close_of_isComplete readName (beq_iff_eq.mpr h), readName_eq_ok_iff]
    exact (and_iff_right h).symm
  · obtain ⟨message, hclose⟩ := close_of_missing readName h
    rw [hclose]
    exact ⟨fun hname => (by cases hname), fun hname => absurd hname.1 h⟩

theorem accumulated (f : ByteField) : Accumulated f.length f f.filled := by
  have hmissing : f.length - f.filled.length = f.missing := Nat.add_sub_cancel_left _ _
  have hfull : f.filled.length = f.length ↔ f.missing = 0 := by
    rw [length]
    omega
  have hshort (hlt : f.filled.length < f.length) : f.missing ≠ 0 := by omega
  refine {
    length_le := Nat.le_add_right _ _
    missing_eq := hmissing.symm
    buffer_eq := by rw [hmissing, buffer]
    writes := buffer_perform f
    append_fits := fun chunk hfits => ?_
    append_refused := fun chunk hlong => ?_
    fill_takes := fun source => ?_
    freeze_iff := fun value => by rw [freeze_eq_ok_iff, hfull]
    freeze_short := fun hlt => ⟨_, freeze_of_missing (hshort hlt)⟩
    name_iff := fun name => by rw [close_readName_eq_ok_iff, hfull]
    name_short := fun hlt => close_of_missing readName (hshort hlt)
    name_invalid := fun heq hnot => ?_ }
  · rw [hmissing] at hfits
    simp only [perform, accepted, append_of_le hfits, and_self]
  · rw [hmissing] at hlong
    simp only [perform, accepted, append_of_lt hlong, and_self, and_true]
    exact ⟨_, rfl⟩
  · rw [hmissing]
    refine ⟨?_, ahead_run source f, ?_⟩
    · rw [accepted_fill, Source.available, ← List.take_eq_take_min]
    · have hready : (builder.run f source).1.isReady =
          .ok (decide (f.missing ≤ Source.available source)) := (builder_pass f _).2.2
      rw [hready, length, Except.ok.injEq, decide_eq_decide]
      omega
  · obtain ⟨fault, hfault, hname⟩ := readName_of_not_encode hnot
    have hcomplete : f.isComplete = true := beq_iff_eq.mpr (hfull.mp heq)
    exact ⟨fault, hfault, by rw [Pending.close_of_isComplete readName hcomplete, hname]⟩

/-- Whatever calls are made on a fresh field, it holds what they have given to it. -/
theorem performAll_accumulates (n : Nat) (calls : List Call) :
    Accumulated n ((ofLength n).performAll calls) ((ofLength n).acceptedAll calls) := by
  have hfield := accumulated ((ofLength n).performAll calls)
  rw [length_performAll, filled_performAll] at hfield
  have hlength : (ofLength n).length = n := Nat.zero_add n
  rw [hlength] at hfield
  exact hfield

/-- A chunk that is too long changes nothing, and a source is drawn on for what is missing only. -/
example : ((ofLength 3).performAll [.append [1], .append [2, 3, 4],
    .fill (Slice.ofBytes [5, 6, 7] 0)]).freeze = .ok [1, 5, 6] := by cbv

end ByteField
end WasmStream
