import WasmStream.Proofs.Grammar.Expression
import WasmStream.Proofs.EntryResumption
import WasmStream.Proofs.Utf8

/-! A builder that has all its bytes before it is a reader. One pass from a fresh state reads the fields
of the entry one behind the other, and leaves the fresh state. -/
namespace WasmStream
open Reader Grammar

namespace Reader
variable {α β γ : Type}

theorem map_id (r : Reader α) : id <$> r = r := by
  funext c
  change (r >>= fun a => pure a) c = r c
  rw [bind_run]
  cases r c <;> rfl

theorem bind_of_pure (a : α) (f : α → Reader β) : (pure a >>= f) = f a := by
  funext c
  rw [bind_run, pure_run]
  change (f a c).after 0 = f a c
  cases f a c <;> simp [Outcome.after]

theorem bind_of_bind (r : Reader α) (f : α → Reader β) (g : β → Reader γ) :
    (r >>= f >>= g) = r >>= fun a => f a >>= g := by
  funext c
  simp only [bind_run]
  cases r c with
  | done a n =>
    simp only
    cases f a (c.drop n) with
    | done b m =>
      simp only [Outcome.after, Cursor.drop_drop]
      cases g b (c.drop (n + m)) <;> simp [Nat.add_assoc]
    | needMore => rfl
    | fail error => rfl
  | needMore => rfl
  | fail error => rfl

/-- What has been found without reading, or why it was not. -/
def ofExcept : Except Error α → Reader α
  | .ok a => pure a
  | .error error => fail error

theorem reads_ofExcept (x : Except Error α) :
    Reads (ofExcept x) fun a w => x = .ok a ∧ w = [] := by
  cases x with
  | ok a => exact (reads_pure a).of_iff fun b w => by simp [eq_comm]
  | error error => exact (reads_fail error).of_iff fun b w => by simp

theorem fail_bind (error : Error) (f : α → Reader β) : (fail error >>= f) = fail error := rfl

instance : LawfulMonad Reader := LawfulMonad.mk' Reader map_id bind_of_pure bind_of_bind

end Reader

namespace Builder
variable {σ τ α β : Type}

/-- One pass of the builder as a reader: the value and the state that it leaves. -/
def atOnce (p : Builder σ α) (s : σ) : Reader (α × σ) := fun c =>
  match p s c with
  | .ready a s' n => .done (a, s') n
  | .paused _ _ => .needMore
  | .failed error _ _ => .fail error

theorem ready_iff {p : Builder σ α} {s s' : σ} {c : Cursor} {a : α} {n : Nat} :
    p s c = .ready a s' n ↔ atOnce p s c = .done (a, s') n := by
  unfold atOnce
  cases p s c <;> simp [and_assoc]

@[simp] theorem atOnce_pure (a : α) (s : σ) : atOnce (pure a) s = pure (a, s) := rfl
@[simp] theorem atOnce_get (s : σ) : atOnce Builder.get s = pure (s, s) := rfl
@[simp] theorem atOnce_modify (f : σ → σ) (s : σ) : atOnce (modify f) s = pure ((), f s) := rfl
@[simp] theorem atOnce_fail (error : Error) (s : σ) :
    atOnce (fail error : Builder σ α) s = Reader.fail error := rfl

@[simp] theorem atOnce_offset (s : σ) :
    atOnce offset s = Reader.offset >>= fun start => pure (start, s) := rfl

@[simp] theorem atOnce_bind (p : Builder σ α) (f : α → Builder σ β) (s : σ) :
    atOnce (p >>= f) s = atOnce p s >>= fun x => atOnce (f x.1) x.2 := by
  funext c
  simp only [Reader.bind_run, atOnce, Builder.bind_run]
  cases p s c with
  | ready a s' n =>
    simp only
    cases f a s' (c.drop n) <;> rfl
  | paused s' n => rfl
  | failed error s' n => rfl

@[simp] theorem atOnce_read (r : Reader α) (s : σ) :
    atOnce (read r) s = r >>= fun a => pure (a, s) := by
  funext c
  simp only [Reader.bind_run, atOnce, read]
  cases r c <;> rfl

@[simp] theorem atOnce_ite {b : Prop} [Decidable b] (p q : Builder σ α) (s : σ) :
    atOnce (if b then p else q) s = if b then atOnce p s else atOnce q s := by
  split <;> rfl

@[simp] theorem atOnce_zoom (part : σ → τ) (put : τ → σ → σ) (p : Builder τ α) (s : σ) :
    atOnce (zoom part put p) s = atOnce p (part s) >>= fun x => pure (x.1, put x.2 s) := by
  funext c
  simp only [Reader.bind_run, atOnce, zoom_run]
  cases p (part s) c <;> rfl

/-- A field that has not been read is read and kept. -/
theorem atOnce_remember {field : σ → Option α} {put : α → σ → σ} {p : Builder σ α} {s : σ}
    (h : field s = none) :
    atOnce (remember field put p) s = atOnce p s >>= fun x => pure (x.1, put x.1 x.2) := by
  have hrun : atOnce (remember field put p) s =
      atOnce (p >>= fun a => modify (put a) >>= fun _ => pure a) s := by
    funext c
    simp only [atOnce, remember_of_none h]
  rw [hrun]
  simp

@[simp] theorem atOnce_lift_ok (a : α) (s : σ) : atOnce (lift (.ok a)) s = pure (a, s) := rfl

/-- What a complete builder holds is frozen, and the builder starts afresh. -/
theorem atOnce_harvest (p : Builder σ Unit) (freeze : σ → Except Error α) (fresh s : σ) :
    atOnce (harvest p freeze fresh) s =
      atOnce p s >>= fun x => atOnce (lift (freeze x.2)) fresh := by
  unfold harvest
  simp

end Builder

/-- A field written as its length and its bytes, read at once. -/
def Pending.fieldReader {α : Type} (freeze : List UInt8 → Except Error α) (maxLength : UInt32) :
    Reader α := do
  let start ← Reader.offset
  let length ← Reader.u32
  if maxLength < length then
    Reader.fail (.limitExceeded "field length" maxLength.toNat start)
  else do
    let bytes ← Reader.bytes length.toNat
    Reader.ofExcept (freeze bytes)

open Builder

/-- A fresh field is complete if and only if its bytes are there, and then it holds these. -/
theorem ByteField.fill_ofLength (n : Nat) (available : List UInt8) :
    (n ≤ available.length ∧ ((ofLength n).fill available).isComplete = true ∧
      (ofLength n).fill available = ⟨available.take n, 0⟩ ∧ (ofLength n).taken available = n) ∨
      (¬n ≤ available.length ∧ ¬((ofLength n).fill available).isComplete = true) := by
  by_cases h : n ≤ available.length
  · have htake : (available.take n).length = n := List.length_take_of_le h
    refine .inl ⟨h, (isComplete_fill_iff _ _).mpr h, ?_, htake⟩
    simp only [fill, ofLength, List.nil_append, htake, Nat.sub_self]
  · exact .inr ⟨h, fun hc => h ((isComplete_fill_iff _ _).mp hc)⟩

theorem Reader.bytes_of_le {n : Nat} {c : Cursor} (h : n ≤ c.rest.length) :
    Reader.bytes n c = .done (c.rest.take n) n := by
  simp only [Reader.bytes, if_pos (List.length_take_of_le h)]

theorem Reader.bytes_of_not_le {n : Nat} {c : Cursor} (h : ¬n ≤ c.rest.length) :
    Reader.bytes n c = .needMore := by
  have htake : ¬(c.rest.take n).length = n := by
    rw [List.length_take]
    omega
  simp only [Reader.bytes, if_neg htake]

theorem ByteField.atOnce_builder (n : Nat) :
    atOnce ByteField.builder (.ofLength n) =
      Reader.bytes n >>= fun bytes => pure ((), ⟨bytes, 0⟩) := by
  funext c
  rw [Reader.bind_run, atOnce]
  rcases ByteField.fill_ofLength n c.rest with ⟨hle, hcomplete, hfill, htaken⟩ | ⟨hle, hcomplete⟩
  · rw [ByteField.builder_of_isComplete hcomplete, hfill, htaken, Reader.bytes_of_le hle]
    rfl
  · rw [ByteField.builder_of_not_isComplete hcomplete, Reader.bytes_of_not_le hle]

theorem Pending.atOnce_complete (n : Nat) (s : Pending) :
    atOnce (complete (.ofLength n)) s =
      Reader.bytes n >>= fun bytes => pure (⟨bytes, 0⟩, awaitingLength) := by
  funext c
  rw [Reader.bind_run, atOnce, complete]
  rcases ByteField.fill_ofLength n c.rest with ⟨hle, hcomplete, hfill, htaken⟩ | ⟨hle, hcomplete⟩
  · rw [if_pos hcomplete, hfill, htaken, Reader.bytes_of_le hle]
    rfl
  · rw [if_neg hcomplete, Reader.bytes_of_not_le hle]

theorem Pending.atOnce_builder {α : Type} (freeze : List UInt8 → Except Error α)
    (maxLength : UInt32) :
    atOnce (Pending.builder freeze maxLength) .awaitingLength =
      Pending.fieldReader freeze maxLength >>= fun a => pure (a, .awaitingLength) := by
  have hclose (bytes : List UInt8) : close freeze ⟨bytes, 0⟩ = freeze bytes := rfl
  rw [builder_eq, fieldReader]
  simp only [field, fillPart, atOnce_bind, atOnce_get, pure_bind, bind_assoc, atOnce_offset,
    atOnce_read, atOnce_ite, atOnce_fail, atOnce_modify, atOnce_pure]
  refine bind_congr fun start => bind_congr fun length => ?_
  split
  · simp only [Reader.fail_bind]
  · simp only [pure_bind, atOnce_complete, bind_assoc, hclose]
    refine bind_congr fun bytes => ?_
    cases freeze bytes <;> rfl

end WasmStream
