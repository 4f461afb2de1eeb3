import WasmStream.Proofs.Chunking
import WasmStream.Proofs.StreamRefinement

/-! Programs of reads. An attempt makes the reads of a program on a copy of the bytes ahead. What it
answers, and what it takes if it succeeds, is what the reads answer and take when they are made on the
source itself. -/
namespace WasmStream

/-- A source that holds nothing but its bytes and a place among them. -/
class PlainSource (σ : Type) [Source σ] : Prop extends LawfulSource σ where
  consume_zero : ∀ s : σ, Source.consume s 0 = s
  consume_consume : ∀ (s : σ) (m n : Nat),
    Source.consume (Source.consume s m) n = Source.consume s (m + n)

instance : PlainSource Slice where
  consume_zero _ := rfl
  consume_consume s m n := congrArg (Slice.mk s.base s.bytes) (Nat.add_assoc s.position m n)

instance : PlainSource ChunkStream where
  consume_zero _ := rfl
  consume_consume s m n := congrArg (ChunkStream.mk s.dropped s.buffer) (Nat.add_assoc s.position m n)

/-- A program of reads. What a read has come to decides how it goes on; `look` sees the bytes ahead and
takes none, and `attempt` makes the reads of another program, or none of them. -/
inductive Script : Type → Type 1
  | done {α : Type} (a : α) : Script α
  | stop {α : Type} : Script α
  | fail {α : Type} (error : Error) : Script α
  | look {α : Type} (next : Cursor → Script α) : Script α
  | read {α β : Type} (r : Read β) (next : Except Error (Option β) → Script α) : Script α
  | attempt {α β : Type} (inner : Script β) (next : Except Error (Option β) → Script α) : Script α

namespace Script
variable {α β σ τ : Type}

/-- Make the reads directly on a source, one after another. Nothing is undone here. -/
def run {α : Type} (script : Script α) {σ : Type} [Source σ] (s : σ) : Except Error (Option α) × σ :=
  match script with
  | done a => (.ok (some a), s)
  | stop => (.ok none, s)
  | fail error => (.error error, s)
  | look next => (next (Source.ahead s)).run s
  | read r next =>
    let (answer, after) := Source.read r.reader s
    (next answer).run after
  | attempt inner next =>
    let (answer, after) := Source.read (Reader.attempt fun lookahead => inner.run lookahead) s
    (next answer).run after

/-- What an attempt at the reads answers. -/
def reader (script : Script α) : Reader α := Reader.attempt fun lookahead => script.run lookahead

end Script

def Source.attempt {α σ : Type} [Source σ] (script : Script α) (s : σ) :
    Except Error (Option α) × σ := Source.read script.reader s

namespace Script
variable {α β σ τ : Type} [Source σ] [Source τ]

theorem run_read (r : Read β) (next : Except Error (Option β) → Script α) (s : σ) :
    (read r next).run s = (next (Source.read r.reader s).1).run (Source.read r.reader s).2 := rfl

theorem run_attempt (inner : Script β) (next : Except Error (Option β) → Script α) (s : σ) :
    (attempt inner next).run s =
      (next (Source.attempt inner s).1).run (Source.attempt inner s).2 := rfl

theorem confined_reader (script : Script α) : Reader.Confined script.reader :=
  Reader.confined_attempt _

/-- Both sources give the program the same answers, and it takes the same bytes from both. -/
def Together (script : Script α) (s : σ) (t : τ) : Prop :=
  ∃ answer k, k ≤ (Source.ahead s).rest.length ∧
    script.run s = (answer, Source.consume s k) ∧ script.run t = (answer, Source.consume t k)

variable [PlainSource σ] [PlainSource τ]

theorem together_of_still {script : Script α} {s : σ} {t : τ} {answer : Except Error (Option α)}
    (hs : script.run s = (answer, s)) (ht : script.run t = (answer, t)) : Together script s t :=
  ⟨answer, 0, Nat.zero_le _, by rw [hs, PlainSource.consume_zero],
    by rw [ht, PlainSource.consume_zero]⟩

/-- What comes behind a read sees, in both sources, the bytes that the read has left. -/
theorem together_of_read {script : Script α} {r : Reader β} (hr : Reader.Confined r)
    {next : Except Error (Option β) → Script α} {s : σ} {t : τ}
    (hs : script.run s = (next (Source.read r s).1).run (Source.read r s).2)
    (ht : script.run t = (next (Source.read r t).1).run (Source.read r t).2)
    (hahead : Source.ahead s = Source.ahead t)
    (hnext : ∀ answer {s : σ} {t : τ}, Source.ahead s = Source.ahead t →
      Together (next answer) s t) : Together script s t := by
  cases h : r (Source.ahead s) with
  | done a n =>
    have hn := hr _ _ _ h
    have hafter : Source.ahead (Source.consume s n) = Source.ahead (Source.consume t n) := by
      rw [LawfulSource.ahead_consume, LawfulSource.ahead_consume, hahead]
    rw [Source.read_of_done h] at hs
    rw [Source.read_of_done (hahead ▸ h)] at ht
    obtain ⟨answer, k, hk, hs', ht'⟩ := hnext (.ok (some a)) hafter
    rw [LawfulSource.ahead_consume, Cursor.drop_rest, List.length_drop] at hk
    refine ⟨answer, n + k, by omega, ?_, ?_⟩
    · rw [hs, hs', PlainSource.consume_consume]
    · rw [ht, ht', PlainSource.consume_consume]
  | needMore =>
    rw [Source.read_of_needMore h] at hs
    rw [Source.read_of_needMore (hahead ▸ h)] at ht
    obtain ⟨answer, k, hk, hs', ht'⟩ := hnext (.ok none) hahead
    exact ⟨answer, k, hk, hs.trans hs', ht.trans ht'⟩
  | fail e =>
    rw [Source.read_of_fail h] at hs
    rw [Source.read_of_fail (hahead ▸ h)] at ht
    obtain ⟨answer, k, hk, hs', ht'⟩ := hnext (.error e) hahead
    exact ⟨answer, k, hk, hs.trans hs', ht.trans ht'⟩

/-- A program knows of a source only what is ahead. -/
theorem together (script : Script α) {s : σ} {t : τ} (hahead : Source.ahead s = Source.ahead t) :
    Together script s t := by
  induction script generalizing s t with
  | done a => exact together_of_still rfl rfl
  | stop => exact together_of_still rfl rfl
  | fail error => exact together_of_still rfl rfl
  | look next ih =>
    obtain ⟨answer, k, hk, hs, ht⟩ := ih (Source.ahead s) hahead
    exact ⟨answer, k, hk, hs, by rw [← ht, run, hahead]⟩
  | read r next ih =>
    exact together_of_read r.confined_reader rfl rfl hahead fun answer _ _ => ih answer
  | attempt inner next _ ih =>
    exact together_of_read inner.confined_reader rfl rfl hahead fun answer _ _ => ih answer

end Script

/-- What an answer is to a reader that has used `k` bytes for it. -/
def Outcome.ofAnswer {α : Type} (answer : Except Error (Option α)) (k : Nat) : Outcome α :=
  match answer with
  | .ok (some a) => .done a k
  | .ok none => .needMore
  | .error error => .fail error

theorem Reader.attempt_of_eq {α : Type} {decode : Slice → Except Error (Option α) × Slice} {c : Cursor}
    {answer : Except Error (Option α)} {k : Nat} (hk : k ≤ c.rest.length)
    (h : decode (.ofBytes c.rest c.offset) =
      (answer, Source.consume (Slice.ofBytes c.rest c.offset) k)) :
    attempt decode c = .ofAnswer answer k := by
  have hposition : (Source.consume (Slice.ofBytes c.rest c.offset) k).position = k := Nat.zero_add k
  unfold attempt
  rw [h]
  match answer with
  | .error e => rfl
  | .ok none => rfl
  | .ok (some a) => simp only [hposition, if_pos hk, Outcome.ofAnswer]

namespace Script
variable {α β σ : Type} [Source σ] [PlainSource σ]

/-- The program answers the same when it is attempted, and takes the same bytes if it takes any. -/
theorem exists_reader (script : Script α) (s : σ) :
    ∃ answer k, k ≤ (Source.ahead s).rest.length ∧ script.run s = (answer, Source.consume s k) ∧
      script.reader (Source.ahead s) = .ofAnswer answer k := by
  obtain ⟨answer, k, hk, hs, hlookahead⟩ := script.together (s := s)
    (t := Slice.ofBytes (Source.ahead s).rest (Source.ahead s).offset) rfl
  exact ⟨answer, k, hk, hs, Reader.attempt_of_eq hk hlookahead⟩

end Script

namespace Source
variable {α σ : Type} [Source σ] [PlainSource σ]

/-- An attempt is the program run on the source itself, unless that gives nothing. -/
theorem attempt_eq (script : Script α) (s : σ) :
    attempt script s = match script.run s with
      | (.ok (some a), after) => (.ok (some a), after)
      | (answer, _) => (answer, s) := by
  obtain ⟨answer, k, hk, hs, hreader⟩ := script.exists_reader s
  rw [hs]
  match answer with
  | .error e => exact read_of_fail hreader
  | .ok none => exact read_of_needMore hreader
  | .ok (some a) => exact read_of_done hreader

end Source

namespace Script
variable {α β : Type}

/-- Go on with the value that a program gives, if it gives one. -/
def bind {α β : Type} (script : Script α) (f : α → Script β) : Script β :=
  match script with
  | done a => f a
  | stop => stop
  | fail error => fail error
  | look next => look fun c => (next c).bind f
  | read r next => read r fun answer => (next answer).bind f
  | attempt inner next => attempt inner fun answer => (next answer).bind f

instance : Monad Script where
  pure := done
  bind := bind

/-- Read, and end where the read gives nothing. -/
def get (r : Read α) : Script α := read r fun
  | .ok (some a) => done a
  | .ok none => stop
  | .error error => fail error

def offset : Script Nat := look fun c => done c.offset

def times (script : Script α) : Nat → Script (List α)
  | 0 => return []
  | n + 1 => do
    let a ← script
    let rest ← times script n
    return a :: rest

theorem run_bind {σ : Type} [Source σ] (script : Script α) (f : α → Script β) (s : σ) :
    (script >>= f).run s = match script.run s with
      | (.ok (some a), after) => (f a).run after
      | (.ok none, after) => (.ok none, after)
      | (.error error, after) => (.error error, after) := by
  change (script.bind f).run s = _
  induction script generalizing s with
  | done a => rfl
  | stop => rfl
  | fail error => rfl
  | look next ih => exact ih (Source.ahead s) f s
  | read r next ih => exact ih (Source.read r.reader s).1 f (Source.read r.reader s).2
  | attempt inner next _ ih => exact ih (Source.attempt inner s).1 f (Source.attempt inner s).2

theorem run_get {σ : Type} [Source σ] (r : Read α) (s : σ) : (get r).run s = Source.read r.reader s := by
  rw [get, run_read]
  cases h : r.reader (Source.ahead s) with
  | done a n =>
    rw [Source.read_of_done h]
    rfl
  | needMore =>
    rw [Source.read_of_needMore h]
    rfl
  | fail e =>
    rw [Source.read_of_fail h]
    rfl

@[simp] theorem reader_pure (a : α) : (pure a : Script α).reader = pure a := rfl

@[simp] theorem reader_fail (error : Error) : (fail error : Script α).reader = Reader.fail error := rfl

theorem reader_look (next : Cursor → Script α) (c : Cursor) :
    (look next).reader c = (next c).reader c := rfl

@[simp] theorem reader_offset : offset.reader = Reader.offset := rfl

@[simp] theorem reader_get (r : Read α) : (get r).reader = r.reader := by
  rw [reader, ← Reader.attempt_read r.confined_reader]
  simp only [run_get]

@[simp] theorem reader_bind (script : Script α) (f : α → Script β) :
    (script >>= f).reader = script.reader >>= fun a => (f a).reader := by
  funext c
  obtain ⟨answer, k, hk, hrun, hreader⟩ := script.exists_reader (Slice.ofBytes c.rest c.offset)
  change k ≤ c.rest.length at hk
  change script.reader c = _ at hreader
  have hbind := run_bind script f (Slice.ofBytes c.rest c.offset)
  rw [hrun] at hbind
  rw [Reader.bind_run, hreader]
  match answer with
  | .error e => exact Reader.attempt_of_eq hk hbind
  | .ok none => exact Reader.attempt_of_eq hk hbind
  | .ok (some a) =>
    obtain ⟨answer', k', hk', hrun', hreader'⟩ :=
      (f a).exists_reader (Source.consume (Slice.ofBytes c.rest c.offset) k)
    rw [LawfulSource.ahead_consume] at hk' hreader'
    change k' ≤ (c.rest.drop k).length at hk'
    change (f a).reader (c.drop k) = _ at hreader'
    rw [List.length_drop] at hk'
    simp only [hrun', PlainSource.consume_consume] at hbind
    rw [reader, Reader.attempt_of_eq (by omega) hbind]
    simp only [Outcome.ofAnswer, hreader']
    match answer' with
    | .error e => rfl
    | .ok none => rfl
    | .ok (some b) => rfl

/-- Look what a reader makes of the bytes ahead, and skip what it has used. -/
def peek (r : Reader α) : Script α := look fun c =>
  match r c with
  | .done a n => read (.skip n) fun _ => done a
  | .needMore => stop
  | .fail error => fail error

theorem run_peek {σ : Type} [Source σ] {r : Reader α} (hr : Reader.Confined r) (s : σ) :
    (peek r).run s = Source.read r s := by
  rw [peek, run]
  cases h : r (Source.ahead s) with
  | done a n =>
    have hn := hr _ _ _ h
    have hskip : (Read.skip n).reader (Source.ahead s) = .done true n := by
      simp only [Read.reader, Reader.skip?, Reader.skip, Reader.bind_run, Reader.bytes,
        List.length_take, Nat.min_eq_left hn, if_true, Reader.pure_run, Outcome.after, Nat.add_zero]
    rw [run_read, Source.read_of_done hskip, Source.read_of_done h]
    rfl
  | needMore => exact (Source.read_of_needMore h).symm
  | fail e => exact (Source.read_of_fail h).symm

@[simp] theorem reader_times (script : Script α) (n : Nat) :
    (times script n).reader = Reader.times script.reader n := by
  induction n with
  | zero => rfl
  | succ n ih => simp only [times, Reader.times, reader_bind, reader_pure, ih]

end Script

end WasmStream
