import WasmStream.Proofs.Accumulation
import WasmStream.Proofs.BuilderSchedule
import WasmStream.Proofs.Leb128Exactness
import WasmStream.Proofs.Rejection.Builders

/-! Fields in a row on one stream. However the input is cut into chunks and however often the field is
taken up in between, the answers are those of the fields of the input, in order. Each answer, an error
too, covers the bytes of its own field and no others, so that the next field begins where it should. -/
namespace WasmStream
open Builder Grammar

/-- What a field holds: bytes, or a name. -/
inductive Content : Type → Type
  | bytes : Content (List UInt8)
  | name : Content String

namespace Content
variable {α : Type}

def freeze : Content α → List UInt8 → Except Error α
  | bytes => .ok
  | name => readName

/-- The answer to the payload of a field. -/
inductive Gives : {α : Type} → Content α → List UInt8 → Except Error α → Prop
  | bytes (payload : List UInt8) : Gives bytes payload (.ok payload)
  | name (text : String) : Gives name (Utf8.encode text.toList) (.ok text)
  | notUtf8 {payload : List UInt8} {fault : Utf8Fault}
      (hnot : ∀ text : String, payload ≠ Utf8.encode text.toList)
      (hfault : Utf8.decode payload = .error fault) : Gives name payload (.error (.invalidUtf8 fault))

theorem gives_iff {content : Content α} {payload : List UInt8} {answer : Except Error α} :
    content.Gives payload answer ↔ content.freeze payload = answer := by
  constructor
  · intro h
    cases h with
    | bytes => rfl
    | name text => exact readName_eq_ok_iff.mpr rfl
    | notUtf8 _ hfault => rw [freeze, readName, hfault]
  · rintro rfl
    cases content with
    | bytes => exact .bytes payload
    | name =>
      cases hname : readName payload with
      | ok text =>
        obtain rfl := readName_eq_ok_iff.mp hname
        rw [freeze, hname]
        exact .name text
      | error e =>
        have hnot (text : String) : payload ≠ Utf8.encode text.toList := fun htext => by
          cases hname.symm.trans (readName_eq_ok_iff.mpr htext)
        obtain ⟨fault, hfault, hinvalid⟩ := readName_of_not_encode hnot
        rw [freeze, hinvalid]
        exact .notUtf8 hnot hfault

end Content

namespace Pass
variable {σ α : Type}

/-- A pass that gives an answer. -/
def settled (answer : Except Error α) (s : σ) (n : Nat) : Pass σ α :=
  match answer with
  | .ok a => .ready a s n
  | .error e => .failed e s n

/-- The answer of a pass; a pass that waits for more input gives none. -/
def answer? : Pass σ α → Option (Except Error α)
  | ready a _ _ => some (.ok a)
  | paused _ _ => none
  | failed e _ _ => some (.error e)

@[simp] theorem state_settled (answer : Except Error α) (s : σ) (n : Nat) :
    (settled answer s n).state = s := by cases answer <;> rfl

@[simp] theorem used_settled (answer : Except Error α) (s : σ) (n : Nat) :
    (settled answer s n).used = n := by cases answer <;> rfl

@[simp] theorem answer?_settled (answer : Except Error α) (s : σ) (n : Nat) :
    (settled answer s n).answer? = some answer := by cases answer <;> rfl

theorem resume_settled (p : Builder σ α) (c : Cursor) (more : List UInt8) (answer : Except Error α)
    (s : σ) (n : Nat) : p.resume c more (settled answer s n) = settled answer s n := by
  cases answer <;> rfl

theorem after_settled (answer : Except Error α) (s : σ) (n m : Nat) :
    (settled answer s n).after m = settled answer s (m + n) := by cases answer <;> rfl

theorem settled_inj {answer answer' : Except Error α} {s s' : σ} {n n' : Nat} :
    settled answer s n = settled answer' s' n' ↔ answer = answer' ∧ s = s' ∧ n = n' := by
  cases answer <;> cases answer' <;> simp [settled]

theorem settled_ne_paused {answer : Except Error α} {s s' : σ} {n n' : Nat} :
    settled answer s n ≠ paused s' n' := by cases answer <;> simp [settled]

theorem eq_settled_of_answer? {pass : Pass σ α} {answer : Except Error α}
    (h : pass.answer? = some answer) : pass = settled answer pass.state pass.used := by
  cases pass <;> cases h <;> rfl

theorem eq_paused_of_answer? {pass : Pass σ α} (h : pass.answer? = none) :
    pass = paused pass.state pass.used := by
  cases pass with
  | paused s n => rfl
  | ready a s n => cases h
  | failed e s n => cases h

end Pass

theorem Leb128.decided_u32 (c : Cursor) :
    Decided (Reader.u32 c) (fun n k => ∃ w rest, U32 n w ∧ c.rest = w ++ rest ∧ w.length = k)
      (Unfinished 32 c.rest) (.integerTooLarge false 32 c.offset) := by
  apply decided_of
  · intro n k
    rw [reads_u32 c n k]
    constructor
    · rintro ⟨hk, hform⟩
      exact ⟨_, c.rest.drop k, hform, (List.take_append_drop k c.rest).symm,
        List.length_take_of_le hk⟩
    · rintro ⟨w, rest, hform, hrest, rfl⟩
      rw [hrest, List.take_left' rfl]
      exact ⟨by simp, hform⟩
  · rw [← (decided_unsigned (by decide) c.offset c.rest).needMore_iff, Reader.u32, Reader.bind_run]
    cases Reader.unsigned 32 c <;> simp [Reader.pure_run, Outcome.after]
  · exact fun e h => Reader.fail_u32 h

theorem Leb128.read_u32 {c : Cursor} {n : UInt32} {w rest : List UInt8} (hform : U32 n w)
    (hrest : c.rest = w ++ rest) :
    Reader.u32 c = .done n w.length ∧ (c.drop w.length).rest = rest := by
  refine ⟨((decided_u32 c).done_iff _ _).mpr ⟨w, rest, hform, hrest, rfl⟩, ?_⟩
  rw [Cursor.drop_rest, hrest, List.drop_left' rfl]

namespace Pending
variable {α : Type} {content : Content α} {maxLength : UInt32} {c : Cursor} {covered n : Nat}
variable {answer answer' : Except Error α}

/-- What the next field of the input comes to, and how many bytes that covers: all of the field, its
length alone if it is above the limit, and nothing of a malformed length. -/
inductive Next (content : Content α) (maxLength : UInt32) (c : Cursor) : Except Error α → Nat → Prop
  | field {length : UInt32} {w payload rest : List UInt8} {answer : Except Error α}
      (hlength : U32 length w) (hle : length ≤ maxLength) (hpayload : payload.length = length.toNat)
      (hrest : c.rest = w ++ (payload ++ rest)) (hgives : content.Gives payload answer) :
      Next content maxLength c answer (w.length + payload.length)
  | tooLong {length : UInt32} {w rest : List UInt8} (hlength : U32 length w)
      (hlt : maxLength < length) (hrest : c.rest = w ++ rest) : Next content maxLength c
        (.error (.limitExceeded "field length" maxLength.toNat c.offset)) w.length
  | malformed (hclosed : ¬Leb128.Unfinished 32 c.rest)
      (hnone : ∀ length w rest, U32 length w → c.rest ≠ w ++ rest) :
      Next content maxLength c (.error (.integerTooLarge false 32 c.offset)) 0

theorem fillPart_of_isComplete {freeze : List UInt8 → Except Error α} {f : ByteField}
    (h : (f.fill c.rest).isComplete = true) (s : Pending) :
    fillPart freeze f s c =
      .settled (freeze (f.fill c.rest).filled) awaitingLength (f.taken c.rest) := by
  have hclose := close_of_isComplete freeze h
  cases hfrozen : freeze (f.fill c.rest).filled with
  | ok a => exact fillPart_of_ok h (hclose.trans hfrozen) s
  | error e => exact fillPart_of_error h (hclose.trans hfrozen) s

theorem Next.builder_eq (h : Next content maxLength c answer n) :
    builder content.freeze maxLength awaitingLength c = .settled answer awaitingLength n := by
  rw [builder_awaitingLength]
  cases h with
  | @field length w payload rest _ hlength hle hpayload hrest hgives =>
    obtain ⟨hread, hbehind⟩ := Leb128.read_u32 hlength hrest
    rw [hread]
    simp only [if_neg (UInt32.not_lt.mpr hle)]
    rcases ByteField.fill_ofLength length.toNat (c.drop w.length).rest with
      ⟨-, hcomplete, hfill, htaken⟩ | ⟨hshort, -⟩
    · rw [fillPart_of_isComplete hcomplete, hfill, htaken, Pass.after_settled, hbehind, ← hpayload,
        List.take_left' rfl, Content.gives_iff.mp hgives]
    · rw [hbehind, List.length_append] at hshort
      omega
  | @tooLong length w rest hlength hlt hrest =>
    rw [(Leb128.read_u32 hlength hrest).1]
    simp only [if_pos hlt]
    rfl
  | malformed hclosed hnone =>
    have hread : Reader.u32 c = .fail (.integerTooLarge false 32 c.offset) := by
      refine ((Leb128.decided_u32 c).fail_iff _).mpr ⟨rfl, hclosed, ?_⟩
      rintro length k ⟨w, rest, hlength, hrest, -⟩
      exact hnone length w rest hlength hrest
    rw [hread]
    rfl

theorem Next.unique (h : Next content maxLength c answer n) {k : Nat}
    (h' : Next content maxLength c answer' k) : answer' = answer ∧ k = n := by
  obtain ⟨hanswer, -, hk⟩ := Pass.settled_inj.mp (h'.builder_eq.symm.trans h.builder_eq)
  exact ⟨hanswer, hk⟩

/-- A pass from the start of a field answers the field, or the field is not there. -/
theorem builder_cases (content : Content α) (maxLength : UInt32) (c : Cursor) :
    (∃ answer n, Next content maxLength c answer n) ∨
      (Leb128.Unfinished 32 c.rest ∧
        builder content.freeze maxLength awaitingLength c = .paused awaitingLength 0) ∨
      ∃ f, builder content.freeze maxLength awaitingLength c = .paused (filling f) c.rest.length := by
  cases hread : Reader.u32 c with
  | done length k =>
    obtain ⟨w, behind, hlength, hrest, rfl⟩ := ((Leb128.decided_u32 c).done_iff _ _).mp hread
    by_cases hlt : maxLength < length
    · exact .inl ⟨_, _, .tooLong hlength hlt hrest⟩
    · have hbehind := (Leb128.read_u32 hlength hrest).2
      rcases ByteField.fill_ofLength length.toNat behind with ⟨hle, -⟩ | ⟨-, hopen⟩
      · have hparts : c.rest = w ++ (behind.take length.toNat ++ behind.drop length.toNat) := by
          rw [hrest, List.take_append_drop]
        exact .inl ⟨_, _, .field hlength (UInt32.not_lt.mp hlt) (List.length_take_of_le hle) hparts
          (Content.gives_iff.mpr rfl)⟩
      · refine .inr (.inr ⟨(ByteField.ofLength length.toNat).fill behind, ?_⟩)
        have hall := (ByteField.taken_append_of_not_isComplete hopen []).1
        rw [← hbehind] at hopen
        rw [builder_awaitingLength, hread]
        simp only [if_neg hlt]
        rw [fillPart_of_not_isComplete hopen, Pass.after_paused, hbehind, hall, hrest,
          List.length_append]
  | needMore =>
    refine .inr (.inl ⟨(Leb128.decided_u32 c).needMore_iff.mp hread, ?_⟩)
    rw [builder_awaitingLength, hread]
  | fail e =>
    obtain ⟨rfl, hclosed, hnone⟩ := ((Leb128.decided_u32 c).fail_iff _).mp hread
    exact .inl ⟨_, _, .malformed hclosed fun length w rest hlength hrest =>
      hnone length w.length ⟨w, rest, hlength, hrest, rfl⟩⟩

theorem next_of_settled {s : Pending}
    (h : builder content.freeze maxLength awaitingLength c = .settled answer s n) :
    s = awaitingLength ∧ Next content maxLength c answer n := by
  rcases builder_cases content maxLength c with ⟨answer', n', hnext⟩ | ⟨-, hpaused⟩ | ⟨f, hpaused⟩
  · obtain ⟨rfl, rfl, rfl⟩ := Pass.settled_inj.mp (h.symm.trans hnext.builder_eq)
    exact ⟨rfl, hnext⟩
  · exact absurd (h.symm.trans hpaused) Pass.settled_ne_paused
  · exact absurd (h.symm.trans hpaused) Pass.settled_ne_paused

/-- A pass that waits has come to no end of the field: it has left an unfinished length alone, or has
taken all there was. -/
theorem waiting_of_paused {s : Pending}
    (h : builder content.freeze maxLength awaitingLength c = .paused s n) :
    (∀ answer k, ¬Next content maxLength c answer k) ∧
      ((s = awaitingLength ∧ n = 0 ∧ Leb128.Unfinished 32 c.rest) ∨
        (∃ f, s = filling f) ∧ n = c.rest.length) := by
  refine ⟨fun answer k hnext => Pass.settled_ne_paused (hnext.builder_eq.symm.trans h), ?_⟩
  rcases builder_cases content maxLength c with ⟨_, _, hnext⟩ | ⟨hopen, hpaused⟩ | ⟨f, hpaused⟩
  · exact absurd (hnext.builder_eq.symm.trans h) Pass.settled_ne_paused
  · cases h.symm.trans hpaused
    exact .inl ⟨rfl, rfl, hopen⟩
  · cases h.symm.trans hpaused
    exact .inr ⟨⟨f, rfl⟩, rfl⟩

theorem Next.le (h : Next content maxLength c answer n) : n ≤ c.rest.length := by
  have hle := (resumable_builder content.freeze maxLength awaitingLength c).1
  rwa [h.builder_eq, Pass.used_settled] at hle

/-- What comes later does not change the next field. -/
theorem Next.append (h : Next content maxLength c answer n) (more : List UInt8) :
    Next content maxLength (c.append more) answer n := by
  have hmore := (resumable_builder content.freeze maxLength awaitingLength c).2 more
  rw [h.builder_eq, Pass.resume_settled] at hmore
  exact (next_of_settled hmore).2

/-- The first fields of the input, one behind the other, and how many bytes they cover. -/
inductive Fields (content : Content α) (maxLength : UInt32) (c : Cursor) :
    List (Except Error α) → Nat → Prop
  | nil : Fields content maxLength c [] 0
  | snoc {answers : List (Except Error α)} {answer : Except Error α} {covered n : Nat}
      (hfields : Fields content maxLength c answers covered)
      (hnext : Next content maxLength (c.drop covered) answer n) :
      Fields content maxLength c (answers ++ [answer]) (covered + n)

variable {answers : List (Except Error α)}

theorem Fields.le (h : Fields content maxLength c answers covered) : covered ≤ c.rest.length := by
  induction h with
  | nil => exact Nat.zero_le _
  | snoc _ hnext ih =>
    have hle := hnext.le
    rw [Cursor.drop_rest, List.length_drop] at hle
    omega

theorem Fields.append (h : Fields content maxLength c answers covered) (more : List UInt8) :
    Fields content maxLength (c.append more) answers covered := by
  induction h with
  | nil => exact .nil
  | snoc hfields hnext ih =>
    refine ih.snoc ?_
    rw [Cursor.drop_append hfields.le]
    exact hnext.append more

/-- A field that is taken up again and again, its stream, and the answers that were given. -/
structure Delivery (α : Type) where
  state : Pending
  stream : ChunkStream
  answers : List (Except Error α)

namespace Delivery
variable {h : Delivery α} {used : Nat}

def start (stream : ChunkStream) : Delivery α := ⟨awaitingLength, stream, []⟩

def perform (p : Builder Pending α) (h : Delivery α) : Event → Delivery α
  | .push chunk => { h with stream := h.stream.push chunk }
  | .decode =>
    let (pass, stream) := p.run h.state h.stream
    ⟨pass.state, stream, h.answers ++ pass.answer?.toList⟩

def run (p : Builder Pending α) (h : Delivery α) (events : List Event) : Delivery α :=
  events.foldl (perform p) h

theorem run_concat (p : Builder Pending α) (h : Delivery α) (events : List Event) (event : Event) :
    h.run p (events ++ [event]) = (h.run p events).perform p event := by
  rw [run, List.foldl_append]
  rfl

theorem perform_decode (p : Builder Pending α) (h : Delivery α) : h.perform p .decode =
    ⟨(p h.state (Source.ahead h.stream)).state,
      Source.consume h.stream (p h.state (Source.ahead h.stream)).used,
      h.answers ++ (p h.state (Source.ahead h.stream)).answer?.toList⟩ := rfl

/-- The answers are those of the first fields of the input at `c`, and of the field behind them `used`
bytes have been taken: what is left of it, now and when there is more input, is what is left of a field
that begins there. -/
structure InStep (content : Content α) (maxLength : UInt32) (c : Cursor) (covered used : Nat)
    (h : Delivery α) : Prop where
  fields : Fields content maxLength c h.answers covered
  used_le : covered + used ≤ c.rest.length
  ahead_eq : Source.ahead h.stream = c.drop (covered + used)
  pass_eq : ∀ more, builder content.freeze maxLength awaitingLength ((c.drop covered).append more) =
    (builder content.freeze maxLength h.state ((c.drop (covered + used)).append more)).after used

namespace InStep

theorem start (content : Content α) (maxLength : UInt32) (s : ChunkStream) :
    InStep content maxLength (Source.ahead s) 0 0 (start s) where
  fields := .nil
  used_le := Nat.zero_le _
  ahead_eq := (Cursor.drop_zero _).symm
  pass_eq _ := (Pass.after_zero _).symm

theorem push (hstep : InStep content maxLength c covered used h) (chunk : List UInt8) :
    InStep content maxLength (c.append chunk) covered used
      (h.perform (builder content.freeze maxLength) (.push chunk)) where
  fields := hstep.fields.append chunk
  used_le := by
    have hused := hstep.used_le
    rw [Cursor.append_rest, List.length_append]
    omega
  ahead_eq := by
    rw [perform, ChunkStream.ahead_push, hstep.ahead_eq, Cursor.drop_append hstep.used_le]
  pass_eq more := by
    rw [Cursor.drop_append hstep.fields.le, Cursor.drop_append hstep.used_le, Cursor.append_append,
      Cursor.append_append]
    exact hstep.pass_eq (chunk ++ more)

/-- The next pass is the rest of a pass from the start of the field. -/
theorem now (hstep : InStep content maxLength c covered used h) :
    builder content.freeze maxLength awaitingLength (c.drop covered) =
      (builder content.freeze maxLength h.state (c.drop (covered + used))).after used := by
  have hnow := hstep.pass_eq []
  rwa [Cursor.append_nil, Cursor.append_nil] at hnow

/-- A pass that answers, answers the field. -/
theorem answered (hstep : InStep content maxLength c covered used h)
    (hanswer : (builder content.freeze maxLength h.state (c.drop (covered + used))).answer? =
      some answer) :
    ∃ n, builder content.freeze maxLength h.state (c.drop (covered + used)) =
        .settled answer awaitingLength n ∧
      Next content maxLength (c.drop covered) answer (used + n) := by
  have hpass := Pass.eq_settled_of_answer? hanswer
  have hnow := hstep.now
  rw [hpass, Pass.after_settled] at hnow
  obtain ⟨hstate, hnext⟩ := next_of_settled hnow
  rw [hstate] at hpass
  exact ⟨_, hpass, hnext⟩

/-- A pass without an answer has not come to the end of the field. -/
theorem waiting (hstep : InStep content maxLength c covered used h)
    (hnone : (builder content.freeze maxLength h.state (c.drop (covered + used))).answer? = none) :
    ∃ t n, builder content.freeze maxLength h.state (c.drop (covered + used)) = .paused t n ∧
      (∀ answer k, ¬Next content maxLength (c.drop covered) answer k) ∧
      ((t = awaitingLength ∧ used + n = 0 ∧ Leb128.Unfinished 32 (c.drop covered).rest) ∨
        (∃ f, t = filling f) ∧ used + n = (c.drop covered).rest.length) := by
  have hpass := Pass.eq_paused_of_answer? hnone
  have hnow := hstep.now
  rw [hpass, Pass.after_paused] at hnow
  exact ⟨_, _, hpass, waiting_of_paused hnow⟩

theorem decode (hstep : InStep content maxLength c covered used h) :
    ∃ covered' used', InStep content maxLength c covered' used'
      (h.perform (builder content.freeze maxLength) .decode) := by
  cases hanswer : (builder content.freeze maxLength h.state (c.drop (covered + used))).answer? with
  | some answer =>
    obtain ⟨n, hpass, hnext⟩ := hstep.answered hanswer
    have hfields := hstep.fields.snoc hnext
    rw [perform_decode, hstep.ahead_eq, hpass, Pass.state_settled, Pass.used_settled,
      Pass.answer?_settled]
    -- The field is covered, so what is left is a field of its own.
    refine ⟨covered + (used + n), 0, hfields, hfields.le, ?_, fun more => (Pass.after_zero _).symm⟩
    rw [LawfulSource.ahead_consume, hstep.ahead_eq, Cursor.drop_drop, Nat.add_assoc, Nat.add_zero]
  | none =>
    obtain ⟨t, n, hpass, -⟩ := hstep.waiting hanswer
    obtain ⟨hle, hmore⟩ :=
      resumable_builder content.freeze maxLength h.state (c.drop (covered + used))
    have hused := hstep.used_le
    rw [hpass, Cursor.drop_rest, List.length_drop] at hle
    rw [perform_decode, hstep.ahead_eq, hpass]
    -- The field stays the same, with `n` more of its bytes taken.
    refine ⟨covered, used + n, ?_, ?_, ?_, fun more => ?_⟩
    · rw [Pass.answer?, Option.toList_none, List.append_nil]
      exact hstep.fields
    · change n ≤ _ at hle
      omega
    · rw [LawfulSource.ahead_consume, hstep.ahead_eq, Cursor.drop_drop, ← Nat.add_assoc]
      rfl
    · rw [hstep.pass_eq more, hmore more, hpass, resume_paused, Pass.after_after, Cursor.drop_drop,
        Nat.add_assoc]
      rfl

/-- A delivery stays in step with the fields of its input, whatever happens. -/
theorem run (hstep : InStep content maxLength c covered used h) (events : List Event) :
    ∃ covered' used', InStep content maxLength (c.append (pushed events)) covered' used'
      (h.run (builder content.freeze maxLength) events) := by
  induction events generalizing h c covered used with
  | nil =>
    rw [pushed, Cursor.append_nil]
    exact ⟨covered, used, hstep⟩
  | cons event rest ih =>
    cases event with
    | push chunk =>
      rw [pushed, ← Cursor.append_append]
      exact ih (hstep.push chunk)
    | decode =>
      obtain ⟨covered', used', hnext⟩ := hstep.decode
      exact ih hnext

end InStep
end Delivery

/-- With all the input there from the start, every pass answers the next field. -/
theorem Fields.run_decodes (h : Fields content maxLength c answers covered) {stream : ChunkStream}
    (hstream : Source.ahead stream = c) :
    let whole := (Delivery.start stream).run (builder content.freeze maxLength)
      (List.replicate answers.length .decode)
    whole.answers = answers ∧ whole.state = awaitingLength ∧
      Source.ahead whole.stream = c.drop covered := by
  induction h with
  | nil => exact ⟨rfl, rfl, hstream.trans (Cursor.drop_zero c).symm⟩
  | @snoc answers answer covered n hfields hnext ih =>
    obtain ⟨hanswers, hstate, hahead⟩ := ih
    rw [List.length_append, List.length_singleton, List.replicate_succ', Delivery.run_concat,
      Delivery.perform_decode, hstate, hahead, hnext.builder_eq]
    refine ⟨?_, Pass.state_settled _ _ _, ?_⟩
    · rw [hanswers, Pass.answer?_settled, Option.toList_some]
    · rw [LawfulSource.ahead_consume, hahead, Pass.used_settled, Cursor.drop_drop]

/-- The delivery has answered the first fields of the input at `c`, which cover `covered` bytes. What
its next pass answers is the next field, with the length of a field awaited behind it; a pass that does
not answer leaves an unfinished length alone or has consumed all there was. One chunk with all of the
input would have been answered in the same way. -/
structure Delivers (content : Content α) (maxLength : UInt32) (c : Cursor) (h : Delivery α)
    (covered : Nat) : Prop where
  fields : Fields content maxLength c h.answers covered
  answered : ∀ pass stream answer,
    (builder content.freeze maxLength).run h.state h.stream = (pass, stream) →
    pass.answer? = some answer →
    ∃ n, (∀ answer' k, Next content maxLength (c.drop covered) answer' k ↔
        answer' = answer ∧ k = n) ∧
      pass.state = awaitingLength ∧ Source.ahead stream = c.drop (covered + n)
  waits : ∀ pass stream,
    (builder content.freeze maxLength).run h.state h.stream = (pass, stream) →
    pass.answer? = none →
    (∀ answer n, ¬Next content maxLength (c.drop covered) answer n) ∧
      ((pass.state = awaitingLength ∧ stream = h.stream ∧ Source.ahead stream = c.drop covered ∧
          Leb128.Unfinished 32 (Source.peek stream)) ∨
        (∃ f, pass.state = filling f) ∧ Source.peek stream = [])
  whole : ∀ stream : ChunkStream, Source.ahead stream = c →
    ((Delivery.start stream).run (builder content.freeze maxLength)
      (List.replicate h.answers.length .decode)).answers = h.answers

theorem Delivery.InStep.delivers {h : Delivery α} {used : Nat}
    (hstep : InStep content maxLength c covered used h) :
    Delivers content maxLength c h covered where
  fields := hstep.fields
  answered pass stream answer hrun hanswer := by
    rw [Builder.run, hstep.ahead_eq] at hrun
    obtain ⟨rfl, rfl⟩ := Prod.mk.inj hrun
    obtain ⟨n, hpass, hnext⟩ := hstep.answered hanswer
    refine ⟨used + n, fun answer' k => ⟨hnext.unique, ?_⟩, ?_, ?_⟩
    · rintro ⟨rfl, rfl⟩
      exact hnext
    · rw [hpass, Pass.state_settled]
    · rw [hpass, Pass.used_settled, LawfulSource.ahead_consume, hstep.ahead_eq, Cursor.drop_drop,
        Nat.add_assoc]
  waits pass stream hrun hnone := by
    rw [Builder.run, hstep.ahead_eq] at hrun
    obtain ⟨rfl, rfl⟩ := Prod.mk.inj hrun
    obtain ⟨t, n, hpass, hnot, hcases⟩ := hstep.waiting hnone
    rw [hpass]
    have hahead : Source.ahead (Source.consume h.stream n) = c.drop (covered + (used + n)) := by
      rw [LawfulSource.ahead_consume, hstep.ahead_eq, Cursor.drop_drop, Nat.add_assoc]
    refine ⟨hnot, ?_⟩
    rcases hcases with ⟨rfl, hzero, hopen⟩ | ⟨hfilling, hall⟩
    · obtain ⟨rfl, rfl⟩ : used = 0 ∧ n = 0 := by omega
      refine .inl ⟨rfl, rfl, hahead, ?_⟩
      change Leb128.Unfinished 32 (Source.ahead (Source.consume h.stream 0)).rest
      rw [hahead]
      exact hopen
    · refine .inr ⟨hfilling, ?_⟩
      rw [Cursor.drop_rest, List.length_drop] at hall
      change (Source.ahead (Source.consume h.stream n)).rest = []
      rw [hahead, Cursor.drop_rest, List.drop_eq_nil_iff]
      omega
  whole stream hstream := (hstep.fields.run_decodes hstream).1

/-- Whatever is pushed and however often the field is taken up, the answers are those of the fields of
the whole input, in order. -/
theorem fields_in_order (content : Content α) (maxLength : UInt32) (s : ChunkStream)
    (events : List Event) :
    ∃ covered, Delivers content maxLength ((Source.ahead s).append (pushed events))
      ((Delivery.start s).run (builder content.freeze maxLength) events) covered := by
  obtain ⟨covered, used, hstep⟩ := (Delivery.InStep.start content maxLength s).run events
  exact ⟨covered, hstep.delivers⟩

/-- A name of six bytes that is cut inside its second character, and a field above the limit. -/
example : ((Delivery.start .empty).run (builder Content.name.freeze 64)
    [.push [6, 0x68, 0xC3], .decode, .push [0xA9, 0x6C, 0x6C], .decode, .push [0x6F, 0x41], .decode,
      .decode, .decode]).answers = [.ok "héllo", .error (.limitExceeded "field length" 64 7)] := by
  cbv

end Pending
end WasmStream
