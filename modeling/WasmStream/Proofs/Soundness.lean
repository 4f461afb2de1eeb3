import WasmStream.CommandLine.Run
import WasmStream.Proofs.Leb128Exactness
import WasmStream.Proofs.Relocation.Decoder

/-! Decoding fails as a parse error or not at all. Whatever a decoder has been fed with, also behind an
error, it goes on in states where its arithmetic is in order: entries are still to come in a section
that is being decoded, no section begins behind the place that has been reached, no field is filled
beyond its length, and no more bytes are used than there are. -/
namespace WasmStream

namespace ByteField

/-- A field takes bytes that are there and that it misses, and its length stays what it was. -/
structure Bounded (f : ByteField) (available : List UInt8) : Prop where
  taken_le_available : f.taken available ≤ available.length
  taken_le_missing : f.taken available ≤ f.missing
  filled_eq : (f.fill available).filled.length = f.filled.length + f.taken available
  filled_le : (f.fill available).filled.length ≤ f.length
  length_eq : (f.fill available).length = f.length

theorem bounded (f : ByteField) (available : List UInt8) : f.Bounded available := by
  have htaken : f.taken available = min f.missing available.length := List.length_take
  have hfilled : (f.fill available).filled.length = f.filled.length + f.taken available := by
    rw [filled_fill, List.length_append]
    rfl
  have hlength : f.length = f.filled.length + f.missing := rfl
  exact ⟨by omega, by omega, hfilled, by omega, length_fill f available⟩

end ByteField

/-- An error that says what is wrong with the module, and with which the program ends accordingly. -/
structure Error.IsParseFailure (e : Error) : Prop where
  category : e.category = .parse
  valid : ∀ what, e ≠ .invalidState what
  exitStatus : ∀ path, CommandLine.exitStatus (.undecodable path e) = 2

theorem Error.isParseFailure {e : Error} (h : e.category = .parse) : e.IsParseFailure where
  category := h
  valid what he := by
    rw [he] at h
    cases h
  exitStatus path := by
    simp [CommandLine.exitStatus, CommandLine.Failure.isAbort, CommandLine.Failure.error?, h]

namespace DecoderState

/-- A section that is being decoded has begun; if it is a list, entries are still to come. -/
def InOrder (offset : Nat) : DecoderState → Prop
  | header | sectionStart => True
  | entries s remaining _ => 0 < remaining ∧ s.start ≤ offset
  | entryCount s | startFunction s | dataCount s | custom s _ | skip s | sectionEnd s =>
    s.start ≤ offset

theorem inOrder_ofSection {s : SectionFrame} {offset : Nat} (h : s.start ≤ offset) :
    (ofSection s).InOrder offset := by
  obtain ⟨id, start, size⟩ := s
  cases id <;> exact h

theorem InOrder.start_le {state : DecoderState} {offset : Nat} (h : state.InOrder offset)
    {s : SectionFrame} (hs : state.frame? = some s) : s.start ≤ offset := by
  cases state with
  | header | sectionStart => cases hs
  | entries s remaining entry =>
    cases hs
    exact h.2
  | entryCount s | startFunction s | dataCount s | custom s entry | skip s | sectionEnd s =>
    cases hs
    exact h

theorem InOrder.later {state : DecoderState} {offset : Nat} (h : state.InOrder offset) (n : Nat) :
    state.InOrder (offset + n) := by
  cases state with
  | header | sectionStart => exact trivial
  | entries s remaining entry => exact ⟨h.1, Nat.le_add_right_of_le h.2⟩
  | entryCount s | startFunction s | dataCount s | custom s entry | skip s | sectionEnd s =>
    exact Nat.le_add_right_of_le h

end DecoderState

namespace Decoder
variable {d d' : Decoder} {c c' : Cursor}

theorem inOrder_stepEntryCount {s : SectionFrame} (hs : d.state = .entryCount s)
    (h : s.start ≤ c.offset) :
    (d.stepEntryCount s c).state.state.InOrder (c.offset + (d.stepEntryCount s c).used) := by
  have hlater (n : Nat) : s.start ≤ c.offset + n := Nat.le_add_right_of_le h
  have hkept (n : Nat) : d.state.InOrder (c.offset + n) := by
    rw [hs]
    exact hlater n
  unfold stepEntryCount
  split
  · next count n _ =>
    split
    · exact hkept n
    · split
      · split
        · exact hlater n
        · next hcount =>
          have hpos : count.toNat ≠ 0 := fun hzero => hcount (UInt32.toNat_inj.mp hzero)
          exact ⟨Nat.pos_of_ne_zero hpos, hlater n⟩
      · exact hlater n
  · exact hkept 0
  · exact hkept 0

theorem inOrder_stepEntries {s : SectionFrame} {remaining : Nat} {entry : EntryBuilder}
    (hpos : 0 < remaining) (h : s.start ≤ c.offset) :
    (d.stepEntries s remaining entry c).state.state.InOrder
      (c.offset + (d.stepEntries s remaining entry c).used) := by
  have hlater (n : Nat) : s.start ≤ c.offset + n := Nat.le_add_right_of_le h
  unfold stepEntries
  split
  · next e entry' n _ =>
    dsimp only
    split
    · exact ⟨hpos, hlater n⟩
    · split
      · exact hlater n
      · next hmore => exact ⟨Nat.sub_pos_of_lt (Nat.lt_of_not_le hmore), hlater n⟩
  · next entry' n _ =>
    dsimp only
    split
    · exact ⟨hpos, hlater n⟩
    · exact ⟨hpos, hlater n⟩
  · next e entry' n _ => exact ⟨hpos, hlater n⟩

theorem inOrder_stepNumber {s : SectionFrame} {entry : UInt32 → Entry} (hd : d.state.InOrder c.offset)
    (h : s.start ≤ c.offset) :
    (d.stepNumber s entry c).state.state.InOrder (c.offset + (d.stepNumber s entry c).used) := by
  unfold stepNumber
  split
  · next value n _ => exact Nat.le_add_right_of_le h
  · exact hd.later 0
  · exact hd.later 0

theorem inOrder_step (h : d.state.InOrder c.offset) :
    (d.step c).state.state.InOrder (c.offset + (d.step c).used) := by
  cases hs : d.state with
  | header =>
    rw [step_header hs]
    unfold stepHeader
    split
    · split
      · exact trivial
      · exact h.later _
    · exact h.later 0
    · exact h.later 0
  | sectionStart =>
    rw [step_sectionStart hs]
    unfold stepSectionStart
    split
    · split
      · exact DecoderState.inOrder_ofSection (Nat.le_refl _)
      · exact h.later _
    · exact h.later 0
    · exact h.later 0
  | entryCount s =>
    rw [hs] at h
    rw [step_entryCount hs]
    exact inOrder_stepEntryCount hs h
  | entries s remaining entry =>
    rw [hs] at h
    rw [step_entries hs]
    exact inOrder_stepEntries h.1 h.2
  | startFunction s =>
    have hstart : s.start ≤ c.offset := h.start_le (by rw [hs]; rfl)
    rw [step_startFunction hs]
    exact inOrder_stepNumber h hstart
  | dataCount s =>
    have hstart : s.start ≤ c.offset := h.start_le (by rw [hs]; rfl)
    rw [step_dataCount hs]
    exact inOrder_stepNumber h hstart
  | custom s entry =>
    have hstart : s.start ≤ c.offset := h.start_le (by rw [hs]; rfl)
    rw [step_custom hs]
    unfold stepCustom
    split
    · exact Nat.le_add_right_of_le hstart
    · exact Nat.le_add_right_of_le hstart
    · exact Nat.le_add_right_of_le hstart
  | skip s =>
    have hstart : s.start ≤ c.offset := h.start_le (by rw [hs]; rfl)
    rw [step_skip hs]
    unfold stepSkip
    dsimp only
    split
    · split
      · exact h.later 0
      · exact h.later _
    · exact Nat.le_add_right_of_le hstart
  | sectionEnd s =>
    rw [step_sectionEnd hs]
    unfold stepSectionEnd
    split
    · exact trivial
    · exact h.later 0

/-- A transition uses no more bytes than there are. -/
theorem used_step_le (d : Decoder) (c : Cursor) : (d.step c).used ≤ c.rest.length := by
  by_cases hskip : ∃ s, d.state = .skip s ∧ c.offset + c.rest.length < s.stop
  · obtain ⟨s, hs, hshort⟩ := hskip
    have htake : (c.rest.take (s.stop - c.offset)).length ≤ c.rest.length := by
      rw [List.length_take]
      exact Nat.min_le_right _ _
    rw [step_skip hs]
    unfold stepSkip
    dsimp only
    split
    · split
      · exact Nat.zero_le _
      · exact htake
    · exact htake
  · exact (step_append fun s hs => Nat.le_of_not_lt fun hshort => hskip ⟨s, hs, hshort⟩).1

theorem inOrder_run {d : Decoder} {c : Cursor} (h : d.state.InOrder c.offset) :
    (d.run 0 c).2.1.state.InOrder (c.offset + (d.run 0 c).2.2) := by
  have hnext := inOrder_step h
  cases hstep : d.step c with
  | ready _ d' n =>
    rw [hstep] at hnext
    have hrest := inOrder_run (c := c.drop n) hnext
    rw [run_shift_of_ready hstep]
    rw [Cursor.drop_offset, Nat.add_assoc] at hrest
    exact hrest
  | paused d' n =>
    rw [hstep] at hnext
    rw [run_of_paused hstep, Nat.zero_add]
    exact hnext
  | failed e d' n =>
    rw [hstep] at hnext
    rw [run_of_failed hstep, Nat.zero_add]
    exact hnext
termination_by measure d c
decreasing_by exact measure_lt hstep

/-- A run from `d` over `c` comes to `d'` with `c'` left. -/
inductive Visits : Decoder → Cursor → Decoder → Cursor → Prop
  | here (d : Decoder) (c : Cursor) : Visits d c d c
  | next {d d₁ d' : Decoder} {c c' : Cursor} {n : Nat} (h : d.step c = .ready () d₁ n)
      (hrest : Visits d₁ (c.drop n) d' c') : Visits d c d' c'

theorem Visits.inOrder (h : d.Visits c d' c') (hd : d.state.InOrder c.offset) :
    d'.state.InOrder c'.offset := by
  induction h with
  | here d c => exact hd
  | next hstep _ ih =>
    have hnext := inOrder_step hd
    rw [hstep] at hnext
    exact ih hnext

/-- What the next transition may rely on, and what it does not do. -/
structure Sound (d : Decoder) (c : Cursor) : Prop where
  /-- One entry less is to come behind the next one. -/
  remaining : ∀ s remaining entry, d.state = .entries s remaining entry → 1 ≤ remaining
  /-- A place in a section is counted from the start of the section. -/
  start : ∀ s, d.state.frame? = some s → s.start ≤ c.offset
  /-- The header is cut into two parts of four bytes. -/
  header : ∀ found n, Reader.bytes 8 c = .done found n → found.length = 8
  used : (d.step c).used ≤ c.rest.length
  parse : ∀ e d' n, d.step c = .failed e d' n → e.IsParseFailure

theorem sound_of_inOrder (h : d.state.InOrder c.offset) : d.Sound c where
  remaining s remaining entry hs := by
    rw [hs] at h
    exact h.1
  start s hs := h.start_le hs
  header found n hread := by
    unfold Reader.bytes at hread
    dsimp only at hread
    split at hread
    · next hlength =>
      cases hread
      exact hlength
    · cases hread
  used := used_step_le d c
  parse e d' n hstep := Error.isParseFailure (category_of_run (run_of_failed hstep 0))

theorem isParseFailure_of_finish {σ : Type} [Source σ] {s : σ} {e : Error}
    (h : d.finish s = .error e) : e.IsParseFailure := by
  unfold finish at h
  split at h
  · cases h
  · cases h
    exact Error.isParseFailure rfl

theorem isParseFailure_of_decodeModule {limits : DecoderLimits} {bytes : List UInt8} {e : Error}
    (h : decodeModule limits bytes = .error e) : e.IsParseFailure := by
  obtain ⟨⟨result, d, n⟩, hrun⟩ : ∃ r, (new limits).run 0 (Cursor.whole bytes) = r := ⟨_, rfl⟩
  cases result with
  | ok =>
    rw [decodeModule_of_run hrun, finishAt] at h
    split at h
    · cases h
    · cases h
      exact Error.isParseFailure rfl
  | error e' =>
    rw [decodeModule_of_run_error hrun] at h
    cases h
    exact Error.isParseFailure (category_of_run hrun)

end Decoder

namespace StreamingDecoder
variable {limits : DecoderLimits} {d : StreamingDecoder}

/-- A decoder that has been fed with some chunks, whether it has refused some of them or not. -/
inductive Reached (limits : DecoderLimits) : StreamingDecoder → Prop
  | new : Reached limits (new limits)
  | feed {d : StreamingDecoder} (h : Reached limits d) (chunk : List UInt8) :
      Reached limits (d.feed chunk).2

/-- The decoder stands in its buffer, and in no section that has not begun. -/
structure Standing (d : StreamingDecoder) : Prop where
  position_le : d.stream.position ≤ d.stream.buffer.length
  inOrder : d.decoder.state.InOrder (Source.ahead d.stream).offset

theorem isParseFailure_of_feed {chunk : List UInt8} {e : Error} (h : (d.feed chunk).1 = .error e) :
    e.IsParseFailure := by
  obtain ⟨d', n, status, -, hfeed, -⟩ | ⟨e', d', n, hrun, hfeed⟩ := feed_run d chunk
  · rw [hfeed] at h
    cases h
  · rw [hfeed] at h
    cases h
    exact Error.isParseFailure (Decoder.category_of_run hrun)

theorem Standing.ahead_push (h : d.Standing) (chunk : List UInt8) :
    d.decoder.state.InOrder (Source.ahead (d.stream.push chunk)).offset := h.inOrder

/-- What a run uses of the buffer leaves the decoder in it. -/
theorem Standing.consume (h : d.Standing) (chunk : List UInt8) {d' : Decoder} {n : Nat}
    {result : Except Error Unit}
    (hrun : d.decoder.run 0 (Source.ahead (d.stream.push chunk)) = (result, d', n)) :
    Standing ⟨Source.consume (d.stream.push chunk) n, d'⟩ where
  position_le := by
    have hle := (Decoder.run_append d.decoder (Source.ahead (d.stream.push chunk))).1
    rw [hrun] at hle
    change 0 + n ≤ (d.stream.push chunk).buffer.length
    rw [Nat.zero_add]
    exact hle
  inOrder := by
    have hrest := Decoder.inOrder_run (h.ahead_push chunk)
    rw [hrun] at hrest
    rw [ChunkStream.ahead_consume]
    exact hrest

theorem Reached.standing (h : Reached limits d) : d.Standing := by
  induction h with
  | new => exact ⟨Nat.le_refl 0, trivial⟩
  | @feed d _ chunk ih =>
    obtain ⟨d', n, status, hrun, hfeed, -⟩ | ⟨e, d', n, hrun, hfeed⟩ := feed_run d chunk
    · rw [hfeed]
      exact ih.consume chunk hrun
    · rw [hfeed]
      exact ih.consume chunk hrun

/-- Decoding, at once or chunk by chunk, fails as a parse error alone, and all its arithmetic is in
order: along every run, behind errors as well, in every field and in every number. -/
theorem reached_sound (limits : DecoderLimits) :
    (∀ bytes, (∀ e, decodeModule limits bytes = .error e → e.IsParseFailure) ∧
      ∀ d c, (Decoder.new limits).Visits (Cursor.whole bytes) d c → d.Sound c) ∧
    (∀ d, Reached limits d →
      d.stream.position ≤ d.stream.buffer.length ∧
      (∀ e, d.finish = .error e → e.IsParseFailure) ∧
      ∀ chunk, (∀ e, (d.feed chunk).1 = .error e → e.IsParseFailure) ∧
        ∀ d' c, d.decoder.Visits (Source.ahead (d.stream.push chunk)) d' c → d'.Sound c) ∧
    (∀ (f : ByteField) available, f.Bounded available) ∧
    ∀ bits bytes,
      Leb128.scanUnsigned bits (bytes.take (Leb128.maxLength bits)) =
        Leb128.scanUnsigned bits bytes ∧
      Leb128.scanSigned bits (bytes.take (Leb128.maxLength bits)) = Leb128.scanSigned bits bytes ∧
      ∀ i < Leb128.maxLength bits, 7 * i < bits := by
  refine ⟨?_, ?_, ByteField.bounded, ?_⟩
  · intro bytes
    refine ⟨fun e h => Decoder.isParseFailure_of_decodeModule h, ?_⟩
    intro d c hvisit
    exact Decoder.sound_of_inOrder (hvisit.inOrder trivial)
  · intro d hd
    have hstanding := hd.standing
    refine ⟨hstanding.position_le, fun e h => Decoder.isParseFailure_of_finish h, ?_⟩
    intro chunk
    refine ⟨fun e h => isParseFailure_of_feed h, ?_⟩
    intro d' c hvisit
    exact Decoder.sound_of_inOrder (hvisit.inOrder (hstanding.ahead_push chunk))
  · intro bits bytes
    exact ⟨Leb128.scanUnsigned_take bits bytes, Leb128.scanSigned_take bits bytes,
      fun i hi => Leb128.shift_lt hi⟩

end StreamingDecoder
end WasmStream
