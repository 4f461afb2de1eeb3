import WasmStream.Proofs.EntryResumption
import WasmStream.Decoder.Streaming

/-! A run of the decoder, cut and taken up again. What a run over a part of the bytes leaves behind is
what a run over all of them goes through, so that the rest of the bytes brings both to the same end.
There is one exception: an entry that is not finished but has used bytes past the end of its section
fails where the bytes stop, and may fail otherwise where they go on. -/
namespace WasmStream
namespace Decoder
open Builder

/-- The decoder waits inside an entry, behind the end of the section that the entry belongs to; `e`
says so. -/
def PastEnd (d : Decoder) (c : Cursor) (e : Error) : Prop :=
  ∃ s remaining entry, d.state = .entries s remaining entry ∧
    EntryBuilder.builder d.limits entry c = .paused entry 0 ∧
    s.stop < c.offset ∧ e = s.mismatch c.offset

theorem step_header {d : Decoder} (hs : d.state = .header) (c : Cursor) :
    d.step c = d.stepHeader c := by simp only [step, hs]
theorem step_sectionStart {d : Decoder} (hs : d.state = .sectionStart) (c : Cursor) :
    d.step c = d.stepSectionStart c := by simp only [step, hs]
theorem step_entryCount {d : Decoder} {s : SectionFrame} (hs : d.state = .entryCount s) (c : Cursor) :
    d.step c = d.stepEntryCount s c := by simp only [step, hs]
theorem step_entries {d : Decoder} {s : SectionFrame} {k : Nat} {entry : EntryBuilder}
    (hs : d.state = .entries s k entry) (c : Cursor) : d.step c = d.stepEntries s k entry c := by
  simp only [step, hs]
theorem step_startFunction {d : Decoder} {s : SectionFrame} (hs : d.state = .startFunction s)
    (c : Cursor) : d.step c = d.stepNumber s .start c := by simp only [step, hs]
theorem step_dataCount {d : Decoder} {s : SectionFrame} (hs : d.state = .dataCount s) (c : Cursor) :
    d.step c = d.stepNumber s .dataCount c := by simp only [step, hs]
theorem step_custom {d : Decoder} {s : SectionFrame} {entry : CustomBuilder}
    (hs : d.state = .custom s entry) (c : Cursor) : d.step c = d.stepCustom s entry c := by
  simp only [step, hs]
theorem step_skip {d : Decoder} {s : SectionFrame} (hs : d.state = .skip s) (c : Cursor) :
    d.step c = d.stepSkip s c := by simp only [step, hs]
theorem step_sectionEnd {d : Decoder} {s : SectionFrame} (hs : d.state = .sectionEnd s) (c : Cursor) :
    d.step c = d.stepSectionEnd s c := by simp only [step, hs]

/-- What a transition of `d` over `c`, with the given end, lets one say of a transition over more
bytes. -/
def Continues (d : Decoder) (c : Cursor) (more : List UInt8) : Pass Decoder Unit → Prop
  | .ready () d' n => d.step (c.append more) = .ready () d' n
  | .paused d' n => d.step (c.append more) = (d'.step ((c.drop n).append more)).after n
  | .failed e d' n => d.step (c.append more) = .failed e d' n ∨
      (d'.PastEnd (c.drop n) e ∧ ∃ e' d'' n', d.step (c.append more) = .failed e' d'' n')

/-- Nothing has changed and nothing has been used. -/
theorem continues_paused_zero (d : Decoder) (c : Cursor) (more : List UInt8) :
    d.Continues c more (.paused d 0) := by
  simp only [Continues, Cursor.drop_zero, Pass.after_zero]

/-- A transition that hangs on one reader, and stops only where the reader does. -/
theorem continues_of_reader {α : Type} {d : Decoder} {r : Reader α} (hr : r.Stable)
    (answer : Nat → α → Nat → Pass Decoder Unit)
    (hstep : ∀ c, d.step c = match r c with
      | .done a n => answer c.offset a n
      | .needMore => .paused d 0
      | .fail e => .failed e d 0)
    (hanswer : ∀ o a n, (∃ d', answer o a n = .ready () d' n) ∨
      ∃ e d', answer o a n = .failed e d' n) (c : Cursor) :
    (d.step c).used ≤ c.rest.length ∧ ∀ more, d.Continues c more (d.step c) := by
  cases hc : r c with
  | done a n =>
    obtain ⟨hn, hmore⟩ := hr.done hc
    have hnow : d.step c = answer c.offset a n := by rw [hstep, hc]
    have hlater (more) : d.step (c.append more) = answer c.offset a n := by
      rw [hstep, hmore more, Cursor.append_offset]
    rcases hanswer c.offset a n with ⟨d', h⟩ | ⟨e, d', h⟩
    · rw [hnow, h]
      exact ⟨hn, fun more => (hlater more).trans h⟩
    · rw [hnow, h]
      exact ⟨hn, fun more => .inl ((hlater more).trans h)⟩
  | needMore =>
    have hnow : d.step c = .paused d 0 := by rw [hstep, hc]
    rw [hnow]
    exact ⟨Nat.zero_le _, continues_paused_zero d c⟩
  | fail e =>
    have hnow : d.step c = .failed e d 0 := by rw [hstep, hc]
    have hlater (more) : d.step (c.append more) = .failed e d 0 := by
      rw [hstep, hr.fail hc more]
    rw [hnow]
    exact ⟨Nat.zero_le _, fun more => .inl (hlater more)⟩

section Entries
variable {d : Decoder} {s : SectionFrame} {remaining n : Nat} {entry entry' : EntryBuilder}
  {c c' : Cursor}

/-- The builder goes on behind `n` bytes, and so does the transition. -/
theorem stepEntries_after
    (h : EntryBuilder.builder d.limits entry c = (EntryBuilder.builder d.limits entry' c').after n)
    (hoffset : c'.offset = c.offset + n) :
    d.stepEntries s remaining entry c =
      ((d.goTo (.entries s remaining entry')).stepEntries s remaining entry' c').after n := by
  cases hb : EntryBuilder.builder d.limits entry' c' with
  | ready e t m =>
    rw [hb, Pass.after_ready] at h
    simp only [stepEntries, goTo, h, hb, hoffset, Nat.add_assoc]
    repeat' split
    all_goals rfl
  | paused t m =>
    rw [hb, Pass.after_paused] at h
    simp only [stepEntries, goTo, h, hb, hoffset, Nat.add_assoc]
    split <;> rfl
  | failed e t m =>
    rw [hb, Pass.after_failed] at h
    simp only [stepEntries, goTo, h, hb, Pass.after_failed]

/-- An entry that has used bytes past the end of its section fails, one way or another. -/
theorem stepEntries_past
    (h : s.stop < c.offset + (EntryBuilder.builder d.limits entry c).used) :
    ∃ e d' k, d.stepEntries s remaining entry c = .failed e d' k := by
  cases hb : EntryBuilder.builder d.limits entry c with
  | ready e t m =>
    rw [hb] at h
    replace h : s.stop < c.offset + m := h
    simp only [stepEntries, hb, if_pos h]
    exact ⟨_, _, _, rfl⟩
  | paused t m =>
    rw [hb] at h
    replace h : s.stop < c.offset + m := h
    simp only [stepEntries, hb, if_pos h]
    exact ⟨_, _, _, rfl⟩
  | failed e t m =>
    simp only [stepEntries, hb]
    exact ⟨_, _, _, rfl⟩

/-- A builder that has paused is paused at once where the bytes have run out. -/
theorem paused_again (h : EntryBuilder.builder d.limits entry c = .paused entry' n) :
    EntryBuilder.builder d.limits entry' (c.drop n) = .paused entry' 0 := by
  have hmore := (EntryBuilder.resumable_builder d.limits entry c).2 []
  rw [Cursor.append_nil, h, resume_paused, Cursor.append_nil] at hmore
  cases hb : EntryBuilder.builder d.limits entry' (c.drop n) with
  | ready e t m => rw [hb] at hmore; cases hmore
  | paused t m =>
    rw [hb, Pass.after_paused] at hmore
    obtain ⟨rfl, hm⟩ := Pass.paused.inj hmore
    rw [show m = 0 by omega]
  | failed e t m => rw [hb] at hmore; cases hmore

theorem continues_entries (hs : d.state = .entries s remaining entry) (c : Cursor) :
    (d.step c).used ≤ c.rest.length ∧ ∀ more, d.Continues c more (d.step c) := by
  obtain ⟨hle, hmore⟩ := EntryBuilder.resumable_builder d.limits entry c
  rw [step_entries hs]
  cases hc : EntryBuilder.builder d.limits entry c with
  | ready e t n =>
    rw [hc] at hle hmore
    have hlater (more) : d.step (c.append more) = d.stepEntries s remaining entry c := by
      simp only [step_entries hs, stepEntries, hmore more, hc, resume_ready, Cursor.append_offset]
      rfl
    simp only [stepEntries, hc] at hlater ⊢
    split
    · next hpast => exact ⟨hle, fun more => .inl ((hlater more).trans (if_pos hpast))⟩
    · next hwithin =>
      simp only [if_neg hwithin] at hlater
      split
      · next hlast => exact ⟨hle, fun more => (hlater more).trans (if_pos hlast)⟩
      · next hlast => exact ⟨hle, fun more => (hlater more).trans (if_neg hlast)⟩
  | paused t n =>
    rw [hc] at hle hmore
    simp only [stepEntries, hc]
    split
    · next hpast =>
      refine ⟨hle, fun more => .inr ⟨⟨s, remaining, t, rfl, paused_again hc, hpast, rfl⟩, ?_⟩⟩
      rw [step_entries hs]
      refine stepEntries_past ?_
      rw [hmore more, resume_paused, Pass.used_after, Cursor.append_offset]
      omega
    · refine ⟨hle, fun more => ?_⟩
      change d.step (c.append more) =
        ((d.goTo (.entries s remaining t)).step ((c.drop n).append more)).after n
      rw [step_entries hs, step_entries (d := d.goTo (.entries s remaining t)) rfl]
      exact stepEntries_after (hmore more) rfl
  | failed e t n =>
    rw [hc] at hle hmore
    simp only [stepEntries, hc]
    refine ⟨hle, fun more => .inl ?_⟩
    simp only [step_entries hs, stepEntries, hmore more, resume_failed]

end Entries

theorem stable_headReader : SectionFrame.headReader.Stable :=
  Reader.stable_byte.bind fun _ => Reader.stable_u32.bind fun _ => Reader.stable_pure _

theorem continues_number {d : Decoder} {s : SectionFrame} {entry : UInt32 → Entry}
    (hs : ∀ c, d.step c = d.stepNumber s entry c) (c : Cursor) :
    (d.step c).used ≤ c.rest.length ∧ ∀ more, d.Continues c more (d.step c) := by
  refine continues_of_reader Reader.stable_u32 (fun _ value n =>
    .ready () { d with state := .sectionEnd s, module := d.module.add (entry value) } n)
    (fun c => ?_) (fun o value n => .inl ⟨_, rfl⟩) c
  rw [hs, stepNumber]
  cases Reader.u32 c <;> rfl

theorem stepCustom_after {d : Decoder} {s : SectionFrame} {entry t : CustomBuilder} {c c' : Cursor}
    {n : Nat}
    (h : Builder.harvest (CustomBuilder.builder d.limits s.stop) CustomBuilder.freeze {} entry c =
      (Builder.harvest (CustomBuilder.builder d.limits s.stop) CustomBuilder.freeze {} t c').after n) :
    d.stepCustom s entry c = ((d.goTo (.custom s t)).stepCustom s t c').after n := by
  simp only [stepCustom, goTo, h]
  cases Builder.harvest (CustomBuilder.builder d.limits s.stop) CustomBuilder.freeze {} t c' <;> rfl

theorem continues_custom {d : Decoder} {s : SectionFrame} {entry : CustomBuilder}
    (hs : d.state = .custom s entry) (c : Cursor) :
    (d.step c).used ≤ c.rest.length ∧ ∀ more, d.Continues c more (d.step c) := by
  obtain ⟨hle, hmore⟩ :=
    ((CustomBuilder.resumable_builder d.limits s.stop).harvest CustomBuilder.freeze {}) entry c
  rw [step_custom hs]
  cases hc : Builder.harvest (CustomBuilder.builder d.limits s.stop) CustomBuilder.freeze {}
      entry c with
  | ready e t n =>
    rw [hc] at hle hmore
    simp only [stepCustom, hc]
    refine ⟨hle, fun more => ?_⟩
    simp only [Continues, step_custom hs, stepCustom, hmore more, resume_ready]
  | paused t n =>
    rw [hc] at hle hmore
    simp only [stepCustom, hc]
    refine ⟨hle, fun more => ?_⟩
    change d.step (c.append more) =
      ((d.goTo (.custom s t)).step ((c.drop n).append more)).after n
    rw [step_custom hs, step_custom (d := d.goTo (.custom s t)) rfl]
    exact stepCustom_after (hmore more)
  | failed e t n =>
    rw [hc] at hle hmore
    simp only [stepCustom, hc]
    refine ⟨hle, fun more => .inl ?_⟩
    simp only [step_custom hs, stepCustom, hmore more, resume_failed]

theorem stepSkip_long {d : Decoder} {s : SectionFrame} {c : Cursor}
    (h : s.stop ≤ c.offset + c.rest.length) :
    d.stepSkip s c = .ready () (d.goTo (.sectionEnd s)) (s.stop - c.offset) := by
  have htake : (c.rest.take (s.stop - c.offset)).length = s.stop - c.offset := by
    rw [List.length_take]
    omega
  have hend : ¬c.offset + (s.stop - c.offset) < s.stop := by omega
  simp only [stepSkip, htake, if_neg hend]

/-- Where the id and the size of a section lead. -/
def afterHead (d : Decoder) (offset : Nat) (head : UInt8 × UInt32) (n : Nat) : Pass Decoder Unit :=
  match SectionId.ofByte? head.1 with
  | some id => .ready () (d.goTo (.ofSection ⟨id, offset + n, head.2⟩)) n
  | none => .failed (.unknownSection head.1 offset) d n

theorem continues_sectionStart {d : Decoder} (hs : d.state = .sectionStart) (c : Cursor) :
    (d.step c).used ≤ c.rest.length ∧ ∀ more, d.Continues c more (d.step c) := by
  refine continues_of_reader stable_headReader d.afterHead (fun c => ?_) (fun o head n => ?_) c
  · rw [step_sectionStart hs, stepSectionStart]
    cases SectionFrame.headReader c <;> rfl
  · unfold afterHead
    cases SectionId.ofByte? head.1 with
    | some id => exact .inl ⟨_, rfl⟩
    | none => exact .inr ⟨_, _, rfl⟩

/-- Where the number of entries leads. -/
def afterCount (d : Decoder) (s : SectionFrame) (offset : Nat) (count : UInt32) (n : Nat) :
    Pass Decoder Unit :=
  if s.stop < offset + n then .failed (s.mismatch (offset + n)) d n
  else match EntryBuilder.ofSection? s.id with
    | some entry =>
      if count = 0 then .ready () (d.goTo (.sectionEnd s)) n
      else .ready () (d.goTo (.entries s count.toNat entry)) n
    | none => .ready () (d.goTo (.sectionEnd s)) n

theorem continues_entryCount {d : Decoder} {s : SectionFrame} (hs : d.state = .entryCount s)
    (c : Cursor) :
    (d.step c).used ≤ c.rest.length ∧ ∀ more, d.Continues c more (d.step c) := by
  refine continues_of_reader Reader.stable_u32 (d.afterCount s) (fun c => ?_) (fun o count n => ?_) c
  · rw [step_entryCount hs, stepEntryCount]
    cases Reader.u32 c <;> rfl
  · unfold afterCount
    repeat' split
    · exact .inr ⟨_, _, rfl⟩
    · exact .inl ⟨_, rfl⟩
    · exact .inl ⟨_, rfl⟩
    · exact .inl ⟨_, rfl⟩

/-- Every transition goes on as if it had not been cut, but for one that passes over a piece of a
section that is not interpreted. -/
theorem step_append {d : Decoder} {c : Cursor}
    (hskip : ∀ s, d.state = .skip s → s.stop ≤ c.offset + c.rest.length) :
    (d.step c).used ≤ c.rest.length ∧ ∀ more, d.Continues c more (d.step c) := by
  cases hs : d.state with
  | header =>
    refine continues_of_reader (Reader.stable_bytes 8)
      (fun _ found n => if found = header then .ready () (d.goTo .sectionStart) n
        else .failed (headerError found) d n) (fun c => ?_) (fun o found n => ?_) c
    · rw [step_header hs, stepHeader]
      cases Reader.bytes 8 c <;> rfl
    · split
      · exact .inl ⟨_, rfl⟩
      · exact .inr ⟨_, _, rfl⟩
  | sectionStart => exact continues_sectionStart hs c
  | entryCount s => exact continues_entryCount hs c
  | entries s remaining entry => exact continues_entries hs c
  | startFunction s => exact continues_number (step_startFunction hs) c
  | dataCount s => exact continues_number (step_dataCount hs) c
  | custom s entry => exact continues_custom hs c
  | skip s =>
    have hlen := hskip s hs
    rw [step_skip hs, stepSkip_long hlen]
    refine ⟨by simp only [Pass.used]; omega, fun more => ?_⟩
    simp only [Continues]
    rw [step_skip hs, stepSkip_long (by simp; omega), Cursor.append_offset]
  | sectionEnd s =>
    rw [step_sectionEnd hs]
    simp only [stepSectionEnd]
    split
    · next hend =>
      refine ⟨Nat.zero_le _, fun more => ?_⟩
      simp only [Continues, step_sectionEnd hs, stepSectionEnd, Cursor.append_offset]
      exact if_pos hend
    · next hend =>
      refine ⟨Nat.zero_le _, fun more => .inl ?_⟩
      simp only [step_sectionEnd hs, stepSectionEnd, Cursor.append_offset]
      exact if_neg hend

end Decoder
end WasmStream
