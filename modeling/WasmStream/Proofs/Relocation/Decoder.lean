import WasmStream.Proofs.Relocation.Builders
import WasmStream.Proofs.Chunking

/-! Runs of the decoder at another place. Two runs over the same bytes, begun in states that differ in
where they stand alone, go the same steps: they stop in such states again, or fail with parse errors
of one code. A run compared with itself says that all its errors are parse errors. -/
namespace WasmStream
open Builder

namespace SectionFrame

/-- The same section, `k` bytes further back. -/
def moved (k : Nat) (s : SectionFrame) : SectionFrame := { s with start := s.start + k }

@[simp] theorem moved_id (k : Nat) (s : SectionFrame) : (s.moved k).id = s.id := rfl
@[simp] theorem moved_zero (s : SectionFrame) : s.moved 0 = s := rfl

@[simp] theorem stop_moved (k : Nat) (s : SectionFrame) : (s.moved k).stop = s.stop + k := by
  simp only [stop, moved]
  omega

theorem alike_mismatch (s s' : SectionFrame) (offset offset' : Nat) :
    (s.mismatch offset).Alike (s'.mismatch offset') := ⟨rfl, rfl, rfl⟩

end SectionFrame

namespace DecoderState

/-- The same progress, `k` bytes further back. -/
inductive Moved (k : Nat) : DecoderState → DecoderState → Prop
  | header : Moved k header header
  | sectionStart : Moved k sectionStart sectionStart
  | entryCount (s : SectionFrame) : Moved k (entryCount s) (entryCount (s.moved k))
  | entries (s : SectionFrame) (remaining : Nat) {entry entry' : EntryBuilder}
      (h : entry.Moved k entry') :
      Moved k (entries s remaining entry) (entries (s.moved k) remaining entry')
  | startFunction (s : SectionFrame) : Moved k (startFunction s) (startFunction (s.moved k))
  | dataCount (s : SectionFrame) : Moved k (dataCount s) (dataCount (s.moved k))
  | custom (s : SectionFrame) (entry : CustomBuilder) :
      Moved k (custom s entry) (custom (s.moved k) entry)
  | skip (s : SectionFrame) : Moved k (skip s) (skip (s.moved k))
  | sectionEnd (s : SectionFrame) : Moved k (sectionEnd s) (sectionEnd (s.moved k))

theorem moved_ofSection (k : Nat) (s : SectionFrame) :
    Moved k (ofSection s) (ofSection (s.moved k)) := by
  obtain ⟨id, start, size⟩ := s
  cases id with
  | custom => exact .custom _ {}
  | start => exact .startFunction _
  | dataCount => exact .dataCount _
  | element => exact .skip _
  | type | imports | function | table | memory | global | exports | code | data =>
    exact .entryCount _

theorem moved_zero (s : DecoderState) : Moved 0 s s := by
  cases s with
  | header => exact .header
  | sectionStart => exact .sectionStart
  | entryCount s => exact .entryCount s
  | entries s remaining entry =>
    have hentry : entry.Moved 0 entry := by
      cases entry with
      | code b => exact .code ⟨rfl, rfl, rfl, fun _ => rfl⟩
      | type | function | table | memory | imports | global | exports | data =>
        apply EntryBuilder.Moved.same
        intro b h
        cases h
    exact .entries s remaining hentry
  | startFunction s => exact .startFunction s
  | dataCount s => exact .dataCount s
  | custom s entry => exact .custom s entry
  | skip s => exact .skip s
  | sectionEnd s => exact .sectionEnd s

/-- A place between sections is such a place for both. -/
theorem Moved.sectionStart_iff {k : Nat} {s s' : DecoderState} (h : Moved k s s') :
    s = .sectionStart ↔ s' = .sectionStart := by
  cases h with
  | sectionStart => exact Iff.rfl
  | header | entryCount | entries | startFunction | dataCount | custom | skip | sectionEnd =>
    constructor
    · intro hs
      cases hs
    · intro hs
      cases hs

end DecoderState

namespace Decoder
variable {k : Nat} {d d' : Decoder} {s : SectionFrame}

/-- The same progress, `k` bytes further back. What the modules hold so far has no part in it. -/
structure Moved (k : Nat) (d d' : Decoder) : Prop where
  limits : d.limits = d'.limits
  state : d.state.Moved k d'.state

theorem moved_zero (d : Decoder) : Moved 0 d d := ⟨rfl, d.state.moved_zero⟩

theorem Moved.put {state state' : DecoderState} (h : Moved k d d') (hstate : state.Moved k state')
    (m m' : Module) :
    Moved k { d with state := state, module := m } { d' with state := state', module := m' } where
  limits := h.limits
  state := hstate

theorem Moved.goTo {state state' : DecoderState} (h : Moved k d d') (hstate : state.Moved k state') :
    Moved k (d.goTo state) (d'.goTo state') := h.put hstate d.module d'.module

theorem alike_headerError (found : List UInt8) : (headerError found).Alike (headerError found) := by
  unfold headerError
  by_cases h : found.take 4 = magic
  · rw [if_pos h]
    exact ⟨rfl, rfl, rfl⟩
  · rw [if_neg h]
    exact ⟨rfl, rfl, rfl⟩

theorem alike_stepHeader (h : Moved k d d') (c : Cursor) :
    (d.stepHeader c).Alike (Moved k) (d'.stepHeader (c.moved k)) := by
  have hread := Reader.alike_bytes (k := k) 8 c
  unfold stepHeader
  generalize Reader.bytes 8 c = o at hread ⊢
  generalize Reader.bytes 8 (c.moved k) = o' at hread ⊢
  cases hread with
  | done found n =>
    by_cases hheader : found = header
    · simp only [if_pos hheader]
      exact .ready () n (h.goTo .sectionStart)
    · simp only [if_neg hheader]
      exact .failed n (alike_headerError found) h
  | needMore => exact .paused 0 h
  | fail he => exact .failed 0 he h

theorem alike_headReader : Reader.Alike k SectionFrame.headReader SectionFrame.headReader :=
  Reader.alike_byte.bind fun _ => Reader.alike_u32.bind fun _ => Reader.alike_pure _

theorem alike_stepSectionStart (h : Moved k d d') (c : Cursor) :
    (d.stepSectionStart c).Alike (Moved k) (d'.stepSectionStart (c.moved k)) := by
  have hread := alike_headReader (k := k) c
  unfold stepSectionStart
  generalize SectionFrame.headReader c = o at hread ⊢
  generalize SectionFrame.headReader (c.moved k) = o' at hread ⊢
  cases hread with
  | done head n =>
    dsimp only
    cases SectionId.ofByte? head.1 with
    | some id =>
      have hframe : (⟨id, (c.moved k).offset + n, head.2⟩ : SectionFrame) =
          SectionFrame.moved k ⟨id, c.offset + n, head.2⟩ := by
        simp only [SectionFrame.moved, Cursor.moved_offset, Nat.add_right_comm]
      dsimp only
      rw [hframe]
      exact .ready () n (h.goTo (DecoderState.moved_ofSection k _))
    | none => exact .failed n ⟨rfl, rfl, rfl⟩ h
  | needMore => exact .paused 0 h
  | fail he => exact .failed 0 he h

/-- The end of the section is passed at both places or at none. -/
theorem stop_moved_lt {c : Cursor} {n : Nat} :
    (s.moved k).stop < (c.moved k).offset + n ↔ s.stop < c.offset + n := by
  rw [SectionFrame.stop_moved, Cursor.moved_offset]
  omega

theorem alike_stepEntryCount (h : Moved k d d') (c : Cursor) :
    (d.stepEntryCount s c).Alike (Moved k) (d'.stepEntryCount (s.moved k) (c.moved k)) := by
  have hread := Reader.alike_u32 (k := k) c
  unfold stepEntryCount
  generalize Reader.u32 c = o at hread ⊢
  generalize Reader.u32 (c.moved k) = o' at hread ⊢
  cases hread with
  | done count n =>
    dsimp only
    by_cases hpast : s.stop < c.offset + n
    · rw [if_pos hpast, if_pos (stop_moved_lt.mpr hpast)]
      exact .failed n (SectionFrame.alike_mismatch s _ _ _) h
    · rw [if_neg hpast, if_neg (not_congr stop_moved_lt |>.mpr hpast), SectionFrame.moved_id]
      cases hentry : EntryBuilder.ofSection? s.id with
      | some entry =>
        by_cases hcount : count = 0
        · simp only [if_pos hcount]
          exact .ready () n (h.goTo (.sectionEnd s))
        · simp only [if_neg hcount]
          exact .ready () n (h.goTo (.entries s _ (EntryBuilder.moved_ofSection hentry)))
      | none => exact .ready () n (h.goTo (.sectionEnd s))
  | needMore => exact .paused 0 h
  | fail he => exact .failed 0 he h

theorem alike_stepEntries {remaining : Nat} {entry entry' : EntryBuilder} (h : Moved k d d')
    (hentry : entry.Moved k entry') (c : Cursor) :
    (d.stepEntries s remaining entry c).Alike (Moved k)
      (d'.stepEntries (s.moved k) remaining entry' (c.moved k)) := by
  have hbuild := EntryBuilder.alike_builder (k := k) d.limits entry entry' c hentry
  have hlimits : EntryBuilder.builder d'.limits = EntryBuilder.builder d.limits := by rw [h.limits]
  unfold stepEntries
  rw [hlimits]
  generalize EntryBuilder.builder d.limits entry c = o at hbuild ⊢
  generalize EntryBuilder.builder d.limits entry' (c.moved k) = o' at hbuild ⊢
  cases hbuild with
  | ready e n hentry =>
    dsimp only
    by_cases hpast : s.stop < c.offset + n
    · rw [if_pos hpast, if_pos (stop_moved_lt.mpr hpast)]
      exact .failed n (SectionFrame.alike_mismatch s _ _ _)
        (h.put (.entries s remaining hentry) _ _)
    · rw [if_neg hpast, if_neg (not_congr stop_moved_lt |>.mpr hpast)]
      by_cases hlast : remaining ≤ 1
      · rw [if_pos hlast, if_pos hlast]
        exact .ready () n (h.put (.sectionEnd s) _ _)
      · rw [if_neg hlast, if_neg hlast]
        exact .ready () n (h.put (.entries s (remaining - 1) hentry) _ _)
  | paused n hentry =>
    dsimp only
    by_cases hpast : s.stop < c.offset + n
    · rw [if_pos hpast, if_pos (stop_moved_lt.mpr hpast)]
      exact .failed n (SectionFrame.alike_mismatch s _ _ _)
        (h.put (.entries s remaining hentry) _ _)
    · rw [if_neg hpast, if_neg (not_congr stop_moved_lt |>.mpr hpast)]
      exact .paused n (h.put (.entries s remaining hentry) _ _)
  | failed n he hentry => exact .failed n he (h.put (.entries s remaining hentry) _ _)

theorem alike_stepNumber (entry : UInt32 → Entry) (h : Moved k d d') (c : Cursor) :
    (d.stepNumber s entry c).Alike (Moved k) (d'.stepNumber (s.moved k) entry (c.moved k)) := by
  have hread := Reader.alike_u32 (k := k) c
  unfold stepNumber
  generalize Reader.u32 c = o at hread ⊢
  generalize Reader.u32 (c.moved k) = o' at hread ⊢
  cases hread with
  | done value n => exact .ready () n (h.put (.sectionEnd s) _ _)
  | needMore => exact .paused 0 h
  | fail he => exact .failed 0 he h

theorem alike_stepCustom (entry : CustomBuilder) (h : Moved k d d') (c : Cursor) :
    (d.stepCustom s entry c).Alike (Moved k) (d'.stepCustom (s.moved k) entry (c.moved k)) := by
  have hbuild := CustomBuilder.alike_harvest (k := k) d.limits s.stop entry entry c rfl
  have hlimits : CustomBuilder.builder d'.limits = CustomBuilder.builder d.limits := by rw [h.limits]
  unfold stepCustom
  rw [hlimits, SectionFrame.stop_moved]
  generalize harvest (CustomBuilder.builder d.limits s.stop) CustomBuilder.freeze {} entry c = o
    at hbuild ⊢
  generalize harvest (CustomBuilder.builder d.limits (s.stop + k)) CustomBuilder.freeze {} entry
    (c.moved k) = o' at hbuild ⊢
  cases hbuild with
  | ready e n _ => exact .ready () n (h.put (.sectionEnd s) _ _)
  | @paused t _ n ht =>
    subst ht
    exact .paused n (h.goTo (.custom s t))
  | @failed _ _ t _ n he ht =>
    subst ht
    exact .failed n he (h.goTo (.custom s t))

theorem alike_stepSkip (h : Moved k d d') (c : Cursor) :
    (d.stepSkip s c).Alike (Moved k) (d'.stepSkip (s.moved k) (c.moved k)) := by
  have hleft : (s.moved k).stop - (c.moved k).offset = s.stop - c.offset := by
    rw [SectionFrame.stop_moved, Cursor.moved_offset, Nat.add_sub_add_right]
  have hshort (n : Nat) : (c.moved k).offset + n < (s.moved k).stop ↔ c.offset + n < s.stop := by
    rw [SectionFrame.stop_moved, Cursor.moved_offset]
    omega
  unfold stepSkip
  simp only [hleft, hshort, Cursor.moved_rest]
  generalize (c.rest.take (s.stop - c.offset)).length = n
  by_cases hn : c.offset + n < s.stop
  · rw [if_pos hn, if_pos hn]
    by_cases hzero : n = 0
    · rw [if_pos hzero, if_pos hzero]
      exact .paused 0 h
    · rw [if_neg hzero, if_neg hzero]
      exact .ready () n h
  · rw [if_neg hn, if_neg hn]
    exact .ready () n (h.goTo (.sectionEnd s))

theorem alike_stepSectionEnd (h : Moved k d d') (c : Cursor) :
    (d.stepSectionEnd s c).Alike (Moved k) (d'.stepSectionEnd (s.moved k) (c.moved k)) := by
  have hend : (c.moved k).offset = (s.moved k).stop ↔ c.offset = s.stop := by
    rw [SectionFrame.stop_moved, Cursor.moved_offset, Nat.add_right_cancel_iff]
  unfold stepSectionEnd
  simp only [hend]
  by_cases hc : c.offset = s.stop
  · rw [if_pos hc, if_pos hc]
    exact .ready () 0 (h.goTo .sectionStart)
  · rw [if_neg hc, if_neg hc]
    exact .failed 0 (SectionFrame.alike_mismatch s _ c.offset _) h

theorem alike_step (h : Moved k d d') (c : Cursor) :
    (d.step c).Alike (Moved k) (d'.step (c.moved k)) := by
  have hstate := h.state
  generalize hs : d.state = state at hstate
  generalize hs' : d'.state = state' at hstate
  cases hstate with
  | header =>
    rw [step_header hs, step_header hs']
    exact alike_stepHeader h c
  | sectionStart =>
    rw [step_sectionStart hs, step_sectionStart hs']
    exact alike_stepSectionStart h c
  | entryCount s =>
    rw [step_entryCount hs, step_entryCount hs']
    exact alike_stepEntryCount h c
  | entries s remaining hentry =>
    rw [step_entries hs, step_entries hs']
    exact alike_stepEntries h hentry c
  | startFunction s =>
    rw [step_startFunction hs, step_startFunction hs']
    exact alike_stepNumber .start h c
  | dataCount s =>
    rw [step_dataCount hs, step_dataCount hs']
    exact alike_stepNumber .dataCount h c
  | custom s entry =>
    rw [step_custom hs, step_custom hs']
    exact alike_stepCustom entry h c
  | skip s =>
    rw [step_skip hs, step_skip hs']
    exact alike_stepSkip h c
  | sectionEnd s =>
    rw [step_sectionEnd hs, step_sectionEnd hs']
    exact alike_stepSectionEnd h c

/-- Two runs that come to the same end behind the same number of bytes. -/
inductive RunAlike (k : Nat) :
    Except Error Unit × Decoder × Nat → Except Error Unit × Decoder × Nat → Prop
  | ok (n : Nat) {d d' : Decoder} (h : Moved k d d') : RunAlike k (.ok (), d, n) (.ok (), d', n)
  | error (n : Nat) {e e' : Error} {d d' : Decoder} (he : e.Alike e') (h : Moved k d d') :
      RunAlike k (.error e, d, n) (.error e', d', n)

theorem RunAlike.shift {r r' : Except Error Unit × Decoder × Nat} (h : RunAlike k r r') (n : Nat) :
    RunAlike k (shift n r) (shift n r') := by
  cases h with
  | ok m h => exact .ok (n + m) h
  | error m he h => exact .error (n + m) he h

theorem alike_run {d d' : Decoder} (h : Moved k d d') (c : Cursor) :
    RunAlike k (d.run 0 c) (d'.run 0 (c.moved k)) := by
  have hsteps := alike_step h c
  generalize hstep : d.step c = o at hsteps
  generalize hstep' : d'.step (c.moved k) = o' at hsteps
  cases hsteps with
  | ready _ n hnext =>
    have hrest := alike_run hnext (c.drop n)
    rw [run_shift_of_ready hstep, run_shift_of_ready hstep', Cursor.drop_moved]
    exact hrest.shift n
  | paused n hnext =>
    rw [run_of_paused hstep, run_of_paused hstep']
    exact .ok (0 + n) hnext
  | failed n he hnext =>
    rw [run_of_failed hstep, run_of_failed hstep']
    exact .error (0 + n) he hnext
termination_by measure d c
decreasing_by exact measure_lt hstep

theorem Moved.endsAt_eq (h : Moved k d d') (c : Cursor) : d.endsAt c = d'.endsAt (c.moved k) := by
  have hboundary : d.isAtBoundary = d'.isAtBoundary := by
    rw [Bool.eq_iff_iff]
    simp only [isAtBoundary, beq_iff_eq, h.state.sectionStart_iff]
  simp only [endsAt, hboundary, Cursor.moved_rest]

/-- Wherever it happens, a failing run fails with a parse error. -/
theorem category_of_run {c : Cursor} {used n : Nat} {e : Error} (h : d.run used c = (.error e, d', n)) :
    e.category = .parse := by
  have hself := alike_run (moved_zero d) c
  rw [run_used] at h
  obtain ⟨⟨result, d₁, m⟩, hrun⟩ : ∃ r, d.run 0 c = r := ⟨_, rfl⟩
  rw [Cursor.moved_zero, hrun] at hself
  rw [hrun] at h
  cases h
  cases hself with
  | error _ he _ => exact he.1

end Decoder
end WasmStream
