import WasmStream.Proofs.Composition
import WasmStream.Proofs.Restriction.Builders

/-! Runs of the decoder under tighter limits. Such a run goes the steps that it goes under wider ones and
comes to the same module, or it stops where a limit is exceeded. -/
namespace WasmStream
open Builder

namespace Decoder
variable {more : DecoderLimits} {d : Decoder}

/-- The same progress under other limits. -/
def withLimits (d : Decoder) (more : DecoderLimits) : Decoder := { d with limits := more }

/-- The pass goes as it does under other limits, unless a limit is exceeded. -/
def StepsAlong (more : DecoderLimits) (p p' : Pass Decoder Unit) : Prop :=
  (p.mapState (·.withLimits more)).Stricter p'

theorem stepsAlong_entries (h : d.limits ≤ more) (s : SectionFrame) (remaining : Nat)
    (entry : EntryBuilder) (c : Cursor) :
    StepsAlong more (d.stepEntries s remaining entry c)
      ((d.withLimits more).stepEntries s remaining entry c) := by
  have hbuild := EntryBuilder.stricter_builder h entry c
  have hlimits : (d.withLimits more).limits = more := rfl
  unfold stepEntries
  rw [hlimits]
  generalize EntryBuilder.builder d.limits entry c = o at hbuild ⊢
  obtain rfl | ⟨e, t, n, rfl, he⟩ := hbuild
  · left
    cases EntryBuilder.builder more entry c with
    | ready e entry n =>
      dsimp only
      split
      · rfl
      · split <;> rfl
    | paused entry n =>
      dsimp only
      split <;> rfl
    | failed e entry n => rfl
  · exact .inr ⟨e, _, n, rfl, he⟩

theorem stepsAlong_custom (h : d.limits ≤ more) (s : SectionFrame) (entry : CustomBuilder)
    (c : Cursor) :
    StepsAlong more (d.stepCustom s entry c) ((d.withLimits more).stepCustom s entry c) := by
  have hbuild := (CustomBuilder.stricter_builder h s.stop).harvest CustomBuilder.freeze {} entry c
  have hlimits : (d.withLimits more).limits = more := rfl
  unfold stepCustom
  rw [hlimits]
  generalize harvest (CustomBuilder.builder d.limits s.stop) CustomBuilder.freeze {} entry c = o
    at hbuild ⊢
  obtain rfl | ⟨e, t, n, rfl, he⟩ := hbuild
  · left
    cases harvest (CustomBuilder.builder more s.stop) CustomBuilder.freeze {} entry c <;> rfl
  · exact .inr ⟨e, _, n, rfl, he⟩

/-- Only entries and custom sections are limited. -/
theorem stepsAlong_step (h : d.limits ≤ more) (c : Cursor) :
    StepsAlong more (d.step c) ((d.withLimits more).step c) := by
  cases hs : d.state with
  | header =>
    left
    rw [step_header hs, step_header (d := d.withLimits more) hs]
    unfold stepHeader
    cases Reader.bytes 8 c with
    | done found n => dsimp only; split <;> rfl
    | needMore => rfl
    | fail e => rfl
  | sectionStart =>
    left
    rw [step_sectionStart hs, step_sectionStart (d := d.withLimits more) hs]
    unfold stepSectionStart
    cases SectionFrame.headReader c with
    | done head n => dsimp only; split <;> rfl
    | needMore => rfl
    | fail e => rfl
  | entryCount s =>
    left
    rw [step_entryCount hs, step_entryCount (d := d.withLimits more) hs]
    unfold stepEntryCount
    cases Reader.u32 c with
    | done count n =>
      dsimp only
      split
      · rfl
      · split
        · split <;> rfl
        · rfl
    | needMore => rfl
    | fail e => rfl
  | entries s remaining entry =>
    rw [step_entries hs, step_entries (d := d.withLimits more) hs]
    exact stepsAlong_entries h s remaining entry c
  | startFunction s =>
    left
    rw [step_startFunction hs, step_startFunction (d := d.withLimits more) hs]
    unfold stepNumber
    cases Reader.u32 c <;> rfl
  | dataCount s =>
    left
    rw [step_dataCount hs, step_dataCount (d := d.withLimits more) hs]
    unfold stepNumber
    cases Reader.u32 c <;> rfl
  | custom s entry =>
    rw [step_custom hs, step_custom (d := d.withLimits more) hs]
    exact stepsAlong_custom h s entry c
  | skip s =>
    left
    rw [step_skip hs, step_skip (d := d.withLimits more) hs]
    unfold stepSkip
    dsimp only
    split
    · split <;> rfl
    · rfl
  | sectionEnd s =>
    left
    rw [step_sectionEnd hs, step_sectionEnd (d := d.withLimits more) hs]
    unfold stepSectionEnd
    split <;> rfl

/-- A run under tighter limits goes along with one under wider limits, unless it stops at a limit. -/
theorem run_withLimits {d : Decoder} (h : d.limits ≤ more) (c : Cursor) :
    (d.withLimits more).run 0 c =
        ((d.run 0 c).1, (d.run 0 c).2.1.withLimits more, (d.run 0 c).2.2) ∨
      ∃ e, (d.run 0 c).1 = .error e ∧ e.IsLimit := by
  obtain hsame | ⟨e, t, n, hfailed, he⟩ := stepsAlong_step h c
  · cases hstep : d.step c with
    | ready _ d' n =>
      rw [hstep] at hsame
      have hlimits := limits_step d c
      rw [hstep] at hlimits
      have hnext : d'.limits ≤ more := by
        rw [show d'.limits = d.limits from hlimits]
        exact h
      rw [run_shift_of_ready hstep, run_shift_of_ready hsame.symm]
      obtain hrest | hlimit := run_withLimits hnext (c.drop n)
      · left
        rw [hrest]
        rfl
      · exact .inr hlimit
    | paused d' n =>
      rw [hstep] at hsame
      rw [run_of_paused hstep, run_of_paused hsame.symm]
      exact .inl rfl
    | failed e d' n =>
      rw [hstep] at hsame
      rw [run_of_failed hstep, run_of_failed hsame.symm]
      exact .inl rfl
  · cases hstep : d.step c with
    | ready _ d' n => rw [hstep] at hfailed; cases hfailed
    | paused d' n => rw [hstep] at hfailed; cases hfailed
    | failed e' d' n =>
      rw [hstep] at hfailed
      cases hfailed
      rw [run_of_failed hstep]
      exact .inr ⟨e, rfl, he⟩
termination_by measure d c
decreasing_by exact measure_lt hstep

end Decoder

/-- Decoding under tighter limits comes to what it comes to under wider ones, or to a limit. -/
theorem stricter_decodeModule {limits more : DecoderLimits} (h : limits ≤ more)
    (bytes : List UInt8) : StricterResult (decodeModule limits bytes) (decodeModule more bytes) := by
  obtain ⟨⟨result, d, n⟩, hrun⟩ :
      ∃ r, (Decoder.new limits).run 0 (Cursor.whole bytes) = r := ⟨_, rfl⟩
  have hnew : (Decoder.new limits).withLimits more = Decoder.new more := rfl
  have halong := Decoder.run_withLimits (d := Decoder.new limits) h (Cursor.whole bytes)
  rw [hnew, hrun] at halong
  obtain hsame | ⟨e, hfailed, he⟩ := halong
  · left
    cases result with
    | ok =>
      rw [decodeModule_of_run hrun, decodeModule_of_run hsame]
      rfl
    | error e => rw [decodeModule_of_run_error hrun, decodeModule_of_run_error hsame]
  · right
    change result = .error e at hfailed
    rw [hfailed] at hrun
    exact ⟨e, decodeModule_of_run_error hrun, he⟩

end WasmStream
