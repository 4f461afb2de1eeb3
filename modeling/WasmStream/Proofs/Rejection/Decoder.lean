import WasmStream.Proofs.Rejection.Builders
import WasmStream.Proofs.Chunking

/-! What becomes of a decoder that has refused a chunk. It should come to no module any more, whatever
it is fed with. It does not where the error is one of those that are forgotten: then the bytes in
question are used, the state is the one from before them, and decoding goes on behind them. -/
namespace WasmStream
open Builder

namespace Decoder
variable {d d' : Decoder} {c : Cursor} {e : Error} {n : Nat}

/-- Whatever comes behind `c`, the next transition fails, uses nothing and changes nothing. -/
def Refuses (d : Decoder) (c : Cursor) : Prop := ∃ e, ∀ more, d.step (c.append more) = .failed e d 0

/-- The decoder is still inside of a section whose end it has passed. -/
inductive Overrun (d : Decoder) (c : Cursor) : Prop
  | entryCount {s : SectionFrame} (hs : d.state = .entryCount s) (hpast : s.stop < c.offset)
  | entries {s : SectionFrame} {remaining : Nat} {entry : EntryBuilder}
      (hs : d.state = .entries s remaining entry) (hpast : s.stop < c.offset)
  | custom {s : SectionFrame} {entry : CustomBuilder} (hs : d.state = .custom s entry)
      (hname : entry.name = none) (hpast : s.stop < c.offset)

/-- The decoder comes to no end of a section any more. -/
def Stuck (d : Decoder) (c : Cursor) : Prop := Refuses d c ∨ Overrun d c

theorem Refuses.append (h : Refuses d c) (more : List UInt8) : Refuses d (c.append more) := by
  obtain ⟨e, hfail⟩ := h
  refine ⟨e, fun behind => ?_⟩
  rw [Cursor.append_append]
  exact hfail (more ++ behind)

theorem Overrun.at_offset {c' : Cursor} (h : Overrun d c) (hle : c.offset ≤ c'.offset) :
    Overrun d c' := by
  cases h with
  | entryCount hs hpast => exact .entryCount hs (Nat.lt_of_lt_of_le hpast hle)
  | entries hs hpast => exact .entries hs (Nat.lt_of_lt_of_le hpast hle)
  | custom hs hname hpast => exact .custom hs hname (Nat.lt_of_lt_of_le hpast hle)

/-- The pass stops, and the decoder has passed the end of its section. -/
def StopsOverrun (c : Cursor) : Pass Decoder Unit → Prop
  | .ready .. => False
  | .paused d n => Overrun d (c.drop n)
  | .failed _ d n => Overrun d (c.drop n)

/-- No transition leads out of a section whose end has been passed. -/
theorem Overrun.step (h : Overrun d c) : StopsOverrun c (d.step c) := by
  have hlater (n : Nat) : Overrun d (c.drop n) := h.at_offset (Nat.le_add_right _ _)
  cases h with
  | @entryCount s hs hpast =>
    rw [step_entryCount hs]
    unfold stepEntryCount
    cases Reader.u32 c with
    | done count n =>
      have hbehind : s.stop < c.offset + n := Nat.lt_add_right n hpast
      simp only [if_pos hbehind]
      exact hlater n
    | needMore => exact hlater 0
    | fail e => exact hlater 0
  | @entries s remaining entry hs hpast =>
    have hbehind (n : Nat) : s.stop < c.offset + n := Nat.lt_add_right n hpast
    rw [step_entries hs]
    unfold stepEntries
    cases EntryBuilder.builder d.limits entry c with
    | ready e t n =>
      simp only [if_pos (hbehind n)]
      exact .entries rfl (hbehind n)
    | paused t n =>
      simp only [if_pos (hbehind n)]
      exact .entries rfl (hbehind n)
    | failed e t n => exact .entries rfl (hbehind n)
  | @custom s entry hs hname hpast =>
    have hbehind (n : Nat) : s.stop < c.offset + n := Nat.lt_add_right n hpast
    rw [step_custom hs]
    unfold stepCustom
    obtain ⟨t, n, hpaused, ht⟩ | ⟨e, t, n, hfailed, ht⟩ :=
      CustomBuilder.behind_end d.limits hname hpast
    · rw [harvest, bind_of_paused _ hpaused]
      exact .custom rfl ht (hbehind n)
    · rw [harvest, bind_of_failed _ hfailed]
      exact .custom rfl ht (hbehind n)

/-- A run over more bytes leaves a decoder stuck that was so before. -/
theorem Stuck.run (h : Stuck d c) (more : List UInt8) :
    Stuck (d.run 0 (c.append more)).2.1 ((c.append more).drop (d.run 0 (c.append more)).2.2) := by
  cases h with
  | inl hrefuses =>
    obtain ⟨e, hfail⟩ := id hrefuses
    rw [run_of_failed (hfail more)]
    exact .inl (hrefuses.append more)
  | inr hoverrun =>
    have hlonger : Overrun d (c.append more) := hoverrun.at_offset (Nat.le_refl _)
    have hstep := hlonger.step
    cases hpass : d.step (c.append more) with
    | ready _ d' n =>
      rw [hpass] at hstep
      exact hstep.elim
    | paused d' n =>
      rw [hpass] at hstep
      rw [run_of_paused hpass, Nat.zero_add]
      exact .inr hstep
    | failed e d' n =>
      rw [hpass] at hstep
      rw [run_of_failed hpass, Nat.zero_add]
      exact .inr hstep

theorem Stuck.not_endsAt (h : Stuck d c) : ¬d.endsAt c = true := by
  intro hend
  have hstate : d.state = .sectionStart := by
    simp only [endsAt, isAtBoundary, Bool.and_eq_true, beq_iff_eq] at hend
    exact hend.1
  have hrest : c.rest = [] := by
    simp only [endsAt, Bool.and_eq_true, List.isEmpty_iff] at hend
    exact hend.2
  cases h with
  | inl hrefuses =>
    obtain ⟨e, hfail⟩ := hrefuses
    have hnow := hfail []
    rw [Cursor.append_nil, step_sectionStart hstate, stepSectionStart] at hnow
    have hmore : SectionFrame.headReader c = .needMore := by
      simp only [SectionFrame.headReader, Reader.bind_run, Reader.byte, hrest]
    rw [hmore] at hnow
    cases hnow
  | inr hoverrun =>
    cases hoverrun with
    | entryCount hs hpast => cases hstate.symm.trans hs
    | entries hs hpast => cases hstate.symm.trans hs
    | custom hs hname hpast => cases hstate.symm.trans hs

/-- A reader that fails is left where it is and fails again. -/
theorem refuses_of_reader {α : Type} {r : Reader α} (hr : r.Stable) (hread : r c = .fail e)
    (hstep : ∀ c, r c = .fail e → d.step c = .failed e d 0) : Refuses d (c.drop 0) := by
  refine ⟨e, fun more => ?_⟩
  exact hstep _ (hr.fail hread more)

theorem forgotten_headerError (found : List UInt8) : (headerError found).Forgotten := by
  unfold headerError
  by_cases h : found.take 4 = magic
  · rw [if_pos h]
    exact .version _
  · rw [if_neg h]
    exact .magic _

theorem stuck_of_stepHeader (hs : d.state = .header) (h : d.step c = .failed e d' n)
    (he : ¬e.Forgotten) : Stuck d' (c.drop n) := by
  rw [step_header hs, stepHeader] at h
  cases hread : Reader.bytes 8 c with
  | done found k =>
    rw [hread] at h
    dsimp only at h
    split at h
    · cases h
    · cases h
      exact absurd (forgotten_headerError found) he
  | needMore => rw [hread] at h; cases h
  | fail e' =>
    rw [hread] at h
    cases h
    refine .inl (refuses_of_reader (Reader.stable_bytes 8) hread fun c' hc' => ?_)
    rw [step_header hs, stepHeader, hc']

theorem stuck_of_stepSectionStart (hs : d.state = .sectionStart) (h : d.step c = .failed e d' n)
    (he : ¬e.Forgotten) : Stuck d' (c.drop n) := by
  rw [step_sectionStart hs, stepSectionStart] at h
  cases hread : SectionFrame.headReader c with
  | done head k =>
    rw [hread] at h
    dsimp only at h
    split at h
    · cases h
    · cases h
      exact absurd (.sectionId _ _) he
  | needMore => rw [hread] at h; cases h
  | fail e' =>
    rw [hread] at h
    cases h
    refine .inl (refuses_of_reader stable_headReader hread fun c' hc' => ?_)
    rw [step_sectionStart hs, stepSectionStart, hc']

theorem stuck_of_stepEntryCount {s : SectionFrame} (hs : d.state = .entryCount s)
    (h : d.step c = .failed e d' n) : Stuck d' (c.drop n) := by
  rw [step_entryCount hs, stepEntryCount] at h
  cases hread : Reader.u32 c with
  | done count k =>
    rw [hread] at h
    dsimp only at h
    split at h
    · next hpast =>
      -- The count is read anew, from bytes behind the section.
      cases h
      exact .inr (.entryCount hs hpast)
    · split at h
      · split at h <;> cases h
      · cases h
  | needMore => rw [hread] at h; cases h
  | fail e' =>
    rw [hread] at h
    cases h
    refine .inl (refuses_of_reader Reader.stable_u32 hread fun c' hc' => ?_)
    rw [step_entryCount hs, stepEntryCount, hc']

theorem step_entries_of_failed {s : SectionFrame} {remaining : Nat} {entry t : EntryBuilder}
    (hs : d.state = .entries s remaining entry)
    (h : EntryBuilder.builder d.limits entry c = .failed e t n) :
    d.step c = .failed e (d.goTo (.entries s remaining t)) n := by
  rw [step_entries hs, stepEntries]
  simp only [h]

theorem step_custom_of_failed {s : SectionFrame} {entry t : CustomBuilder}
    (hs : d.state = .custom s entry)
    (h : harvest (CustomBuilder.builder d.limits s.stop) CustomBuilder.freeze {} entry c =
      .failed e t n) : d.step c = .failed e (d.goTo (.custom s t)) n := by
  rw [step_custom hs, stepCustom]
  simp only [h]

theorem stuck_of_stepEntries {s : SectionFrame} {remaining : Nat} {entry : EntryBuilder}
    (hs : d.state = .entries s remaining entry) (h : d.step c = .failed e d' n)
    (he : ¬e.Forgotten) : Stuck d' (c.drop n) := by
  rw [step_entries hs, stepEntries] at h
  cases hbuild : EntryBuilder.builder d.limits entry c with
  | ready x t k =>
    rw [hbuild] at h
    dsimp only at h
    split at h
    · next hpast =>
      cases h
      exact .inr (.entries rfl hpast)
    · split at h <;> cases h
  | paused t k =>
    rw [hbuild] at h
    dsimp only at h
    split at h
    · next hpast =>
      cases h
      exact .inr (.entries rfl hpast)
    · cases h
  | failed e' t k =>
    rw [hbuild] at h
    cases h
    obtain ⟨e', hagain⟩ := EntryBuilder.failsForGood_builder d.limits entry c e t n hbuild he
    exact .inl ⟨e', fun more => step_entries_of_failed rfl (hagain more)⟩

theorem stuck_of_stepNumber {s : SectionFrame} {entry : UInt32 → Entry}
    (hs : ∀ c, d.step c = d.stepNumber s entry c) (h : d.step c = .failed e d' n) :
    Stuck d' (c.drop n) := by
  rw [hs, stepNumber] at h
  cases hread : Reader.u32 c with
  | done value k => rw [hread] at h; cases h
  | needMore => rw [hread] at h; cases h
  | fail e' =>
    rw [hread] at h
    cases h
    refine .inl (refuses_of_reader Reader.stable_u32 hread fun c' hc' => ?_)
    rw [hs, stepNumber, hc']

theorem stuck_of_stepCustom {s : SectionFrame} {entry : CustomBuilder} (hs : d.state = .custom s entry)
    (h : d.step c = .failed e d' n) (he : ¬e.Forgotten) : Stuck d' (c.drop n) := by
  rw [step_custom hs, stepCustom] at h
  cases hbuild : harvest (CustomBuilder.builder d.limits s.stop) CustomBuilder.freeze {} entry c with
  | ready x t k => rw [hbuild] at h; cases h
  | paused t k => rw [hbuild] at h; cases h
  | failed e' t k =>
    rw [hbuild] at h
    cases h
    have hcomplete {b t : CustomBuilder} {c : Cursor} {n : Nat}
        (h : CustomBuilder.builder d.limits s.stop b c = .ready () t n) :
        ∃ x, t.freeze = .ok x := CustomBuilder.freeze_of_ready d.limits h
    by_cases hrefused : CustomBuilder.NameRefused e
    · cases hrefused with
      | forgotten hforgotten => exact absurd hforgotten he
      | pastEnd name stop =>
        -- The name has been used, so it is not met again; but any other ends further behind.
        have hfailed := harvest_eq_failed hcomplete hbuild
        obtain ⟨hname, hpast⟩ := CustomBuilder.name_of_pastEnd d.limits hfailed
        exact .inr (.custom rfl hname hpast)
    · have hgood : FailsForGood CustomBuilder.NameRefused
          (harvest (CustomBuilder.builder d.limits s.stop) CustomBuilder.freeze {}) :=
        (CustomBuilder.failsForGood_builder d.limits).harvest hcomplete
      obtain ⟨e', hagain⟩ := hgood entry c e t n hbuild hrefused
      exact .inl ⟨e', fun more => step_custom_of_failed rfl (hagain more)⟩

/-- A transition that fails with an error that is not forgotten leaves the decoder stuck. -/
theorem stuck_of_step (h : d.step c = .failed e d' n) (he : ¬e.Forgotten) : Stuck d' (c.drop n) := by
  cases hs : d.state with
  | header => exact stuck_of_stepHeader hs h he
  | sectionStart => exact stuck_of_stepSectionStart hs h he
  | entryCount s => exact stuck_of_stepEntryCount hs h
  | entries s remaining entry => exact stuck_of_stepEntries hs h he
  | startFunction s => exact stuck_of_stepNumber (step_startFunction hs) h
  | dataCount s => exact stuck_of_stepNumber (step_dataCount hs) h
  | custom s entry => exact stuck_of_stepCustom hs h he
  | skip s =>
    rw [step_skip hs, stepSkip] at h
    split at h
    · split at h <;> cases h
    · cases h
  | sectionEnd s =>
    have hmismatch : ∀ c', c'.offset = c.offset → d.step c' = .failed e d' n := by
      intro c' hc'
      rw [step_sectionEnd hs, stepSectionEnd] at h ⊢
      rw [hc']
      exact h
    rw [step_sectionEnd hs, stepSectionEnd] at h
    split at h
    · cases h
    · cases h
      exact .inl ⟨_, fun more => hmismatch _ rfl⟩

theorem stuck_of_run {d d' : Decoder} {c : Cursor} {e : Error} {n : Nat} (h : d.run 0 c = (.error e, d', n))
    (he : ¬e.Forgotten) : Stuck d' (c.drop n) := by
  cases hstep : d.step c with
  | ready _ d₁ k =>
    rw [run_shift_of_ready hstep] at h
    obtain ⟨⟨result, d₂, l⟩, hrest⟩ : ∃ r, d₁.run 0 (c.drop k) = r := ⟨_, rfl⟩
    rw [hrest] at h
    cases h
    have hstuck := stuck_of_run hrest he
    rwa [Cursor.drop_drop] at hstuck
  | paused d₁ k => rw [run_of_paused hstep] at h; cases h
  | failed e₁ d₁ k =>
    rw [run_of_failed hstep, Nat.zero_add] at h
    cases h
    exact stuck_of_step hstep he
termination_by measure d c
decreasing_by exact measure_lt hstep

end Decoder

namespace StreamingDecoder
variable {d d' : StreamingDecoder} {chunk : List UInt8} {e : Error}

/-- Feed all the chunks, whether some of them are refused or not. -/
def feedEach (d : StreamingDecoder) (chunks : List (List UInt8)) : StreamingDecoder :=
  chunks.foldl (fun d chunk => (d.feed chunk).2) d

/-- What is left behind by a chunk is what the run over it leaves behind. -/
theorem ahead_feed (d : StreamingDecoder) (chunk : List UInt8) :
    (d.feed chunk).2.decoder = (d.decoder.run 0 ((Source.ahead d.stream).append chunk)).2.1 ∧
      Source.ahead (d.feed chunk).2.stream = ((Source.ahead d.stream).append chunk).drop
        (d.decoder.run 0 ((Source.ahead d.stream).append chunk)).2.2 := by
  rw [← ChunkStream.ahead_push]
  obtain ⟨d', n, status, hrun, hfeed, -⟩ | ⟨e, d', n, hrun, hfeed⟩ := feed_run d chunk
  · rw [hfeed, hrun]
    exact ⟨rfl, ChunkStream.ahead_consume _ n⟩
  · rw [hfeed, hrun]
    exact ⟨rfl, ChunkStream.ahead_consume _ n⟩

/-- The decoder comes to no module any more. -/
def Stuck (d : StreamingDecoder) : Prop := d.decoder.Stuck (Source.ahead d.stream)

theorem Stuck.feed (h : d.Stuck) (chunk : List UInt8) : (d.feed chunk).2.Stuck := by
  obtain ⟨hdecoder, hahead⟩ := ahead_feed d chunk
  unfold Stuck
  rw [hdecoder, hahead]
  exact Decoder.Stuck.run h chunk

theorem Stuck.feedEach (h : d.Stuck) (chunks : List (List UInt8)) : (d.feedEach chunks).Stuck := by
  induction chunks generalizing d with
  | nil => exact h
  | cons chunk rest ih => exact ih (h.feed chunk)

theorem Stuck.finish_ne_ok (h : d.Stuck) (m : Module) : d.finish ≠ .ok m := by
  intro hfinish
  rw [StreamingDecoder.finish, Decoder.finish_eq] at hfinish
  exact h.not_endsAt ((Decoder.finishAt_ok _ _).mp ⟨m, hfinish⟩)

theorem stuck_of_feed_error (h : d.feed chunk = (.error e, d')) (he : ¬e.Forgotten) : d'.Stuck := by
  obtain ⟨d₁, n, status, -, hfeed, -⟩ | ⟨e₁, d₁, n, hrun, hfeed⟩ := feed_run d chunk
  · cases h.symm.trans hfeed
  · cases h.symm.trans hfeed
    have hstuck := Decoder.stuck_of_run hrun he
    rw [← ChunkStream.ahead_consume] at hstuck
    exact hstuck

/-- A chunk that is refused with an error that is not forgotten ends the decoding: no chunks that are
fed later, and none at all, bring the decoder to a module. -/
theorem finish_ne_ok_of_feed_error (h : d.feed chunk = (.error e, d')) (he : ¬e.Forgotten)
    (chunks : List (List UInt8)) (m : Module) : (d'.feedEach chunks).finish ≠ .ok m :=
  ((stuck_of_feed_error h he).feedEach chunks).finish_ne_ok m

/-- A type section that is too short for its only type: what is fed later is read as more of it. -/
theorem finish_ne_ok_of_feed_error_type :
    ∃ d', (new {}).feed (header ++ [1, 1, 1, 0x60, 0, 0]) =
        (.error (.sectionSizeMismatch 1 1 4), d') ∧
      ¬(Error.sectionSizeMismatch 1 1 4).Forgotten ∧
      ∀ chunks m, (d'.feedEach chunks).finish ≠ .ok m := by
  have hfeed : (new {}).feed (header ++ [1, 1, 1, 0x60, 0, 0]) =
      (.error (.sectionSizeMismatch 1 1 4), ⟨⟨0, header ++ [1, 1, 1, 0x60, 0, 0], 14⟩,
        ⟨{}, .entries ⟨.type, 10, 1⟩ 1 .type, { types := [⟨[], []⟩] }⟩⟩) := by cbv
  have hlasting : ¬(Error.sectionSizeMismatch 1 1 4).Forgotten := by
    intro h
    cases h
  exact ⟨_, hfeed, hlasting, finish_ne_ok_of_feed_error hfeed hlasting⟩

/-- Not every chunk that is refused ends the decoding: an unknown section is refused, and the decoder
comes to the empty module. -/
theorem finish_of_unknownSection :
    ¬∀ (limits : DecoderLimits) (before : List (List UInt8)) (chunk : List UInt8) (e : Error)
      (d d' : StreamingDecoder), feedAll (new limits) before = .ok d → d.feed chunk = (.error e, d') →
        ∀ chunks m, (d'.feedEach chunks).finish ≠ .ok m := by
  intro hterminates
  have hfeed : (new {}).feed (header ++ [0x0D, 0]) =
      (.error (.unknownSection 0x0D 8), ⟨⟨0, header ++ [0x0D, 0], 10⟩, ⟨{}, .sectionStart, .empty⟩⟩) := by
    cbv
  exact hterminates {} [] _ _ _ _ rfl hfeed [] .empty rfl

end StreamingDecoder
end WasmStream
