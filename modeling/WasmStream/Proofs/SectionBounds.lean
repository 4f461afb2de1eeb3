import WasmStream.Proofs.Soundness
import WasmStream.Proofs.Rejection.Decoder

/-! Where a decoder waits for more input. Inside a section it stands between the start and the end of
the section, with two exceptions: the name of a custom section is only compared with the end of the
section once it is complete, and a count of entries that was read past the end, which is an error, is
waited for once more. -/
namespace WasmStream
open Builder

namespace Builder
variable {σ α β : Type} {Q : σ → Nat → Prop} {s : σ} {c : Cursor}

/-- Where the pass stops short of its end, `Q` holds of the state and the offset. -/
def Stops (Q : σ → Nat → Prop) (c : Cursor) : Pass σ α → Prop
  | .ready .. => True
  | .paused t n => Q t (c.offset + n)
  | .failed _ t n => Q t (c.offset + n)

theorem Stops.after {n : Nat} {p : Pass σ α} (h : Stops Q (c.drop n) p) : Stops Q c (p.after n) := by
  cases p with
  | ready a t m => exact trivial
  | paused t m =>
    rw [Pass.after_paused, Stops, ← Nat.add_assoc]
    exact h
  | failed e t m =>
    rw [Pass.after_failed, Stops, ← Nat.add_assoc]
    exact h

theorem stops_bind {p : Builder σ α} {f : α → Builder σ β} (hp : Stops Q c (p s c))
    (hf : ∀ a t n, p s c = .ready a t n → Stops Q (c.drop n) (f a t (c.drop n))) :
    Stops Q c ((p >>= f) s c) := by
  cases hpass : p s c with
  | ready a t n =>
    rw [bind_of_ready f hpass]
    exact (hf a t n hpass).after
  | paused t n =>
    rw [bind_of_paused f hpass]
    rwa [hpass] at hp
  | failed e t n =>
    rw [bind_of_failed f hpass]
    rwa [hpass] at hp

end Builder

namespace CustomBuilder
variable (limits : DecoderLimits) {stop : Nat} {b t : CustomBuilder} {c : Cursor}

/-- Once the name is known, the bytes that the payload misses are those up to the end of the
section. -/
structure InSection (stop : Nat) (b : CustomBuilder) (offset : Nat) : Prop where
  bytes : b.bytes = none
  payload : b.name ≠ none → offset + b.payload.missing = stop

theorem inSection_of_name (hbytes : b.bytes = none) (hname : b.name = none) (offset : Nat) :
    InSection stop b offset :=
  ⟨hbytes, fun h => absurd hname h⟩

/-- Behind the name, the rest of the section is what is still missing. -/
theorem payload_of_readHead {name : String} {n : Nat}
    (h : readHead limits stop b c = .ready name t n) :
    c.offset + n + t.payload.missing = stop := by
  have hle := offset_le_of_readHead limits h
  rw [readHead_run] at h
  split at h
  · split at h
    · cases h
    · split at h
      · cases h
      · cases h
        change c.offset + n + (stop - (c.offset + n)) = stop
        omega
  · cases h
  · cases h

theorem keeps_bytes_readHead (stop : Nat) : Keeps (readHead limits stop) CustomBuilder.bytes :=
  keeps_part_readHead limits stop (fun _ _ => rfl) fun _ _ => rfl

theorem stops_readHead (hbytes : b.bytes = none) (hname : b.name = none) :
    Stops (InSection stop) c (readHead limits stop b c) := by
  have hkept := keeps_bytes_readHead limits stop b c
  have hunnamed := keeps_readHead limits stop b c
  cases hpass : readHead limits stop b c with
  | ready name t n => exact trivial
  | paused t n =>
    rw [hpass] at hkept hunnamed
    exact inSection_of_name (hkept.trans hbytes) (hunnamed.trans hname) _
  | failed e t n =>
    rw [hpass] at hkept hunnamed
    exact inSection_of_name (hkept.trans hbytes) (hunnamed.trans hname) _

theorem stops_payloadPart (hbytes : b.bytes = none) (h : c.offset + b.payload.missing = stop) :
    Stops (InSection stop) c (payloadPart b c) := by
  by_cases hfull : (b.payload.fill c.rest).isComplete = true
  · have hfrozen := ByteField.freeze_of_isComplete hfull
    rw [payloadPart, whenFilled_of_isComplete hfull]
    dsimp only
    rw [hfrozen]
    exact trivial
  · rw [payloadPart, whenFilled_of_not_isComplete hfull]
    refine ⟨hbytes, fun _ => ?_⟩
    have hbounded := b.payload.bounded c.rest
    have hmissing : (b.payload.fill c.rest).missing =
        b.payload.missing - b.payload.taken c.rest := rfl
    change c.offset + b.payload.taken c.rest + (b.payload.fill c.rest).missing = stop
    have htaken := hbounded.taken_le_missing
    omega

theorem stops_builder (h : InSection stop b c.offset) :
    Stops (InSection stop) c (builder limits stop b c) := by
  have hpayload {u : CustomBuilder} {c : Cursor} (hbytes : u.bytes = none)
      (hmissing : c.offset + u.payload.missing = stop) :
      Stops (InSection stop) c ((Builder.remember bytes (fun p b => { b with bytes := some p })
        payloadPart >>= fun _ => pure ()) u c) := by
    refine stops_bind ?_ fun _ _ _ _ => trivial
    rw [remember_of_none hbytes]
    exact stops_bind (stops_payloadPart hbytes hmissing) fun _ _ _ _ => trivial
  rw [builder_eq]
  cases hname : b.name with
  | some name =>
    have hmissing := h.payload (by simp [hname])
    refine stops_bind ?_ fun _ u n hready => ?_
    · rw [remember_of_some hname]
      exact trivial
    · rw [remember_of_some hname] at hready
      cases hready
      exact hpayload h.bytes hmissing
  | none =>
    refine stops_bind ?_ fun _ u n hready => ?_
    · rw [remember_of_none hname]
      exact stops_bind (stops_readHead limits h.bytes hname) fun _ _ _ _ => trivial
    · rw [remember_of_none hname] at hready
      cases hhead : readHead limits stop b c with
      | ready name t m =>
        rw [bind_of_ready _ hhead] at hready
        cases hready
        have hkept := keeps_bytes_readHead limits stop b c
        rw [hhead] at hkept
        have hmissing := payload_of_readHead limits hhead
        exact hpayload (hkept.trans h.bytes) hmissing
      | paused t m => rw [bind_of_paused _ hhead] at hready; cases hready
      | failed e t m => rw [bind_of_failed _ hhead] at hready; cases hready

end CustomBuilder

namespace DecoderState

/-- What is known of a place in a section, also behind an error: a number is read from its start on,
and behind the name of a custom section the rest of it is counted. -/
def Framed (offset : Nat) : DecoderState → Prop
  | startFunction s | dataCount s => offset = s.start
  | custom s entry => entry.InSection s.stop offset
  | header | sectionStart | entryCount _ | entries .. | skip _ | sectionEnd _ => True

/-- As long as there was no error, the count of the entries is not read past the end either. -/
def Counting (offset : Nat) : DecoderState → Prop
  | entryCount s => offset ≤ s.stop
  | header | sectionStart | entries .. | startFunction _ | dataCount _ | custom .. | skip _
  | sectionEnd _ => True

theorem framed_ofSection (s : SectionFrame) : (ofSection s).Framed s.start := by
  obtain ⟨id, start, size⟩ := s
  cases id with
  | custom => exact CustomBuilder.inSection_of_name rfl rfl _
  | start | dataCount => exact rfl
  | _ => exact trivial

theorem counting_ofSection (s : SectionFrame) : (ofSection s).Counting s.start := by
  obtain ⟨id, start, size⟩ := s
  cases id with
  | custom | start | dataCount | element => exact trivial
  | _ => exact Nat.le_add_right _ _

end DecoderState

namespace Decoder
variable {d d' : Decoder} {c c' : Cursor} {n : Nat}

/-- In a custom section whose name is not complete. -/
def Unnamed (d : Decoder) (s : SectionFrame) : Prop :=
  ∃ entry, d.state = .custom s entry ∧ entry.name = none

/-- Where a transition comes to. If it succeeds, no count of entries was read past the end; if it waits
inside a section, it has not passed the end of it, or it waits for the name of a custom section, or it
has not moved and is to read a count. -/
def Lands (d : Decoder) (c : Cursor) : Pass Decoder Unit → Prop
  | .ready () d' n => d'.state.Framed (c.offset + n) ∧ d'.state.Counting (c.offset + n)
  | .paused d' n => d'.state.Framed (c.offset + n) ∧ ∀ s, d'.state.frame? = some s →
      c.offset + n ≤ s.stop ∨ d'.Unnamed s ∨ (d'.state = .entryCount s ∧ d' = d ∧ n = 0)
  | .failed _ d' n => d'.state.Framed (c.offset + n)

theorem Lands.framed {p : Pass Decoder Unit} (h : Lands d c p) :
    p.state.state.Framed (c.offset + p.used) := by
  cases p with
  | ready _ d' n => exact h.1
  | paused d' n => exact h.1
  | failed e d' n => exact h

/-- Outside of a section there is nothing to pass the end of. -/
theorem lands_waiting (h : d.state.Framed c.offset) (hframe : d.state.frame? = none) :
    Lands d c (.paused d 0) :=
  ⟨h, fun _ hsome => by cases hframe.symm.trans hsome⟩

theorem lands_header (hs : d.state = .header) : Lands d c (d.stepHeader c) := by
  have hframed (n : Nat) : d.state.Framed (c.offset + n) := by rw [hs]; exact trivial
  unfold stepHeader
  split
  · split
    · exact ⟨trivial, trivial⟩
    · exact hframed _
  · exact lands_waiting (hframed 0) (by rw [hs]; rfl)
  · exact hframed 0

theorem lands_sectionStart (hs : d.state = .sectionStart) : Lands d c (d.stepSectionStart c) := by
  have hframed (n : Nat) : d.state.Framed (c.offset + n) := by rw [hs]; exact trivial
  unfold stepSectionStart
  split
  · split
    · exact ⟨DecoderState.framed_ofSection _, DecoderState.counting_ofSection _⟩
    · exact hframed _
  · exact lands_waiting (hframed 0) (by rw [hs]; rfl)
  · exact hframed 0

theorem lands_entryCount {s : SectionFrame} (hs : d.state = .entryCount s) :
    Lands d c (d.stepEntryCount s c) := by
  have hframed (n : Nat) : d.state.Framed (c.offset + n) := by rw [hs]; exact trivial
  unfold stepEntryCount
  split
  · split
    · exact hframed _
    · split
      · split <;> exact ⟨trivial, trivial⟩
      · exact ⟨trivial, trivial⟩
  · refine ⟨hframed 0, fun r hframe => .inr (.inr ?_)⟩
    rw [hs] at hframe
    cases hframe
    exact ⟨hs, rfl, rfl⟩
  · exact hframed 0

theorem lands_entries (d : Decoder) (s : SectionFrame) (remaining : Nat) (entry : EntryBuilder)
    (c : Cursor) : Lands d c (d.stepEntries s remaining entry c) := by
  unfold stepEntries
  split
  · dsimp only
    split
    · exact trivial
    · split <;> exact ⟨trivial, trivial⟩
  · dsimp only
    split
    · exact trivial
    · next hwithin =>
      refine ⟨trivial, fun r hframe => ?_⟩
      cases hframe
      exact .inl (Nat.le_of_not_lt hwithin)
  · exact trivial

theorem lands_number {s : SectionFrame} {entry : UInt32 → Entry} (h : d.state.Framed c.offset)
    (hframe : d.state.frame? = some s) (hstart : c.offset = s.start) :
    Lands d c (d.stepNumber s entry c) := by
  unfold stepNumber
  cases Reader.u32 c with
  | done value n => exact ⟨trivial, trivial⟩
  | needMore =>
    refine ⟨h, fun r hr => ?_⟩
    cases hframe.symm.trans hr
    exact .inl (Nat.le_trans (Nat.le_of_eq hstart) (Nat.le_add_right _ _))
  | fail e => exact h

theorem lands_custom {s : SectionFrame} {entry : CustomBuilder}
    (h : entry.InSection s.stop c.offset) : Lands d c (d.stepCustom s entry c) := by
  have hstops : Stops (CustomBuilder.InSection s.stop) c
      (harvest (CustomBuilder.builder d.limits s.stop) CustomBuilder.freeze {} entry c) := by
    refine stops_bind (CustomBuilder.stops_builder d.limits h) fun _ t n hready => ?_
    obtain ⟨x, hfrozen⟩ := CustomBuilder.freeze_of_ready d.limits hready
    refine stops_bind trivial fun _ u m hget => ?_
    cases hget
    refine stops_bind trivial fun _ u m hfresh => ?_
    cases hfresh
    rw [hfrozen]
    exact trivial
  unfold stepCustom
  cases hpass : harvest (CustomBuilder.builder d.limits s.stop) CustomBuilder.freeze {} entry c with
  | ready e t n => exact ⟨trivial, trivial⟩
  | paused t n =>
    rw [hpass] at hstops
    refine ⟨hstops, fun r hframe => ?_⟩
    cases hframe
    cases hname : t.name with
    | none => exact .inr (.inl ⟨t, rfl, hname⟩)
    | some name =>
      have hmissing := CustomBuilder.InSection.payload hstops (by simp [hname])
      exact .inl (Nat.le_of_add_right_le (Nat.le_of_eq hmissing))
  | failed e t n =>
    rw [hpass] at hstops
    exact hstops

theorem lands_skip {s : SectionFrame} (hs : d.state = .skip s) : Lands d c (d.stepSkip s c) := by
  have hframed (n : Nat) : d.state.Framed (c.offset + n) := by rw [hs]; exact trivial
  unfold stepSkip
  dsimp only
  split
  · next hshort =>
    split
    · next hnone =>
      rw [hnone] at hshort
      refine ⟨hframed 0, fun r hframe => .inl ?_⟩
      rw [hs] at hframe
      cases hframe
      exact Nat.le_of_lt hshort
    · refine ⟨hframed _, ?_⟩
      rw [hs]
      exact trivial
  · exact ⟨trivial, trivial⟩

theorem lands_sectionEnd {s : SectionFrame} (hs : d.state = .sectionEnd s) :
    Lands d c (d.stepSectionEnd s c) := by
  unfold stepSectionEnd
  split
  · exact ⟨trivial, trivial⟩
  · rw [Lands, hs]
    exact trivial

theorem lands_step (h : d.state.Framed c.offset) : Lands d c (d.step c) := by
  cases hs : d.state with
  | header =>
    rw [step_header hs]
    exact lands_header hs
  | sectionStart =>
    rw [step_sectionStart hs]
    exact lands_sectionStart hs
  | entryCount s =>
    rw [step_entryCount hs]
    exact lands_entryCount hs
  | entries s remaining entry =>
    rw [step_entries hs]
    exact lands_entries d s remaining entry c
  | startFunction s =>
    have hstart : c.offset = s.start := by rwa [hs] at h
    rw [step_startFunction hs]
    exact lands_number h (by rw [hs]; rfl) hstart
  | dataCount s =>
    have hstart : c.offset = s.start := by rwa [hs] at h
    rw [step_dataCount hs]
    exact lands_number h (by rw [hs]; rfl) hstart
  | custom s entry =>
    rw [hs] at h
    rw [step_custom hs]
    exact lands_custom h
  | skip s =>
    rw [step_skip hs]
    exact lands_skip hs
  | sectionEnd s =>
    rw [step_sectionEnd hs]
    exact lands_sectionEnd hs

theorem lands_of_ready (h : d.state.Framed c.offset) (hstep : d.step c = .ready () d' n) :
    d'.state.Framed (c.offset + n) ∧ d'.state.Counting (c.offset + n) := by
  have hlands := lands_step h
  rwa [hstep] at hlands

theorem within_of_paused {s : SectionFrame} (h : d.state.Framed c.offset)
    (hstep : d.step c = .paused d' n) (hframe : d'.state.frame? = some s) :
    c.offset + n ≤ s.stop ∨ d'.Unnamed s ∨ (d'.state = .entryCount s ∧ d' = d ∧ n = 0) := by
  have hlands := lands_step h
  rw [hstep] at hlands
  exact hlands.2 s hframe

/-- A decoder that waits reads no count past the end of its section, unless it did so before. -/
theorem counting_of_paused (hframed : d.state.Framed c.offset) (h : d.state.Counting c.offset)
    (hstep : d.step c = .paused d' n) : d'.state.Counting (c.offset + n) := by
  cases hs : d'.state with
  | entryCount s =>
    have hframe : d'.state.frame? = some s := by rw [hs]; rfl
    obtain hwithin | ⟨entry, hcustom, -⟩ | ⟨-, rfl, rfl⟩ := within_of_paused hframed hstep hframe
    · exact hwithin
    · cases hs.symm.trans hcustom
    · rwa [hs] at h
  | header | sectionStart | entries | startFunction | dataCount | custom | skip | sectionEnd =>
    exact trivial

theorem Visits.framed (h : d.Visits c d' c') (hd : d.state.Framed c.offset) :
    d'.state.Framed c'.offset := by
  induction h with
  | here d c => exact hd
  | next hstep _ ih => exact ih (lands_of_ready hd hstep).1

theorem Visits.counting (h : d.Visits c d' c') (hd : d.state.Framed c.offset)
    (hcounting : d.state.Counting c.offset) : d'.state.Counting c'.offset := by
  induction h with
  | here d c => exact hcounting
  | next hstep _ ih =>
    obtain ⟨hframed, hnext⟩ := lands_of_ready hd hstep
    exact ih hframed hnext

/-- A run ends with a transition from a state that it visits. -/
theorem run_ends (d : Decoder) (c : Cursor) :
    ∃ d' c', d.Visits c d' c' ∧ (d.run 0 c).2.1 = (d'.step c').state ∧
      c.offset + (d.run 0 c).2.2 = c'.offset + (d'.step c').used ∧
      ((d.run 0 c).1 = .ok () → ∃ last n, d'.step c' = .paused last n) := by
  cases hstep : d.step c with
  | ready _ d₁ n =>
    obtain ⟨d', c', hvisits, hstate, hused, hpaused⟩ := run_ends d₁ (c.drop n)
    rw [run_shift_of_ready hstep]
    refine ⟨d', c', .next hstep hvisits, hstate, ?_, hpaused⟩
    rw [← hused, Cursor.drop_offset, Nat.add_assoc]
    rfl
  | paused d₁ n =>
    rw [run_of_paused hstep]
    refine ⟨d, c, .here d c, ?_, ?_, fun _ => ⟨d₁, n, hstep⟩⟩
    · rw [hstep]
      rfl
    · rw [hstep, Nat.zero_add]
      rfl
  | failed e d₁ n =>
    rw [run_of_failed hstep]
    refine ⟨d, c, .here d c, ?_, ?_, fun h => (by cases h)⟩
    · rw [hstep]
      rfl
    · rw [hstep, Nat.zero_add]
      rfl
termination_by measure d c
decreasing_by exact measure_lt hstep

theorem framed_run (h : d.state.Framed c.offset) :
    (d.run 0 c).2.1.state.Framed (c.offset + (d.run 0 c).2.2) := by
  obtain ⟨d', c', hvisits, hstate, hused, -⟩ := run_ends d c
  rw [hstate, hused]
  exact (lands_step (hvisits.framed h)).framed

theorem paused_of_run (h : d.run 0 c = (.ok (), d', n)) :
    ∃ d₁ c₁ k, d.Visits c d₁ c₁ ∧ d₁.step c₁ = .paused d' k ∧ c.offset + n = c₁.offset + k := by
  obtain ⟨d₁, c₁, hvisits, hstate, hused, hpaused⟩ := run_ends d c
  rw [h] at hstate hused hpaused
  obtain ⟨last, k, hlast⟩ := hpaused rfl
  rw [hlast] at hstate hused
  change d' = last at hstate
  exact ⟨d₁, c₁, k, hvisits, by rw [hlast, hstate], hused⟩

/-- After a run without an error the decoder waits where it may. -/
theorem within_of_run {s : SectionFrame} (h : d.state.Framed c.offset)
    (hrun : d.run 0 c = (.ok (), d', n)) (hframe : d'.state.frame? = some s) :
    c.offset + n ≤ s.stop ∨ d'.Unnamed s ∨ d'.state = .entryCount s := by
  obtain ⟨d₁, c₁, k, hvisits, hlast, hused⟩ := paused_of_run hrun
  rw [hused]
  obtain hwithin | hunnamed | ⟨hcount, -⟩ := within_of_paused (hvisits.framed h) hlast hframe
  · exact .inl hwithin
  · exact .inr (.inl hunnamed)
  · exact .inr (.inr hcount)

theorem counting_of_run (h : d.state.Framed c.offset) (hcounting : d.state.Counting c.offset)
    (hrun : d.run 0 c = (.ok (), d', n)) : d'.state.Counting (c.offset + n) := by
  obtain ⟨d₁, c₁, k, hvisits, hlast, hused⟩ := paused_of_run hrun
  rw [hused]
  exact counting_of_paused (hvisits.framed h) (hvisits.counting h hcounting) hlast

theorem Unnamed.overrun {s : SectionFrame} (h : d.Unnamed s) (hpast : s.stop < c.offset) :
    d.Overrun c := by
  obtain ⟨entry, hstate, hname⟩ := h
  exact .custom hstate hname hpast

end Decoder

namespace StreamingDecoder
variable {limits : DecoderLimits} {d d' : StreamingDecoder} {chunk : List UInt8}
  {before : List (List UInt8)} {status : Status}

theorem Reached.framed (h : Reached limits d) :
    d.decoder.state.Framed (Source.offset d.stream) := by
  induction h with
  | new => exact trivial
  | @feed d _ chunk ih =>
    obtain ⟨hdecoder, hahead⟩ := ahead_feed d chunk
    rw [Source.offset, hdecoder, hahead]
    exact Decoder.framed_run (c := (Source.ahead d.stream).append chunk) ih

theorem reached_feedEach (h : Reached limits d) (chunks : List (List UInt8)) :
    Reached limits (d.feedEach chunks) := by
  induction chunks generalizing d with
  | nil => exact h
  | cons chunk rest ih => exact ih (h.feed chunk)

/-- What a chunk that is accepted does, as a run over the bytes ahead. -/
theorem run_of_feed (h : d.feed chunk = (.ok status, d')) :
    ∃ n, d.decoder.run 0 ((Source.ahead d.stream).append chunk) = (.ok (), d'.decoder, n) ∧
      Source.offset d'.stream = Source.offset d.stream + n := by
  obtain ⟨d₁, n, status', hrun, hfeed, -⟩ | ⟨e, d₁, n, -, hfeed⟩ := feed_run d chunk
  · cases h.symm.trans hfeed
    refine ⟨n, hrun, ?_⟩
    rw [Source.offset, ChunkStream.ahead_consume, ChunkStream.ahead_push]
    rfl
  · cases h.symm.trans hfeed

theorem counting_of_feedAll (h : Reached limits d)
    (hcounting : d.decoder.state.Counting (Source.offset d.stream)) (chunks : List (List UInt8))
    (hfed : feedAll d chunks = .ok d') : d' = d.feedEach chunks ∧
      d'.decoder.state.Counting (Source.offset d'.stream) := by
  induction chunks generalizing d with
  | nil =>
    cases hfed
    exact ⟨rfl, hcounting⟩
  | cons chunk rest ih =>
    rw [feedAll] at hfed
    split at hfed
    · next status next hfeed =>
      obtain ⟨n, hrun, hoffset⟩ := run_of_feed hfeed
      have hreached : Reached limits next := by
        have := h.feed chunk
        rwa [hfeed] at this
      have hnext := Decoder.counting_of_run (c := (Source.ahead d.stream).append chunk) h.framed
        hcounting hrun
      obtain ⟨heach, hend⟩ := ih hreached (by rw [hoffset]; exact hnext) hfed
      refine ⟨?_, hend⟩
      rw [heach, feedEach, feedEach, List.foldl_cons, hfeed]
    · cases hfed

/-- After a chunk is accepted, a decoder inside a section stands between its start and its end. It
may have passed the end only where it waits for the name of a custom section or, behind an error, for
the count of the entries; then it comes to no module any more. -/
theorem offset_within_section (limits : DecoderLimits) (before : List (List UInt8))
    (chunk : List UInt8) (status : Status) (d' : StreamingDecoder) (s : SectionFrame)
    (hfeed : ((new limits).feedEach before).feed chunk = (.ok status, d'))
    (hframe : d'.decoder.state.frame? = some s) :
    s.start ≤ Source.offset d'.stream ∧
    (Source.offset d'.stream ≤ s.stop ∨
      (d'.decoder.Unnamed s ∨ d'.decoder.state = .entryCount s) ∧
        ∀ chunks m, (d'.feedEach chunks).finish ≠ .ok m) ∧
    ∀ d, feedAll (new limits) before = .ok d →
      Source.offset d'.stream ≤ s.stop ∨ d'.decoder.Unnamed s := by
  have hreached : Reached limits ((new limits).feedEach before) := reached_feedEach .new before
  have hnext : Reached limits d' := by
    have := hreached.feed chunk
    rwa [hfeed] at this
  obtain ⟨n, hrun, hoffset⟩ := run_of_feed hfeed
  have hwithin : Source.offset d'.stream ≤ s.stop ∨ d'.decoder.Unnamed s ∨
      d'.decoder.state = .entryCount s := by
    rw [hoffset]
    exact Decoder.within_of_run
      (c := (Source.ahead ((new limits).feedEach before).stream).append chunk) hreached.framed hrun
        hframe
  refine ⟨hnext.standing.inOrder.start_le hframe, ?_, fun d hfed => ?_⟩
  · by_cases hpast : s.stop < Source.offset d'.stream
    · have hstuck (hoverrun : d'.decoder.Overrun (Source.ahead d'.stream)) (chunks m) :
          (d'.feedEach chunks).finish ≠ .ok m :=
        (Stuck.feedEach (d := d') (.inr hoverrun) chunks).finish_ne_ok m
      obtain hle | hunnamed | hcount := hwithin
      · exact absurd hle (Nat.not_le_of_lt hpast)
      · exact .inr ⟨.inl hunnamed, hstuck (hunnamed.overrun hpast)⟩
      · exact .inr ⟨.inr hcount, hstuck (.entryCount hcount hpast)⟩
    · exact .inl (Nat.le_of_not_lt hpast)
  · have hstart : Reached limits (new limits) := .new
    obtain ⟨heach, hcounting⟩ := counting_of_feedAll hstart trivial before hfed
    rw [heach] at hcounting
    have hcount := Decoder.counting_of_run
      (c := (Source.ahead ((new limits).feedEach before).stream).append chunk) hreached.framed
        hcounting hrun
    obtain hle | hunnamed | hstate := hwithin
    · exact .inl hle
    · exact .inr hunnamed
    · rw [hstate] at hcount
      left
      rw [hoffset]
      exact hcount

/-- A type section is cut inside of its only type, behind the count. -/
theorem offset_within_section_type :
    ∃ d', ((new {}).feedEach [header]).feed [1, 5, 1, 0x60, 1] = (.ok .needMoreInput, d') ∧
      d'.decoder.state.frame? = some ⟨.type, 10, 5⟩ ∧ 10 ≤ Source.offset d'.stream ∧
        Source.offset d'.stream ≤ 15 := by
  have hfirst : (new {}).feed header =
      (.ok .sectionBoundary, ⟨⟨0, header, 8⟩, ⟨{}, .sectionStart, .empty⟩⟩) := by cbv
  have heach : (new {}).feedEach [header] = ⟨⟨0, header, 8⟩, ⟨{}, .sectionStart, .empty⟩⟩ :=
    congrArg Prod.snd hfirst
  have hfeed : ((new {}).feedEach [header]).feed [1, 5, 1, 0x60, 1] = (.ok .needMoreInput,
      ⟨⟨8, [1, 5, 1, 0x60, 1], 3⟩, ⟨{}, .entries ⟨.type, 10, 5⟩ 1 .type, .empty⟩⟩) := by
    rw [heach]
    cbv
  have hfed : feedAll (new {}) [header] = .ok ((new {}).feedEach [header]) := by
    rw [heach]
    cbv
  obtain ⟨hstart, -, hend⟩ := offset_within_section {} [header] _ _ _ _ hfeed rfl
  refine ⟨_, hfeed, rfl, hstart, ?_⟩
  obtain hstop | ⟨entry, hcustom, -⟩ := hend _ hfed
  · exact hstop
  · cases hcustom

/-- The name of a custom section is read past the end of the section without an error. -/
theorem offset_past_custom_section :
    ¬∀ (limits : DecoderLimits) (before : List (List UInt8)) (chunk : List UInt8) (status : Status)
      (d' : StreamingDecoder) (s : SectionFrame),
      ((new limits).feedEach before).feed chunk = (.ok status, d') →
        d'.decoder.state.frame? = some s →
          s.start ≤ Source.offset d'.stream ∧ Source.offset d'.stream ≤ s.stop := by
  intro hwithin
  have hfeed : ((new {}).feedEach []).feed (header ++ [0, 2, 5, 0x61, 0x62, 0x63]) =
      (.ok .needMoreInput, ⟨⟨0, header ++ [0, 2, 5, 0x61, 0x62, 0x63], 14⟩,
        ⟨{}, .custom ⟨.custom, 10, 2⟩ { nameField := .filling ⟨[0x61, 0x62, 0x63], 2⟩ }, .empty⟩⟩) := by
    cbv
  obtain ⟨-, hstop⟩ := hwithin {} [] _ _ _ _ hfeed rfl
  exact absurd hstop (by decide)

end StreamingDecoder
end WasmStream
