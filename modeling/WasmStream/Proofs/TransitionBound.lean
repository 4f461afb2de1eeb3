import WasmStream.Proofs.Chunking
import WasmStream.Proofs.Grammar.Sections

/-! The decoding loop ends, and soon: a call makes at most two transitions for every byte that it uses.
Some transitions use no byte. Those that end a section are paid for by the bytes of the transition
before, and those that pass over an empty section by its id and its size; no entry is complete without
a byte, wherever an earlier call has left it. -/
namespace WasmStream

namespace Reader
variable {α : Type} {r : Reader α} {G : Grammar α} {c : Cursor} {a : α} {n : Nat}

/-- What stands behind the bytes that are used is not looked at. -/
def Tight (r : Reader α) : Prop :=
  ∀ c more a n, r (c.append more) = .done a n → n ≤ c.rest.length → r c = .done a n

theorem Reads.tight (h : Reads r G) : Tight r := by
  intro c more a n hdone hn
  obtain ⟨-, hform⟩ := (h _ _ _).mp hdone
  rw [Cursor.append_rest, List.take_append_of_le_length hn] at hform
  exact (h _ _ _).mpr ⟨hn, hform⟩

theorem Tight.map {β : Type} (h : Tight r) (f : α → β) : Tight (r >>= fun a => pure (f a)) := by
  intro c more b n hdone hn
  obtain ⟨a, k, m, ha, hb, rfl⟩ := bind_eq_done.mp hdone
  cases hb
  exact bind_eq_done.mpr ⟨a, k, 0, h _ _ _ _ ha hn, rfl, rfl⟩

/-- A reader that asks for bytes where there are none is not done without one. -/
theorem Tight.pos (h : Tight r) (hnil : ∀ offset, r ⟨offset, []⟩ = .needMore)
    (hdone : r c = .done a n) : 0 < n := by
  refine Nat.pos_of_ne_zero fun hzero => ?_
  subst hzero
  have hempty := h ⟨c.offset, []⟩ c.rest a 0 hdone (Nat.zero_le _)
  rw [hnil] at hempty
  cases hempty

theorem pos_of_u32 {count : UInt32} (h : u32 c = .done count n) : 0 < n :=
  Grammar.reads_u32.tight.pos (fun _ => rfl) h

end Reader

theorem SectionFrame.two_le_of_headReader {c : Cursor} {head : UInt8 × UInt32} {n : Nat}
    (h : headReader c = .done head n) : 2 ≤ n := by
  obtain ⟨id, k, _, hid, hrest, rfl⟩ := Reader.bind_eq_done.mp h
  obtain ⟨size, m, l, hsize, -, rfl⟩ := Reader.bind_eq_done.mp hrest
  have hm := Reader.pos_of_u32 hsize
  have hk : 0 < k := Reader.reads_byte.tight.pos (fun _ => rfl) hid
  omega

namespace Builder
variable {σ α : Type} {p : Builder σ α} {fresh s t : σ} {c : Cursor} {a : α} {n : Nat}

/-- A builder that starts afresh whenever it is ready, and is not ready before it has used a byte. -/
structure Consuming (p : Builder σ α) (fresh : σ) : Prop where
  resumable : Resumable p
  tight : Reader.Tight (atOnce p fresh)
  again : ∀ {c a t n}, p fresh c = .ready a t n → t = fresh
  waits : ∀ offset, ∃ t n, p fresh ⟨offset, []⟩ = .paused t n

/-- The builder is in the state `s` in front of `c` because it is fresh, or because a pass that began
afresh has stopped here; more bytes may have arrived since. -/
def Underway (p : Builder σ α) (fresh s : σ) (c : Cursor) : Prop :=
  s = fresh ∨ ∃ c₀ n more, p fresh c₀ = .paused s n ∧ c = (c₀.drop n).append more

namespace Consuming

theorem pos (h : Consuming p fresh) (hready : p fresh c = .ready a t n) : 0 < n := by
  refine h.tight.pos (fun offset => ?_) (ready_iff.mp hready)
  obtain ⟨t, n, hpaused⟩ := h.waits offset
  rw [atOnce, hpaused]

/-- What a pass comes to that was taken up again, seen from where it began. -/
theorem resumed (h : Consuming p fresh) {c₀ : Cursor} (hpaused : p fresh c₀ = .paused s n)
    (more : List UInt8) : n ≤ c₀.rest.length ∧
      p fresh (c₀.append more) = (p s ((c₀.drop n).append more)).after n := by
  obtain ⟨hle, hmore⟩ := h.resumable fresh c₀
  rw [hpaused] at hle
  refine ⟨hle, ?_⟩
  rw [hmore more, hpaused, resume_paused]

/-- If no byte were used, the pass would have been ready before it stopped. -/
theorem of_ready (h : Consuming p fresh) (hs : Underway p fresh s c)
    (hready : p s c = .ready a t n) : 0 < n ∧ t = fresh := by
  obtain rfl | ⟨c₀, k, more, hpaused, rfl⟩ := hs
  · exact ⟨h.pos hready, h.again hready⟩
  · obtain ⟨hk, hwhole⟩ := h.resumed hpaused more
    rw [hready, Pass.after_ready] at hwhole
    refine ⟨Nat.pos_of_ne_zero fun hzero => ?_, h.again hwhole⟩
    subst hzero
    have hbefore := ready_iff.mpr (h.tight _ _ _ _ (ready_iff.mp hwhole) hk)
    rw [hpaused] at hbefore
    cases hbefore

theorem of_paused (h : Consuming p fresh) (hs : Underway p fresh s c)
    (hpaused : p s c = .paused t n) : Underway p fresh t (c.drop n) := by
  obtain rfl | ⟨c₀, k, more, hpaused₀, rfl⟩ := hs
  · exact .inr ⟨c, n, [], hpaused, (Cursor.append_nil _).symm⟩
  · obtain ⟨hk, hwhole⟩ := h.resumed hpaused₀ more
    rw [hpaused, Pass.after_paused] at hwhole
    refine .inr ⟨c₀.append more, k + n, [], hwhole, ?_⟩
    rw [Cursor.append_nil, ← Cursor.drop_drop, Cursor.drop_append hk]

end Consuming

theorem Underway.append (h : Underway p fresh s c) (more : List UInt8) :
    Underway p fresh s (c.append more) := by
  obtain rfl | ⟨c₀, n, before, hpaused, rfl⟩ := h
  · exact .inl rfl
  · exact .inr ⟨c₀, n, before ++ more, hpaused, by simp [Cursor.append]⟩

end Builder
open Builder

theorem EntryBuilder.consuming {limits : DecoderLimits} {id : SectionId} {fresh : EntryBuilder}
    (h : ofSection? id = some fresh) : Consuming (builder limits) fresh where
  resumable := resumable_builder limits
  tight := (reads_builder h).tight
  again hready := ((reads_builder h _ _ _).mp (ready_iff.mp hready)).2.2
  waits offset := by
    cases id <;> cases h <;> exact ⟨_, _, rfl⟩

theorem CustomBuilder.consuming (limits : DecoderLimits) (stop : Nat) :
    Consuming (harvest (builder limits stop) freeze {}) {} where
  resumable := (resumable_builder limits stop).harvest _ _
  tight := by
    rw [CustomBuilder.atOnce_harvest]
    refine Reader.Tight.map (fun c more s n hdone hn => ?_) fun s => (s, ({} : CustomBuilder))
    obtain ⟨hstop, -, hform⟩ := (CustomSection.reader_eq_done_iff limits).mp hdone
    rw [Cursor.append_rest, List.take_append_of_le_length hn] at hform
    exact (CustomSection.reader_eq_done_iff limits).mpr ⟨hstop, hn, hform⟩
  again {c a t n} hready := by
    have hdone := ready_iff.mp hready
    rw [CustomBuilder.atOnce_harvest] at hdone
    obtain ⟨s, k, m, -, hpure, -⟩ := Reader.bind_eq_done.mp hdone
    cases hpure
    rfl
  waits offset := ⟨_, _, rfl⟩

namespace DecoderState

/-- How many transitions, from the state on, need no byte. -/
def idle (offset : Nat) : DecoderState → Nat
  | sectionEnd _ => 1
  | skip s => if s.stop ≤ offset then 2 else 0
  | header | sectionStart | entryCount _ | entries .. | startFunction _ | dataCount _ | custom .. => 0

theorem idle_ofSection_le (s : SectionFrame) (offset : Nat) : (ofSection s).idle offset ≤ 2 := by
  obtain ⟨id, start, size⟩ := s
  cases id with
  | element =>
    change (if _ then 2 else 0) ≤ 2
    split <;> omega
  | _ => exact Nat.zero_le _

end DecoderState

namespace Decoder
variable {d d' : Decoder} {c c' : Cursor} {n : Nat}

/-- An entry that is being decoded began afresh and has stopped where the bytes did. -/
def Underway (d : Decoder) (c : Cursor) : Prop :=
  match d.state with
  | .entries s _ entry => ∃ fresh, EntryBuilder.ofSection? s.id = some fresh ∧
      Builder.Underway (EntryBuilder.builder d.limits) fresh entry c
  | .custom s entry => Builder.Underway
      (harvest (CustomBuilder.builder d.limits s.stop) CustomBuilder.freeze {}) {} entry c
  | _ => True

theorem Underway.append (h : d.Underway c) (more : List UInt8) : d.Underway (c.append more) := by
  unfold Underway at h ⊢
  cases hs : d.state with
  | entries s remaining entry =>
    rw [hs] at h
    obtain ⟨fresh, hfresh, hentry⟩ := h
    exact ⟨fresh, hfresh, hentry.append more⟩
  | custom s entry =>
    rw [hs] at h
    exact Builder.Underway.append h more
  | _ => trivial

/-- A section that has just begun. -/
theorem underway_ofSection (d : Decoder) (s : SectionFrame) (c : Cursor) :
    (d.goTo (.ofSection s)).Underway c := by
  obtain ⟨id, start, size⟩ := s
  cases id with
  | custom => exact .inl rfl
  | _ => trivial

/-- A transition is paid for by the bytes that it uses and by what was left over; where it waits for
input, nothing is left over. -/
def Charged (d : Decoder) (c : Cursor) : Pass Decoder Unit → Prop
  | .ready () d' n => d'.state.idle (c.offset + n) + 1 ≤ d.state.idle c.offset + 2 * n ∧
      d'.Underway (c.drop n)
  | .paused d' n => d'.state.idle (c.offset + n) = 0 ∧ d'.Underway (c.drop n)
  | .failed .. => True

/-- One byte pays for its own transition and for one behind it. -/
theorem charged_of_pos (hpos : 0 < n) (hidle : d'.state.idle (c.offset + n) ≤ 1)
    (h : d'.Underway (c.drop n)) : Charged d c (.ready () d' n) := ⟨by omega, h⟩

/-- The decoder waits where it is. -/
theorem charged_waiting (hidle : d.state.idle c.offset = 0) (h : d.Underway c) :
    Charged d c (.paused d 0) := ⟨hidle, h⟩

theorem charged_header (hs : d.state = .header) (h : d.Underway c) :
    Charged d c (d.stepHeader c) := by
  unfold stepHeader
  split
  · next found n hread =>
    split
    · exact charged_of_pos (rest_ne_nil_of_bytes (by decide) hread).1 (Nat.zero_le _) trivial
    · trivial
  · exact charged_waiting (by rw [hs]; rfl) h
  · trivial

theorem charged_sectionStart (hs : d.state = .sectionStart) (h : d.Underway c) :
    Charged d c (d.stepSectionStart c) := by
  unfold stepSectionStart
  split
  · next id size n hread =>
    split
    · next id _ =>
      have hused := SectionFrame.two_le_of_headReader hread
      have hidle := DecoderState.idle_ofSection_le ⟨id, c.offset + n, size⟩ (c.offset + n)
      refine ⟨?_, underway_ofSection _ _ _⟩
      simp only [goTo]
      omega
    · trivial
  · exact charged_waiting (by rw [hs]; rfl) h
  · trivial

theorem charged_entryCount {s : SectionFrame} (hs : d.state = .entryCount s) (h : d.Underway c) :
    Charged d c (d.stepEntryCount s c) := by
  unfold stepEntryCount
  split
  · next count n hread =>
    have hpos := Reader.pos_of_u32 hread
    split
    · trivial
    · split
      · next entry hentry =>
        split
        · exact charged_of_pos hpos (Nat.le_refl _) trivial
        · exact charged_of_pos hpos (Nat.zero_le _) ⟨entry, hentry, .inl rfl⟩
      · exact charged_of_pos hpos (Nat.le_refl _) trivial
  · exact charged_waiting (by rw [hs]; rfl) h
  · trivial

theorem charged_entries {s : SectionFrame} {remaining : Nat} {entry : EntryBuilder}
    (hs : d.state = .entries s remaining entry) (h : d.Underway c) :
    Charged d c (d.stepEntries s remaining entry c) := by
  unfold Underway at h
  rw [hs] at h
  obtain ⟨fresh, hfresh, hentry⟩ := h
  unfold stepEntries
  split
  · next e entry' n hready =>
    obtain ⟨hpos, rfl⟩ := (EntryBuilder.consuming hfresh).of_ready hentry hready
    dsimp only
    split
    · trivial
    · split
      · exact charged_of_pos hpos (Nat.le_refl _) trivial
      · exact charged_of_pos hpos (Nat.zero_le _) ⟨entry', hfresh, .inl rfl⟩
  · next entry' n hpaused =>
    dsimp only
    split
    · trivial
    · exact ⟨rfl, fresh, hfresh, (EntryBuilder.consuming hfresh).of_paused hentry hpaused⟩
  · trivial

theorem charged_number {s : SectionFrame} {entry : UInt32 → Entry}
    (hidle : d.state.idle c.offset = 0) (h : d.Underway c) : Charged d c (d.stepNumber s entry c) := by
  unfold stepNumber
  split
  · next value n hread => exact charged_of_pos (Reader.pos_of_u32 hread) (Nat.le_refl _) trivial
  · exact charged_waiting hidle h
  · trivial

theorem charged_custom {s : SectionFrame} {entry : CustomBuilder} (hs : d.state = .custom s entry)
    (h : d.Underway c) : Charged d c (d.stepCustom s entry c) := by
  unfold Underway at h
  rw [hs] at h
  have hconsuming := CustomBuilder.consuming d.limits s.stop
  unfold stepCustom
  split
  · next e entry' n hready =>
    exact charged_of_pos (hconsuming.of_ready h hready).1 (Nat.le_refl _) trivial
  · next entry' n hpaused => exact ⟨rfl, hconsuming.of_paused h hpaused⟩
  · trivial

/-- To pass over a section that is empty uses no byte, and neither does its end. -/
theorem charged_skip {s : SectionFrame} (hs : d.state = .skip s) (h : d.Underway c) :
    Charged d c (d.stepSkip s c) := by
  unfold stepSkip
  dsimp only
  split
  · next hshort =>
    have hidle (n : Nat) (hn : c.offset + n < s.stop) : d.state.idle (c.offset + n) = 0 := by
      rw [hs]
      exact if_neg (Nat.not_le_of_lt hn)
    split
    · exact charged_waiting (hidle 0 (by omega)) h
    · next hsome =>
      refine charged_of_pos (Nat.pos_of_ne_zero hsome) ?_ (by rw [Underway, hs]; trivial)
      rw [hidle _ hshort]
      exact Nat.zero_le 1
  · next hreached =>
    refine ⟨?_, trivial⟩
    simp only [hs, goTo, DecoderState.idle]
    split <;> omega

theorem charged_sectionEnd {s : SectionFrame} (hs : d.state = .sectionEnd s) :
    Charged d c (d.stepSectionEnd s c) := by
  unfold stepSectionEnd
  split
  · refine ⟨?_, trivial⟩
    rw [hs]
    exact Nat.le_refl 1
  · trivial

theorem charged_step (h : d.Underway c) : Charged d c (d.step c) := by
  cases hs : d.state with
  | header =>
    rw [step_header hs]
    exact charged_header hs h
  | sectionStart =>
    rw [step_sectionStart hs]
    exact charged_sectionStart hs h
  | entryCount s =>
    rw [step_entryCount hs]
    exact charged_entryCount hs h
  | entries s remaining entry =>
    rw [step_entries hs]
    exact charged_entries hs h
  | startFunction s =>
    rw [step_startFunction hs]
    exact charged_number (by rw [hs]; rfl) h
  | dataCount s =>
    rw [step_dataCount hs]
    exact charged_number (by rw [hs]; rfl) h
  | custom s entry =>
    rw [step_custom hs]
    exact charged_custom hs h
  | skip s =>
    rw [step_skip hs]
    exact charged_skip hs h
  | sectionEnd s =>
    rw [step_sectionEnd hs]
    exact charged_sectionEnd hs

/-! ## Runs -/

/-- Transitions in a row are paid by the bytes that they use. -/
theorem charged_steps? {k : Nat} (h : d.Underway c) (hsteps : d.steps? c k = some (d', c')) :
    d'.state.idle c'.offset + k ≤ d.state.idle c.offset + 2 * (c'.offset - c.offset) ∧
      d'.Underway c' := by
  -- what is left over in front of the rest is what the first transition leaves over
  induction k generalizing d c with
  | zero =>
    cases hsteps
    exact ⟨Nat.le_add_right .., h⟩
  | succ k ih =>
    obtain ⟨d₁, n, hstep, hrest⟩ := steps?_succ_eq_some hsteps
    have hcharged := charged_step h
    rw [hstep] at hcharged
    obtain ⟨hfirst, hnext⟩ := hcharged
    obtain ⟨hidle, hunderway⟩ := ih hnext hrest
    obtain ⟨m, rfl, -⟩ := run_of_steps? hrest
    simp only [Cursor.drop_offset] at hidle ⊢
    exact ⟨by omega, hunderway⟩

/-- The transitions come to an end. -/
theorem exists_steps? (d : Decoder) (c : Cursor) : ∃ k d' c', d.steps? c k = some (d', c') ∧
    ∀ d'' n, d'.step c' ≠ .ready () d'' n := by
  cases hstep : d.step c with
  | ready a d₁ n =>
    obtain ⟨k, d', c', hsteps, hlast⟩ := exists_steps? d₁ (c.drop n)
    exact ⟨k + 1, d', c', by rw [steps?, hstep]; exact hsteps, hlast⟩
  | paused d₁ n => exact ⟨0, d, c, rfl, fun d'' m h => by rw [hstep] at h; cases h⟩
  | failed e d₁ n => exact ⟨0, d, c, rfl, fun d'' m h => by rw [hstep] at h; cases h⟩
termination_by measure d c
decreasing_by exact measure_lt hstep

/-- Where a run waits for more input, no transition is left that needs none. -/
theorem idle_run (h : d.Underway c) (hrun : d.run 0 c = (.ok (), d', n)) :
    d'.state.idle (c.offset + n) = 0 ∧ d'.Underway (c.drop n) := by
  -- only the last pass of the run can wait, and what is underway comes through those before it
  obtain ⟨k, d₁, c₁, hsteps, hlast⟩ := exists_steps? d c
  have hcharged := charged_step (charged_steps? h hsteps).2
  obtain ⟨m, rfl, hrest⟩ := run_of_steps? hsteps
  rw [hrest] at hrun
  cases hstep : d₁.step (c.drop m) with
  | ready a d₂ l => exact absurd hstep (hlast d₂ l)
  | paused d₂ l =>
    rw [hstep] at hcharged
    rw [run_of_paused hstep, Nat.zero_add] at hrun
    cases hrun
    rw [← Nat.add_assoc, ← Cursor.drop_drop]
    exact hcharged
  | failed e d₂ l =>
    rw [run_of_failed hstep] at hrun
    cases hrun

end Decoder

namespace Decoder
variable {σ : Type} [Source σ] {limits : DecoderLimits} {d d' : Decoder} {s s' : σ}

theorem snd_advance {result : Except Error Unit} {n : Nat}
    (h : d.run 0 (Source.ahead s) = (result, d', n)) :
    (d.advance s).2 = (d', Source.consume s n) := by
  cases result with
  | error e => simp only [advance, h]
  | ok =>
    simp only [advance, h]
    split <;> rfl

theorem run_of_advance {status : Status} (h : d.advance s = (.ok status, d', s')) :
    ∃ n, d.run 0 (Source.ahead s) = (.ok (), d', n) ∧ s' = Source.consume s n := by
  obtain ⟨⟨result, d₁, n⟩, hrun⟩ : ∃ r, d.run 0 (Source.ahead s) = r := ⟨_, rfl⟩
  have hend := snd_advance hrun
  rw [h] at hend
  cases hend
  cases result with
  | ok => exact ⟨n, hrun, rfl⟩
  | error e =>
    simp only [advance, hrun] at h
    cases h

/-- A decoder in front of a source: new, or left there by calls over the source that were accepted. To
the source bytes may have been appended since. -/
inductive Resumed (limits : DecoderLimits) : Decoder → σ → Prop
  | new (s : σ) : Resumed limits (new limits) s
  | advance {d d' : Decoder} {s s' t : σ} {status : Status} (h : Resumed limits d s)
      (hok : d.advance s = (.ok status, d', s')) (more : List UInt8)
      (ht : Source.ahead t = (Source.ahead s').append more) : Resumed limits d' t

variable [LawfulSource σ]

theorem Resumed.idle (h : Resumed limits d s) :
    d.state.idle (Source.ahead s).offset = 0 ∧ d.Underway (Source.ahead s) := by
  induction h with
  | new s => exact ⟨rfl, trivial⟩
  | advance _ hok more ht ih =>
    obtain ⟨n, hrun, rfl⟩ := run_of_advance hok
    obtain ⟨hidle, hunderway⟩ := idle_run ih.2 hrun
    rw [ht, LawfulSource.ahead_consume]
    exact ⟨hidle, hunderway.append more⟩

/-- A call makes some transitions and stops at one that is not ready. There are at most two of them
for every byte that the call uses. -/
theorem advance_ends (limits : DecoderLimits) (d : Decoder) (s : σ) (h : Resumed limits d s) :
    ∃ k d' c', d.steps? (Source.ahead s) k = some (d', c') ∧
      (∀ d'' n, d'.step c' ≠ .ready () d'' n) ∧ (d.advance s).2.1 = (d'.step c').state ∧
      k ≤ 2 * (Source.offset (d.advance s).2.2 - Source.offset s) := by
  obtain ⟨k, d', c', hsteps, hlast⟩ := exists_steps? d (Source.ahead s)
  obtain ⟨hidle, hunderway⟩ := h.idle
  have hpaid := (charged_steps? hunderway hsteps).1
  rw [hidle] at hpaid
  obtain ⟨n, rfl, hrun⟩ := run_of_steps? hsteps
  obtain ⟨⟨result, d₁, m⟩, hrest⟩ : ∃ r, d'.run 0 ((Source.ahead s).drop n) = r := ⟨_, rfl⟩
  rw [hrest] at hrun
  rw [snd_advance hrun]
  refine ⟨k, d', _, hsteps, hlast, ?_, ?_⟩
  · cases hstep : d'.step ((Source.ahead s).drop n) with
    | ready a d'' l => exact absurd hstep (hlast d'' l)
    | paused d'' l =>
      rw [run_of_paused hstep] at hrest
      cases hrest
      rfl
    | failed e d'' l =>
      rw [run_of_failed hstep] at hrest
      cases hrest
      rfl
  · simp only [Source.offset, LawfulSource.ahead_consume, Cursor.drop_offset] at hpaid ⊢
    omega

/-- The second byte of an empty section comes in another chunk. The section is passed over in three
transitions, two of which use no byte. -/
theorem advance_ends_empty :
    let d : Decoder := ⟨{}, .sectionStart, .empty⟩
    let s : ChunkStream := ⟨8, [9, 0], 0⟩
    (new {}).advance (ChunkStream.empty.push (header ++ [9])) =
        (.ok .needMoreInput, d, ⟨0, header ++ [9], 8⟩) ∧
      d.steps? (Source.ahead s) 3 = some (d, ⟨10, []⟩) ∧
      ∃ k d' c', d.steps? (Source.ahead s) k = some (d', c') ∧
        (∀ d'' n, d'.step c' ≠ .ready () d'' n) ∧ k ≤ 2 * 2 := by
  intro d s
  have hfirst : (new {}).advance (ChunkStream.empty.push (header ++ [9])) =
      (.ok .needMoreInput, d, ⟨0, header ++ [9], 8⟩) := by cbv
  have hcall : d.advance s = (.ok .sectionBoundary, d, ⟨8, [9, 0], 2⟩) := by cbv
  have hresumed : Resumed {} d s := .advance (.new _) hfirst [0] rfl
  obtain ⟨k, d', c', hsteps, hlast, -, hle⟩ := advance_ends {} d s hresumed
  rw [hcall] at hle
  exact ⟨hfirst, by cbv, k, d', c', hsteps, hlast, hle⟩

end Decoder
end WasmStream
