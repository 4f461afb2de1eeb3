import WasmStream.Proofs.BuilderSchedule

/-! Code bodies stand on their own. Once the size of a body and that many bytes are there, the bytes
decide: they are the locals and the instructions of one body, or they are refused. What stands behind
them is not looked at, and nothing more is asked for. -/
namespace WasmStream
open Reader Grammar Builder

namespace CodeBody
variable {limits : DecoderLimits} {size : UInt32} {c : Cursor} {offset : Nat}
variable {locals : List ValueType} {body : Expression} {w more : List UInt8}

/-- The groups of the locals and one expression, and nothing else. The locals are those of the groups in
order, as many as the limit allows. -/
def ContentsForm (limits : DecoderLimits) (locals : List ValueType) (body : Expression)
    (w : List UInt8) : Prop :=
  ∃ u v, LocalsBuilder.Form limits locals u ∧ body.Form limits v ∧ w = u ++ v

/-! ## The contents -/

theorem contents_iff : contents limits size ⟨offset, w⟩ = .ok (locals, body) ↔
    ContentsForm limits locals body w := contents_eq_ok_iff limits

theorem contents_of_paused {b : LocalsBuilder} {n : Nat}
    (h : LocalsBuilder.builder limits {} c = .paused b n) :
    contents limits size c = .error (.unexpectedElement "end of code body" (c.offset + n)) := by
  simp only [contents, h]

theorem contents_of_failed {e : Error} {b : LocalsBuilder} {n : Nat}
    (h : LocalsBuilder.builder limits {} c = .failed e b n) : contents limits size c = .error e := by
  simp only [contents, h]

theorem contents_of_ready {b : LocalsBuilder} {n : Nat}
    (h : LocalsBuilder.builder limits {} c = .ready () b n) (hfreeze : b.freeze = .ok locals) :
    contents limits size c = match Expression.reader limits (c.drop n) with
      | .fail e => .error e
      | .needMore => .error (.unexpectedElement "end of code body" (c.offset + c.rest.length))
      | .done body m =>
        if n + m < c.rest.length then .error (.sectionSizeMismatch 10 size (n + m))
        else .ok (locals, body) := by
  simp only [contents, h, hfreeze]
  rfl

/-- The start of a body, cut before its end, is waited for nowhere: it lacks an element, and the place
where that is missed is in it or right behind it. -/
theorem contents_of_cut (size : UInt32) (c : Cursor)
    (h : ContentsForm limits locals body (c.rest ++ more)) (hmore : more ≠ []) :
    ∃ place, c.offset ≤ place ∧ place ≤ c.offset + c.rest.length ∧
      contents limits size c = .error (.unexpectedElement "end of code body" place) := by
  have hwhole : contents limits size (c.append more) = .ok (locals, body) :=
    (contents_eq_ok_iff limits).mpr h
  obtain ⟨hused, hresume⟩ := LocalsBuilder.resumable_builder limits {} c
  have hlocals := hresume more
  cases hc : LocalsBuilder.builder limits {} c with
  | failed e b n =>
    rw [hc, resume_failed] at hlocals
    rw [contents_of_failed hlocals] at hwhole
    cases hwhole
  | paused b n =>
    rw [hc] at hused
    exact ⟨c.offset + n, Nat.le_add_right _ _, Nat.add_le_add_left hused _, contents_of_paused hc⟩
  | ready _ b n =>
    rw [hc] at hlocals hused
    obtain ⟨locals', hfreeze⟩ := LocalsBuilder.freeze_of_ready limits hc
    have hn : n ≤ c.rest.length := hused
    rw [contents_of_ready hlocals hfreeze, Cursor.drop_append hn] at hwhole
    have hstable := Expression.stable_reader limits
    cases hbody : Expression.reader limits (c.drop n) with
    | fail e =>
      rw [hstable.fail hbody more] at hwhole
      cases hwhole
    | needMore =>
      refine ⟨c.offset + c.rest.length, Nat.le_add_right _ _, Nat.le_refl _, ?_⟩
      rw [contents_of_ready hc hfreeze, hbody]
    | done body' m =>
      -- an expression that is complete within `c` leaves `more` over
      obtain ⟨hm, hagain⟩ := hstable.done hbody
      have hleft : n + m < (c.append more).rest.length := by
        have hpos := List.length_pos_iff.mpr hmore
        rw [Cursor.drop_rest, List.length_drop] at hm
        rw [Cursor.append_rest, List.length_append]
        omega
      rw [hagain more] at hwhole
      simp only [if_pos hleft] at hwhole
      cases hwhole

/-- What stands behind a body inside its bytes is too much. -/
theorem contents_of_surplus (h : ContentsForm limits locals body w) (hmore : more ≠ []) :
    contents limits size ⟨offset, w ++ more⟩ = .error (.sectionSizeMismatch 10 size w.length) := by
  obtain ⟨u, v, hlocals, hbody, rfl⟩ := h
  have hleft : (u ++ v).length < (u ++ v ++ more).length := by
    have hpos := List.length_pos_iff.mpr hmore
    simp only [List.length_append]
    omega
  rw [contents_of_forms limits hlocals hbody, if_pos hleft]

theorem category_of_contents {e : Error} (h : contents limits size c = .error e) :
    e.category = .parse := by
  have halike := alike_contents (k := 0) limits size c
  rw [Cursor.moved_zero, h] at halike
  cases halike with
  | error h => exact h.1

/-! ## One pass over an entry -/

section Size
variable {t rest : List UInt8} (hsize : U32 size t)
include hsize

theorem reader_of_size (offset : Nat) : reader limits ⟨offset, t ++ rest⟩ =
    if limits.maxPayloadSize < size then
      .fail (.limitExceeded "code body size" limits.maxPayloadSize.toNat offset)
    else if size.toNat ≤ rest.length then
      match contents limits size ⟨offset + t.length, rest.take size.toNat⟩ with
      | .ok d => .done ⟨size, d.1, d.2⟩ (t.length + size.toNat)
      | .error e => .fail e
    else .needMore := by
  have hread : Reader.u32 ⟨offset, t ++ rest⟩ = .done size t.length := reads_u32.complete hsize offset
  have hdrop : (Cursor.mk offset (t ++ rest)).drop t.length = ⟨offset + t.length, rest⟩ := by
    simp [Cursor.drop]
  simp only [reader, Reader.bind_run, Reader.offset, Cursor.drop_zero, hread, hdrop]
  by_cases hlimit : limits.maxPayloadSize < size
  · simp only [if_pos hlimit]
    rfl
  · simp only [if_neg hlimit]
    by_cases hall : size.toNat ≤ rest.length
    · have hbytes : Reader.bytes size.toNat ⟨offset + t.length, rest⟩ =
          .done (rest.take size.toNat) size.toNat := bytes_of_le hall
      simp only [Reader.bind_run, Reader.offset, Cursor.drop_zero, hbytes, if_pos hall]
      cases contents limits size ⟨offset + t.length, rest.take size.toNat⟩ with
      | ok d => simp only [Reader.ofExcept, Reader.pure_run, Outcome.after, Nat.zero_add, Nat.add_zero]
      | error e => rfl
    · have hbytes : Reader.bytes size.toNat ⟨offset + t.length, rest⟩ = .needMore :=
        bytes_of_not_le hall
      simp only [Reader.bind_run, Reader.offset, Cursor.drop_zero, hbytes, if_neg hall]
      rfl

end Size

end CodeBody

namespace CodeBuilder
variable {limits : DecoderLimits} {size : UInt32} {start : Nat} {rest : List UInt8}

/-- What decoding an entry comes to whose size is known: the body begins at `start`, and `rest` is what
there is from there on. The decoding has given the answer, left the builder `b`, and has `ahead` before
it. -/
structure SelfContained (limits : DecoderLimits) (size : UInt32) (start : Nat) (rest : List UInt8)
    (answer : Except Error Bool) (b : CodeBuilder) (ahead : Cursor) : Prop where
  ready_iff : answer = .ok true ↔ size ≤ limits.maxPayloadSize ∧ size.toNat ≤ rest.length ∧
    ∃ locals body, CodeBody.ContentsForm limits locals body (rest.take size.toNat)
  entry : answer = .ok true → ∀ locals body,
    CodeBody.ContentsForm limits locals body (rest.take size.toNat) →
      b.freeze = .ok ⟨size, locals, body⟩
  consumed : answer = .ok true → ahead = ⟨start + size.toNat, rest.drop size.toNat⟩
  waits_iff : answer = .ok false ↔ size ≤ limits.maxPayloadSize ∧ rest.length < size.toNat
  refused : (limits.maxPayloadSize < size ∨ size.toNat ≤ rest.length ∧
      ¬∃ locals body, CodeBody.ContentsForm limits locals body (rest.take size.toNat)) →
    ∃ e, answer = .error e ∧ e.category = .parse
  cut : size ≤ limits.maxPayloadSize → size.toNat ≤ rest.length → ∀ locals body more, more ≠ [] →
    CodeBody.ContentsForm limits locals body (rest.take size.toNat ++ more) →
      ∃ place, start ≤ place ∧ place ≤ start + size.toNat ∧
        answer = .error (.unexpectedElement "end of code body" place)
  surplus : size ≤ limits.maxPayloadSize → size.toNat ≤ rest.length → ∀ locals body w more, more ≠ [] →
    CodeBody.ContentsForm limits locals body w → rest.take size.toNat = w ++ more →
      answer = .error (.sectionSizeMismatch 10 size w.length)

variable {answer : Except Error Bool} {b : CodeBuilder} {ahead : Cursor}

/-- A size above the limit is refused as soon as it is known. -/
theorem selfContained_of_large (hlarge : limits.maxPayloadSize < size) {e : Error}
    (hparse : e.category = .parse) : SelfContained limits size start rest (.error e) b ahead where
  ready_iff := iff_of_false nofun fun h => UInt32.not_lt.mpr h.1 hlarge
  entry := nofun
  consumed := nofun
  waits_iff := iff_of_false nofun fun h => UInt32.not_lt.mpr h.1 hlarge
  refused _ := ⟨e, rfl, hparse⟩
  cut hle := absurd hlarge (UInt32.not_lt.mpr hle)
  surplus hle := absurd hlarge (UInt32.not_lt.mpr hle)

theorem selfContained_of_waiting (hle : size ≤ limits.maxPayloadSize)
    (hshort : rest.length < size.toNat) :
    SelfContained limits size start rest (.ok false) b ahead where
  ready_iff := iff_of_false nofun fun h => Nat.not_le_of_lt hshort h.2.1
  entry := nofun
  consumed := nofun
  waits_iff := iff_of_true rfl ⟨hle, hshort⟩
  refused h := by
    obtain hlarge | ⟨hall, -⟩ := h
    · exact absurd hlarge (UInt32.not_lt.mpr hle)
    · exact absurd hall (Nat.not_le_of_lt hshort)
  cut _ hall := absurd hall (Nat.not_le_of_lt hshort)
  surplus _ hall := absurd hall (Nat.not_le_of_lt hshort)

theorem selfContained_of_accepted (hle : size ≤ limits.maxPayloadSize)
    (hall : size.toNat ≤ rest.length) {d : List ValueType × Expression}
    (hd : CodeBody.contents limits size ⟨start, rest.take size.toNat⟩ = .ok d)
    (hfreeze : b.freeze = .ok ⟨size, d.1, d.2⟩) :
    SelfContained limits size start rest (.ok true) b
      ⟨start + size.toNat, rest.drop size.toNat⟩ where
  ready_iff := iff_of_true rfl ⟨hle, hall, d.1, d.2, CodeBody.contents_iff.mp hd⟩
  entry _ locals body hform := by
    rw [CodeBody.contents_iff.mpr hform] at hd
    cases hd
    exact hfreeze
  consumed _ := rfl
  waits_iff := iff_of_false nofun fun h => Nat.not_lt_of_le hall h.2
  refused h := by
    obtain hlarge | ⟨-, hnone⟩ := h
    · exact absurd hlarge (UInt32.not_lt.mpr hle)
    · exact absurd ⟨d.1, d.2, CodeBody.contents_iff.mp hd⟩ hnone
  cut _ _ locals body more hmore hform := by
    obtain ⟨place, -, -, herror⟩ :=
      CodeBody.contents_of_cut size ⟨start, rest.take size.toNat⟩ hform hmore
    rw [hd] at herror
    cases herror
  surplus _ _ locals body w more hmore hform heq := by
    rw [heq, CodeBody.contents_of_surplus hform hmore] at hd
    cases hd

theorem selfContained_of_rejected (hall : size.toNat ≤ rest.length) {e : Error}
    (he : CodeBody.contents limits size ⟨start, rest.take size.toNat⟩ = .error e) :
    SelfContained limits size start rest (.error e) b ahead where
  ready_iff := by
    refine iff_of_false nofun ?_
    rintro ⟨-, -, locals, body, hform⟩
    rw [CodeBody.contents_iff.mpr hform] at he
    cases he
  entry := nofun
  consumed := nofun
  waits_iff := iff_of_false nofun fun h => Nat.not_lt_of_le hall h.2
  refused _ := ⟨e, rfl, CodeBody.category_of_contents he⟩
  cut _ _ locals body more hmore hform := by
    obtain ⟨place, hstart, hend, herror⟩ :=
      CodeBody.contents_of_cut size ⟨start, rest.take size.toNat⟩ hform hmore
    rw [he] at herror
    cases herror
    rw [List.length_take_of_le hall] at hend
    exact ⟨place, hstart, hend, rfl⟩
  surplus _ _ locals body w more hmore hform heq := by
    rw [heq, CodeBody.contents_of_surplus hform hmore] at he
    cases he
    rfl

/-- What decoding an entry comes to of which `bytes` are there, from its first byte at `offset` on: it is
not ready before it has found a size, and from then on the bytes behind that decide alone. -/
structure Decided (limits : DecoderLimits) (offset : Nat) (bytes : List UInt8)
    (answer : Except Error Bool) (b : CodeBuilder) (ahead : Cursor) : Prop where
  sized : answer = .ok true → ∃ size t rest, U32 size t ∧ bytes = t ++ rest
  contained : ∀ size t rest, U32 size t → bytes = t ++ rest →
    SelfContained limits size (offset + t.length) rest answer b ahead

theorem fresh_matches (limits : DecoderLimits) (c : Cursor) :
    Matches freeze (builder limits {} c) (CodeBody.reader limits c) :=
  matches_of_harvest (atOnce_harvest limits) (freeze_of_ready limits) c

theorem sized_of_ready {c : Cursor} (h : (builder limits {} c).isReady = .ok true) :
    ∃ size t rest, U32 size t ∧ c.rest = t ++ rest := by
  have hmatches := fresh_matches limits c
  generalize builder limits {} c = pass at hmatches h
  generalize hreader : CodeBody.reader limits c = o at hmatches
  cases hmatches with
  | @ready b n entry _ =>
    obtain ⟨-, t, u, v, hsize, -, -, -, -, htake⟩ := (CodeBody.reads_reader limits c entry n).mp hreader
    refine ⟨entry.size, t, u ++ v ++ c.rest.drop n, hsize, ?_⟩
    rw [← List.append_assoc, ← htake, List.take_append_drop]
  | paused b n => cases h
  | failed e b n => cases h

theorem selfContained_of_fresh (limits : DecoderLimits) {t : List UInt8} (hsize : U32 size t)
    (offset : Nat) (rest : List UInt8) :
    let pass := builder limits {} ⟨offset, t ++ rest⟩
    SelfContained limits size (offset + t.length) rest pass.isReady pass.state
      ((Cursor.mk offset (t ++ rest)).drop pass.used) := by
  have hmatches := fresh_matches limits ⟨offset, t ++ rest⟩
  rw [CodeBody.reader_of_size hsize] at hmatches
  generalize builder limits {} ⟨offset, t ++ rest⟩ = pass at hmatches ⊢
  by_cases hlarge : limits.maxPayloadSize < size
  · rw [if_pos hlarge] at hmatches
    cases hmatches with
    | failed e b n => exact selfContained_of_large hlarge rfl
  · have hle : size ≤ limits.maxPayloadSize := UInt32.not_lt.mp hlarge
    rw [if_neg hlarge] at hmatches
    by_cases hall : size.toNat ≤ rest.length
    · rw [if_pos hall] at hmatches
      cases hc : CodeBody.contents limits size ⟨offset + t.length, rest.take size.toNat⟩ with
      | ok d =>
        rw [hc] at hmatches
        cases hmatches with
        | ready hfreeze =>
          have hahead : (Cursor.mk offset (t ++ rest)).drop (t.length + size.toNat) =
              ⟨offset + t.length + size.toNat, rest.drop size.toNat⟩ := by
            simp [Cursor.drop, Nat.add_assoc]
          dsimp only [Pass.used]
          rw [hahead]
          exact selfContained_of_accepted hle hall hc hfreeze
      | error e =>
        rw [hc] at hmatches
        cases hmatches with
        | failed e b n => exact selfContained_of_rejected hall hc
    · rw [if_neg hall] at hmatches
      cases hmatches with
      | paused b n => exact selfContained_of_waiting hle (Nat.lt_of_not_le hall)

/-- One pass of a fresh builder over whatever source. -/
theorem decided_run (limits : DecoderLimits) {τ : Type} [Source τ] [LawfulSource τ] (source : τ) :
    let (pass, after) := (builder limits).run {} source
    Decided limits (Source.offset source) (Source.peek source) pass.isReady pass.state
      (Source.ahead after) where
  sized := sized_of_ready
  contained size t rest hsize hpeek := by
    have hahead : Source.ahead source = ⟨Source.offset source, t ++ rest⟩ := by
      rw [← hpeek]
      rfl
    have hfresh := selfContained_of_fresh limits hsize (Source.offset source) rest
    rw [← hahead] at hfresh
    simp only [LawfulSource.ahead_consume]
    exact hfresh

/-- However an entry comes to a fresh builder, all at once from any source or in chunks with decodings
anywhere in between, its locals and its instructions are read from as many bytes as its size says, and
from nothing else. -/
theorem code_self_contained (limits : DecoderLimits) :
    (∀ {τ : Type} [Source τ] [LawfulSource τ] (source : τ),
      let (pass, after) := (builder limits).run {} source
      Decided limits (Source.offset source) (Source.peek source) pass.isReady pass.state
        (Source.ahead after)) ∧
    ∀ (s : ChunkStream) (events : List Event),
      ((Progress.start {} s).run (builder limits) events).Unfailed →
      let now := (Progress.start {} s).run (builder limits) (events ++ [.decode])
      ∃ answer, now.answers.getLast? = some answer ∧
        Decided limits (Source.offset s) (Source.peek s ++ pushed events) answer now.state
          (Source.ahead now.stream) := by
  refine ⟨decided_run limits, fun s events hunfailed => ?_⟩
  obtain ⟨used, hstep⟩ := (Progress.InStep.start (builder limits) {} s).run (completes limits) trivial
    hunfailed
  obtain ⟨hanswer, hstate, hahead⟩ := hstep.resumed
  have hnow : (Progress.start {} s).run (builder limits) (events ++ [.decode]) =
      ((Progress.start {} s).run (builder limits) events).perform (builder limits) .decode :=
    Progress.run_append _ _ _
  rw [hnow]
  refine ⟨_, hanswer, ?_⟩
  rw [hstate, hahead]
  exact decided_run limits (Slice.ofBytes (Source.peek s ++ pushed events) (Source.offset s))

/-- Two groups, the first without slots, and no instructions. The size is written in two bytes, and a
byte of the next entry is there already; the second time the entry comes in two chunks. -/
theorem code_self_contained_padded :
    (let (pass, after) := (builder {}).run {}
      (Slice.ofBytes [0x86, 0x00, 0x02, 0x00, 0x7F, 0x02, 0x7E, 0x0B, 0xAA] 100)
    pass.isReady = .ok true ∧ pass.state.freeze = .ok ⟨6, [.i64, .i64], []⟩ ∧
      Source.ahead after = ⟨108, [0xAA]⟩) ∧
    let now := (Progress.start {} ChunkStream.empty).run (builder {})
      [.push [0x86, 0x00, 0x02], .decode, .push [0x00, 0x7F, 0x02, 0x7E, 0x0B, 0xAA], .decode]
    now.answers.getLast? = some (.ok true) ∧ now.state.freeze = .ok ⟨6, [.i64, .i64], []⟩ ∧
      Source.ahead now.stream = ⟨8, [0xAA]⟩ := by
  have hsize : U32 6 [0x86, 0x00] := ((reads_u32 ⟨0, [0x86, 0x00]⟩ 6 2).mp rfl).2
  have hnone : U32 0 [0x00] := @Leb128.Unsigned.last 32 0 (by decide) (by decide) (by decide)
  have htwo : U32 2 [0x02] := @Leb128.Unsigned.last 32 2 (by decide) (by decide) (by decide)
  have hfirst : LocalsBuilder.GroupForm (0, .i32) [0x00, 0x7F] := ⟨_, hnone, rfl⟩
  have hsecond : LocalsBuilder.GroupForm (2, .i64) [0x02, 0x7E] := ⟨_, htwo, rfl⟩
  have hgroups := Many.cons hfirst (Many.cons hsecond .nil)
  have hform : CodeBody.ContentsForm {} [.i64, .i64] [] [0x02, 0x00, 0x7F, 0x02, 0x7E, 0x0B] :=
    ⟨[0x02, 0x00, 0x7F, 0x02, 0x7E], [0x0B],
      ⟨_, ⟨2, _, _, htwo, rfl, hgroups, rfl⟩, rfl, by decide⟩,
      ⟨⟨[], .nil, rfl⟩, ⟨rfl, trivial⟩, Nat.zero_le _⟩, rfl⟩
  obtain ⟨hsource, hstream⟩ := code_self_contained {}
  constructor
  · have hdecided := hsource
      (Slice.ofBytes [0x86, 0x00, 0x02, 0x00, 0x7F, 0x02, 0x7E, 0x0B, 0xAA] 100)
    have h := hdecided.contained 6 [0x86, 0x00] _ hsize rfl
    have hready := h.ready_iff.mpr ⟨by decide, by decide, _, _, hform⟩
    exact ⟨hready, h.entry hready _ _ hform, h.consumed hready⟩
  · have hunfailed : ((Progress.start {} ChunkStream.empty).run (builder {})
        [.push [0x86, 0x00, 0x02], .decode, .push [0x00, 0x7F, 0x02, 0x7E, 0x0B, 0xAA]]).Unfailed := by
      intro e he
      have hanswers : Except.error e ∈ [Except.ok false] := he
      simp at hanswers
    obtain ⟨answer, hanswer, hdecided⟩ := hstream .empty _ hunfailed
    have h := hdecided.contained 6 [0x86, 0x00] _ hsize rfl
    have hready := h.ready_iff.mpr ⟨by decide, by decide, _, _, hform⟩
    rw [hready] at hanswer
    exact ⟨hanswer, h.entry hready _ _ hform, h.consumed hready⟩

end CodeBuilder
end WasmStream
