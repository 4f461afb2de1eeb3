import WasmStream.Proofs.RunContinuation

/-! Decoding chunk by chunk comes to what decoding all the bytes at once comes to, wherever the bytes
are cut. A decoder that has been fed with some bytes stands where one run over them stops. -/
namespace WasmStream

namespace ChunkStream

theorem ahead_push (s : ChunkStream) (chunk : List UInt8) :
    Source.ahead (s.push chunk) = (Source.ahead s).append chunk := rfl

theorem ahead_consume (s : ChunkStream) (n : Nat) :
    Source.ahead (Source.consume s n) = (Source.ahead s).drop n := by
  simp [Source.ahead, Source.consume, Cursor.drop, Nat.add_assoc]

end ChunkStream

/-- A source that moves past the bytes that are consumed. -/
class LawfulSource (σ : Type) [Source σ] : Prop where
  ahead_consume : ∀ (s : σ) (n : Nat), Source.ahead (Source.consume s n) = (Source.ahead s).drop n

instance : LawfulSource ChunkStream := ⟨ChunkStream.ahead_consume⟩

instance : LawfulSource Slice where
  ahead_consume s n := by simp [Source.ahead, Source.consume, Cursor.drop, Nat.add_assoc]

namespace Decoder

/-- Where the decoder may end when `c` is what it has left. -/
def endsAt (d : Decoder) (c : Cursor) : Bool := d.isAtBoundary && c.rest.isEmpty

/-- The module of a decoder that has `c` left. -/
def finishAt (d : Decoder) (c : Cursor) : Except Error Module :=
  if d.endsAt c then .ok d.module else .error (.truncatedModule d.state.place c.offset)

theorem finish_eq {σ : Type} [Source σ] (d : Decoder) (s : σ) :
    d.finish s = d.finishAt (Source.ahead s) := rfl

theorem finishAt_ok (d : Decoder) (c : Cursor) : (∃ m, d.finishAt c = .ok m) ↔ d.endsAt c = true := by
  unfold finishAt
  split
  · next h => exact ⟨fun _ => h, fun _ => ⟨_, rfl⟩⟩
  · next h => exact ⟨fun ⟨m, hm⟩ => (by cases hm), fun h' => absurd h' h⟩

end Decoder

/-- All the bytes at once, from the first offset on. -/
def Cursor.whole (bytes : List UInt8) : Cursor := ⟨0, bytes⟩

theorem Cursor.whole_append (bytes more : List UInt8) :
    Cursor.whole (bytes ++ more) = (Cursor.whole bytes).append more := rfl

section Whole
variable {limits : DecoderLimits} {bytes : List UInt8} {d : Decoder} {n : Nat}

theorem decodeModule_of_run
    (h : (Decoder.new limits).run 0 (Cursor.whole bytes) = (.ok (), d, n)) :
    decodeModule limits bytes = d.finishAt ((Cursor.whole bytes).drop n) := by
  have hahead : Source.ahead (Slice.ofBytes bytes 0) = Cursor.whole bytes := rfl
  simp only [decodeModule, Decoder.advance, hahead, h, Decoder.finish_eq]
  split
  · next hd =>
    split at hd
    · cases hd
      simp [Decoder.finishAt, Decoder.endsAt, Source.ahead, Source.consume, Slice.ofBytes,
        Cursor.whole]
    · cases hd
      simp [Decoder.finishAt, Decoder.endsAt, Source.ahead, Source.consume, Slice.ofBytes,
        Cursor.whole]
  · next hd => split at hd <;> cases hd

theorem decodeModule_of_run_error {e : Error}
    (h : (Decoder.new limits).run 0 (Cursor.whole bytes) = (.error e, d, n)) :
    decodeModule limits bytes = .error e := by
  have hahead : Source.ahead (Slice.ofBytes bytes 0) = Cursor.whole bytes := rfl
  simp only [decodeModule, Decoder.advance, hahead, h]

/-- Transitions that come to the start of a section, with no bytes left. -/
theorem decodeModule_of_steps? {k offset : Nat} {m : Module}
    (h : (Decoder.new limits).steps? (Cursor.whole bytes) k =
      some (⟨limits, .sectionStart, m⟩, ⟨offset, []⟩)) : decodeModule limits bytes = .ok m := by
  have hlast : (⟨limits, .sectionStart, m⟩ : Decoder).step ⟨offset, []⟩ =
      .paused ⟨limits, .sectionStart, m⟩ 0 := rfl
  obtain ⟨n, hdrop, hrun⟩ := Decoder.run_of_steps? h
  rw [Decoder.run_of_paused hlast] at hrun
  have hend : decodeModule limits bytes = Decoder.finishAt
      ⟨limits, .sectionStart, m⟩ ((Cursor.whole bytes).drop n) := decodeModule_of_run hrun
  rw [hend, ← hdrop]
  rfl

end Whole

namespace StreamingDecoder
variable {limits : DecoderLimits} {bytes chunk : List UInt8} {d d' : StreamingDecoder} {e : Error}

/-- The decoder has been fed with `bytes` in some chunks, none of which failed: it stands where one
run over `bytes` stops. -/
def Fed (limits : DecoderLimits) (bytes : List UInt8) (d : StreamingDecoder) : Prop :=
  ∃ n, (Decoder.new limits).run 0 (Cursor.whole bytes) = (.ok (), d.decoder, n) ∧
    Source.ahead d.stream = (Cursor.whole bytes).drop n

theorem fed_new : Fed limits [] (new limits) :=
  ⟨0, Decoder.run_of_paused (n := 0) rfl 0, rfl⟩

/-- What the run over the next chunk says of one run over all the bytes. -/
theorem Fed.run_append (h : Fed limits bytes d) (chunk : List UInt8) :
    ∃ n, n ≤ bytes.length ∧
      Source.ahead (d.stream.push chunk) = (Cursor.whole (bytes ++ chunk)).drop n ∧
      (Decoder.new limits).run 0 (Cursor.whole (bytes ++ chunk)) =
        Decoder.shift n (d.decoder.run 0 (Source.ahead (d.stream.push chunk))) := by
  obtain ⟨n, hrun, hahead⟩ := h
  obtain ⟨hle, hmore⟩ := Decoder.run_append (Decoder.new limits) (Cursor.whole bytes)
  rw [hrun] at hle hmore
  have hcut : Source.ahead (d.stream.push chunk) = ((Cursor.whole bytes).drop n).append chunk := by
    rw [ChunkStream.ahead_push, hahead]
  refine ⟨n, hle, ?_, ?_⟩
  · rw [hcut, Cursor.whole_append, Cursor.drop_append hle]
  · rw [hcut, Cursor.whole_append]
    exact hmore chunk

/-- The outcome of feeding one chunk, by the run over what is ahead then. -/
theorem feed_run (d : StreamingDecoder) (chunk : List UInt8) :
    (∃ d' n status, d.decoder.run 0 (Source.ahead (d.stream.push chunk)) = (.ok (), d', n) ∧
      d.feed chunk = (.ok status, ⟨Source.consume (d.stream.push chunk) n, d'⟩) ∧
      (status = .sectionBoundary ↔
        d'.endsAt ((Source.ahead (d.stream.push chunk)).drop n) = true)) ∨
    ∃ e d' n, d.decoder.run 0 (Source.ahead (d.stream.push chunk)) = (.error e, d', n) ∧
      d.feed chunk = (.error e, ⟨Source.consume (d.stream.push chunk) n, d'⟩) := by
  obtain ⟨⟨result, d', n⟩, hrun⟩ :
      ∃ r, d.decoder.run 0 (Source.ahead (d.stream.push chunk)) = r := ⟨_, rfl⟩
  cases result with
  | ok =>
    left
    by_cases hend : d'.endsAt ((Source.ahead (d.stream.push chunk)).drop n) = true
    · refine ⟨d', n, .sectionBoundary, hrun, ?_, fun _ => hend, fun _ => rfl⟩
      rw [← ChunkStream.ahead_consume] at hend
      simp only [feed, Decoder.advance, hrun]
      rw [if_pos (by exact hend)]
    · refine ⟨d', n, .needMoreInput, hrun, ?_, fun h => (by cases h), fun h => absurd h hend⟩
      rw [← ChunkStream.ahead_consume] at hend
      simp only [feed, Decoder.advance, hrun]
      rw [if_neg (by exact hend)]
  | error e =>
    refine .inr ⟨e, d', n, hrun, ?_⟩
    simp only [feed, Decoder.advance, hrun]

theorem Fed.feed {status : Status} (h : Fed limits bytes d) (hfeed : d.feed chunk = (.ok status, d')) :
    Fed limits (bytes ++ chunk) d' := by
  obtain ⟨n, hle, hahead, hrun⟩ := h.run_append chunk
  rcases feed_run d chunk with ⟨d₁, k, status₁, hd, hfeed₁, -⟩ | ⟨e, d₁, k, hd, hfeed₁⟩
  · obtain ⟨-, rfl⟩ := Prod.mk.inj (hfeed.symm.trans hfeed₁)
    refine ⟨n + k, by rw [hrun, hd]; rfl, ?_⟩
    rw [ChunkStream.ahead_consume, hahead, Cursor.drop_drop]
  · cases hfeed.symm.trans hfeed₁

theorem Fed.finish (h : Fed limits bytes d) : d.finish = decodeModule limits bytes := by
  obtain ⟨n, hrun, hahead⟩ := h
  rw [decodeModule_of_run hrun, ← hahead]
  rfl

/-- The status is about the bytes alone, not about the chunks. -/
theorem Fed.status {status : Status} (h : Fed limits bytes d)
    (hfeed : d.feed chunk = (.ok status, d')) :
    status = .sectionBoundary ↔ ∃ m, decodeModule limits (bytes ++ chunk) = .ok m := by
  have hfed := h.feed hfeed
  rcases feed_run d chunk with ⟨d₁, k, status₁, hd, hfeed₁, hstatus⟩ | ⟨e, d₁, k, hd, hfeed₁⟩
  · obtain ⟨hok, rfl⟩ := Prod.mk.inj (hfeed.symm.trans hfeed₁)
    obtain rfl := Except.ok.inj hok
    rw [hstatus, ← hfed.finish, StreamingDecoder.finish, Decoder.finish_eq, Decoder.finishAt_ok,
      ChunkStream.ahead_consume]
  · cases hfeed.symm.trans hfeed₁

/-- The first failure is a failure of all the bytes, whatever comes behind. -/
theorem Fed.feed_error (h : Fed limits bytes d) (hfeed : d.feed chunk = (.error e, d'))
    (more : List UInt8) :
    ∃ e', decodeModule limits (bytes ++ chunk ++ more) = .error e' ∧
      (e' = e ∨ d'.decoder.PastEnd (Source.ahead d'.stream) e) := by
  obtain ⟨n, hle, hahead, hrun⟩ := h.run_append chunk
  rcases feed_run d chunk with ⟨d₁, k, status₁, hd, hfeed₁, -⟩ | ⟨e₁, d₁, k, hd, hfeed₁⟩
  · cases hfeed.symm.trans hfeed₁
  · obtain ⟨he, rfl⟩ := Prod.mk.inj (hfeed.symm.trans hfeed₁)
    obtain rfl := Except.error.inj he
    rw [hd] at hrun
    have hmore := (Decoder.run_append (Decoder.new limits) (Cursor.whole (bytes ++ chunk))).2 more
    rw [hrun] at hmore
    rcases hmore with hsame | ⟨hpast, e', d'', n', hother⟩
    · exact ⟨e, decodeModule_of_run_error hsame, .inl rfl⟩
    · refine ⟨e', decodeModule_of_run_error hother, .inr ?_⟩
      rwa [ChunkStream.ahead_consume, hahead, Cursor.drop_drop]

theorem Fed.feedAll {chunks : List (List UInt8)} (h : Fed limits bytes d)
    (hall : d.feedAll chunks = .ok d') : Fed limits (bytes ++ chunks.flatten) d' := by
  induction chunks generalizing d bytes with
  | nil =>
    cases hall
    simpa using h
  | cons chunk rest ih =>
    rw [StreamingDecoder.feedAll] at hall
    split at hall
    · next hfeed =>
      rw [List.flatten_cons, ← List.append_assoc]
      exact ih (h.feed hfeed) hall
    · cases hall

/-- The chunk at which feeding stops. -/
theorem feedAll_error {chunks : List (List UInt8)} (h : d.feedAll chunks = .error e) :
    ∃ before chunk behind d₁ d₂, chunks = before ++ chunk :: behind ∧
      d.feedAll before = .ok d₁ ∧ d₁.feed chunk = (.error e, d₂) := by
  induction chunks generalizing d with
  | nil => cases h
  | cons chunk rest ih =>
    rw [feedAll] at h
    split at h
    · next d₀ hfeed =>
      obtain ⟨before, chunk', behind, d₁, d₂, rfl, hbefore, hlast⟩ := ih h
      refine ⟨chunk :: before, chunk', behind, d₁, d₂, rfl, ?_, hlast⟩
      rw [feedAll, hfeed]
      exact hbefore
    · next d₀ hfeed =>
      cases h
      exact ⟨[], chunk, rest, d, d₀, rfl, rfl, hfeed⟩

/-- Feed the chunks in order and finish. -/
def decodeChunks (limits : DecoderLimits) (chunks : List (List UInt8)) : Except Error Module :=
  match feedAll (new limits) chunks with
  | .ok d => d.finish
  | .error e => .error e

/-- The decoder was fed up to a chunk that it refused because an entry, not yet complete, had used
bytes past the end of its section. -/
def StoppedPastEnd (limits : DecoderLimits) (chunks : List (List UInt8)) (e : Error) : Prop :=
  ∃ before chunk behind d d', chunks = before ++ chunk :: behind ∧
    feedAll (new limits) before = .ok d ∧ d.feed chunk = (.error e, d') ∧
    d'.decoder.PastEnd (Source.ahead d'.stream) e

theorem StoppedPastEnd.code {chunks : List (List UInt8)} (h : StoppedPastEnd limits chunks e) :
    e.code = Code.sectionSizeMismatch := by
  obtain ⟨_, _, _, _, _, -, -, -, s, remaining, entry, -, -, -, rfl⟩ := h
  rfl

/-- Chunks give the outcome of all the bytes, or both fail and the chunks at the early check. -/
theorem decodeChunks_cases (limits : DecoderLimits) (chunks : List (List UInt8)) :
    decodeChunks limits chunks = decodeModule limits chunks.flatten ∨
      ∃ e e', decodeChunks limits chunks = .error e ∧
        decodeModule limits chunks.flatten = .error e' ∧ StoppedPastEnd limits chunks e := by
  cases hall : feedAll (new limits) chunks with
  | ok d =>
    have hfed := fed_new.feedAll hall
    refine .inl ?_
    rw [decodeChunks, hall, ← List.nil_append chunks.flatten]
    exact hfed.finish
  | error e =>
    have hnow : decodeChunks limits chunks = .error e := by rw [decodeChunks, hall]
    obtain ⟨before, chunk, behind, d, d', rfl, hbefore, hfeed⟩ := feedAll_error hall
    obtain ⟨e', he', hcase⟩ := (fed_new.feedAll hbefore).feed_error hfeed behind.flatten
    have hwhole : decodeModule limits (before ++ chunk :: behind).flatten = .error e' := by
      rw [← he', List.flatten_append, List.flatten_cons, List.nil_append, List.append_assoc]
    rcases hcase with rfl | hpast
    · exact .inl (hnow.trans hwhole.symm)
    · exact .inr ⟨e, e', hnow, hwhole, before, chunk, behind, d, d', rfl, hbefore, hfeed, hpast⟩

/-- Wherever the bytes are cut, the chunks give a module if and only if all the bytes do, and the same
one; and the status after a chunk says whether the bytes so far are a module. -/
theorem chunking_invariant (limits : DecoderLimits) :
    (∀ chunks m, decodeChunks limits chunks = .ok m ↔ decodeModule limits chunks.flatten = .ok m) ∧
      ∀ before last d status d', feedAll (new limits) before = .ok d →
        d.feed last = (.ok status, d') →
        (status = .sectionBoundary ↔
          ∃ m, decodeModule limits (before ++ [last]).flatten = .ok m) := by
  constructor
  · intro chunks m
    rcases decodeChunks_cases limits chunks with h | ⟨e, e', hnow, hwhole, -⟩
    · rw [h]
    · simp [hnow, hwhole]
  · intro before last d status d' hbefore hlast
    have hstatus := (fed_new.feedAll hbefore).status hlast
    simpa using hstatus

/-- The header cut into three pieces, one of them empty. -/
theorem chunking_invariant_header :
    decodeModule {} [[0x00, 0x61], [], [0x73, 0x6D, 1, 0, 0, 0]].flatten = .ok .empty ∧
      ∃ m, decodeModule {} ([[0x00, 0x61], []] ++ [[0x73, 0x6D, 1, 0, 0, (0 : UInt8)]]).flatten =
        .ok m :=
  ⟨((chunking_invariant {}).1 [[0x00, 0x61], [], [0x73, 0x6D, 1, 0, 0, 0]] .empty).1 (by cbv),
    ((chunking_invariant {}).2 [[0x00, 0x61], []] [0x73, 0x6D, 1, 0, 0, 0]
      ⟨⟨0, [0x00, 0x61], 0⟩, .new {}⟩ .sectionBoundary
      ⟨⟨0, header, 8⟩, ⟨{}, .sectionStart, .empty⟩⟩ (by cbv) (by cbv)).1 rfl⟩

/-- Chunks that fail make all the bytes fail with the same error, but for the early check. -/
theorem error_of_chunks {chunks : List (List UInt8)} (h : decodeChunks limits chunks = .error e) :
    ∃ e', decodeModule limits chunks.flatten = .error e' ∧
      (e' = e ∨ (e.code = Code.sectionSizeMismatch ∧ StoppedPastEnd limits chunks e)) := by
  rcases decodeChunks_cases limits chunks with hsame | ⟨e₁, e', hnow, hwhole, hpast⟩
  · exact ⟨e, hsame.symm.trans h, .inl rfl⟩
  · obtain rfl := Except.error.inj (hnow.symm.trans h)
    exact ⟨e', hwhole, .inr ⟨hpast.code, hpast⟩⟩

/-- A chunk ends inside the name of an import, behind the end of the section. -/
theorem error_of_chunks_inside_name :
    decodeChunks {} [header, [2, 1, 1, 2, 0x61], [0xFF, 0, 0]] =
        .error (.sectionSizeMismatch 2 1 3) ∧
      ∃ e', decodeModule {} [header, [2, 1, 1, 2, 0x61], [0xFF, 0, 0]].flatten = .error e' ∧
        (e' = .sectionSizeMismatch 2 1 3 ∨
          ((Error.sectionSizeMismatch 2 1 3).code = Code.sectionSizeMismatch ∧
            StoppedPastEnd {} [header, [2, 1, 1, 2, 0x61], [0xFF, 0, 0]]
              (.sectionSizeMismatch 2 1 3))) :=
  ⟨by cbv, error_of_chunks (by cbv)⟩

end StreamingDecoder
end WasmStream
