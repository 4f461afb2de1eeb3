import WasmStream.Proofs.Rejection.Sites
import WasmStream.Proofs.Composition

/-! Decoding that goes on behind an error. Where an error has been forgotten, the bytes that it is
about are left out, and the decoder comes to the module that the others are. -/
namespace WasmStream
open Reader Grammar

namespace Decoder
variable {d : Decoder} {m : Module} {limits : DecoderLimits} {bytes w : List UInt8}

/-- The sections that come are the same at any place. -/
theorem Accepts.elsewhere {offset : Nat} (hs : d.state = .sectionStart) (h : d.Accepts ⟨offset, w⟩ m)
    (offset' : Nat) : d.Accepts ⟨offset', w⟩ m := by
  have hsections := (accepts_sections hs).mp h
  exact (accepts_sections hs).mpr hsections

theorem accepts_header {offset : Nat} (hs : d.state = .header)
    (h : (d.goTo .sectionStart).Accepts ⟨offset + header.length, w⟩ m) :
    d.Accepts ⟨offset, header ++ w⟩ m := by
  have hlong : header.length ≤ (header ++ w).length := by
    rw [List.length_append]
    exact Nat.le_add_right _ _
  have hread : Reader.bytes 8 ⟨offset, header ++ w⟩ = .done header header.length :=
    bytes_of_le (c := ⟨offset, header ++ w⟩) hlong
  have hstep : d.step ⟨offset, header ++ w⟩ =
      .ready () (d.goTo .sectionStart) header.length := by
    rw [step_header hs, stepHeader, hread]
    rfl
  rw [accepts_of_ready hstep]
  exact h

/-- A module is one at any place. -/
theorem accepts_new_elsewhere (h : decodeModule limits bytes = .ok m) (offset : Nat) :
    (new limits).Accepts ⟨offset, bytes⟩ m := by
  obtain ⟨w, hbytes, hm⟩ := accepts_new.mp (decodeModule_eq_ok_iff_accepts.mp h)
  rw [hbytes]
  exact accepts_header rfl (hm.elsewhere rfl _)

/-- Behind the last entry there is nothing left but the end of its section. -/
theorem accepts_of_lastEntry {c : Cursor} {s : SectionFrame} {n : Nat}
    (h : d.step c = .ready () ⟨limits, .sectionEnd s, m⟩ n) (hstop : c.offset + n = s.stop)
    (hrest : c.rest.drop n = []) : d.Accepts c m := by
  have hdone : (⟨limits, .sectionStart, m⟩ : Decoder).Accepts (c.drop n) m :=
    (accepts_sectionStart rfl).mpr (.inl ⟨hrest, rfl⟩)
  rw [accepts_of_ready h, accepts_sectionEnd rfl]
  exact ⟨hstop, hdone⟩

end Decoder

namespace StreamingDecoder
variable {limits : DecoderLimits} {before chunk more w : List UInt8} {m m₁ : Module} {e : Error}

/-- Behind `before`, the next chunk is refused with `e`, and the one after it brings the same decoder
to `m`. -/
def Survives (limits : DecoderLimits) (before chunk : List UInt8) (e : Error) (more : List UInt8)
    (m : Module) : Prop :=
  ∃ status d₀ d₁ d₂, (new limits).feed before = (.ok status, d₀) ∧ d₀.feed chunk = (.error e, d₁) ∧
    d₁.feed more = (.ok .sectionBoundary, d₂) ∧ d₂.finish = .ok m

theorem feed_of_run_ok {d : StreamingDecoder} {d' : Decoder} {n : Nat} (chunk : List UInt8)
    (h : d.decoder.run 0 ((Source.ahead d.stream).append chunk) = (.ok (), d', n)) :
    ∃ status s, d.feed chunk = (.ok status, ⟨s, d'⟩) ∧
      Source.ahead s = ((Source.ahead d.stream).append chunk).drop n := by
  rw [← ChunkStream.ahead_push] at h ⊢
  obtain ⟨d₁, k, status, hsame, hfeed, -⟩ | ⟨e, d₁, k, hother, -⟩ := feed_run d chunk
  · cases h.symm.trans hsame
    exact ⟨status, _, hfeed, ChunkStream.ahead_consume _ n⟩
  · cases h.symm.trans hother

theorem feed_of_run_error {d : StreamingDecoder} {d' : Decoder} {n : Nat} (chunk : List UInt8)
    (h : d.decoder.run 0 ((Source.ahead d.stream).append chunk) = (.error e, d', n)) :
    ∃ s, d.feed chunk = (.error e, ⟨s, d'⟩) ∧
      Source.ahead s = ((Source.ahead d.stream).append chunk).drop n := by
  rw [← ChunkStream.ahead_push] at h ⊢
  obtain ⟨d₁, k, status, hother, -, -⟩ | ⟨e, d₁, k, hsame, hfeed⟩ := feed_run d chunk
  · cases h.symm.trans hother
  · cases h.symm.trans hsame
    exact ⟨_, hfeed, ChunkStream.ahead_consume _ n⟩

/-- A decoder that has the rest of a module ahead comes to it with the next chunk. -/
theorem feed_of_accepts {d : StreamingDecoder} (chunk : List UInt8)
    (h : d.decoder.Accepts ((Source.ahead d.stream).append chunk) m) :
    ∃ d', d.feed chunk = (.ok .sectionBoundary, d') ∧ d'.finish = .ok m := by
  obtain ⟨d₁, n, hrun, hm⟩ := h
  rw [← ChunkStream.ahead_push] at hrun hm
  have hend := (Decoder.finishAt_ok _ _).mp ⟨m, hm⟩
  obtain ⟨d₂, k, status, hsame, hfeed, hstatus⟩ | ⟨e, d₂, k, hother, -⟩ := feed_run d chunk
  · cases hrun.symm.trans hsame
    rw [hstatus.mpr hend] at hfeed
    refine ⟨_, hfeed, ?_⟩
    rw [finish, Decoder.finish_eq, ChunkStream.ahead_consume]
    exact hm
  · cases hrun.symm.trans hother

/-- Where a transition fails and leaves the decoder as it was, decoding goes on behind the bytes that
it has used. -/
theorem survives_of_unchanged {d : Decoder}
    (hbefore : (Decoder.new limits).run 0 (Cursor.whole before) = (.ok (), d, before.length))
    (hfail : d.step ⟨before.length, chunk⟩ = .failed e d chunk.length)
    (hmore : d.Accepts ⟨before.length + chunk.length, more⟩ m) :
    Survives limits before chunk e more m := by
  obtain ⟨status, s₀, hfeed₀, hs₀⟩ := feed_of_run_ok (d := new limits) before hbefore
  have hchunk : (Source.ahead s₀).append chunk = ⟨before.length, chunk⟩ := by
    rw [hs₀]
    simp [Source.ahead, new, ChunkStream.empty, Cursor.append, Cursor.drop]
  have hrun : d.run 0 ((Source.ahead s₀).append chunk) = (.error e, d, 0 + chunk.length) := by
    rw [hchunk]
    exact Decoder.run_of_failed hfail 0
  obtain ⟨s₁, hfeed₁, hs₁⟩ := feed_of_run_error (d := ⟨s₀, d⟩) chunk hrun
  have hrest : (Source.ahead s₁).append more = ⟨before.length + chunk.length, more⟩ := by
    rw [hs₁, hchunk]
    simp [Cursor.append, Cursor.drop]
  rw [← hrest] at hmore
  obtain ⟨d₂, hfeed₂, hfinish⟩ := feed_of_accepts (d := ⟨s₁, d⟩) more hmore
  exact ⟨status, _, _, d₂, hfeed₀, hfeed₁, hfeed₂, hfinish⟩

theorem survives_of_forgets {d : Decoder}
    (hbefore : (Decoder.new limits).run 0 (Cursor.whole before) = (.ok (), d, before.length))
    (hforgets : d.Forgets ⟨before.length, chunk⟩ e chunk.length)
    (hmore : d.Accepts ⟨before.length + chunk.length, more⟩ m) :
    Survives limits before chunk e more m :=
  survives_of_unchanged hbefore hforgets.step_eq hmore

/-- Eight bytes that are no header are left out. -/
theorem survives_badHeader (hlength : chunk.length = 8) (hbad : chunk ≠ header)
    (hmore : decodeModule limits more = .ok m) :
    Survives limits [] chunk (Decoder.headerError chunk) more m := by
  have hbefore : (Decoder.new limits).run 0 (Cursor.whole []) = (.ok (), .new limits, 0) :=
    Decoder.run_of_paused (n := 0) rfl 0
  exact survives_of_forgets hbefore (.header rfl hlength hbad (List.append_nil chunk).symm)
    (Decoder.accepts_new_elsewhere hmore _)

/-- The head of an unknown section is left out, and what comes behind it is decoded in its place. -/
theorem survives_unknownSection {id : UInt8} {size : UInt32}
    (hbefore : decodeModule limits before = .ok m₁) (hid : SectionId.ofByte? id = none)
    (hsize : U32 size w) (hmore : decodeModule limits (before ++ more) = .ok m) :
    Survives limits before (id :: w) (.unknownSection id before.length) more m := by
  rw [Decoder.moduleFrom_between hbefore, Decoder.moduleFrom_eq_ok_iff] at hmore
  exact survives_of_forgets (Decoder.run_of_decodeModule hbefore)
    (.unknownSection rfl hid hsize (List.append_nil (id :: w)).symm) (hmore.elsewhere rfl _)

/-- Inside the last entry of a section what is refused is left out, and the entry is what is read from
the bytes behind it. -/
theorem survives_lastEntry {s : SectionFrame} {entry fresh : EntryBuilder} {x : Entry}
    (hbefore : (Decoder.new limits).run 0 (Cursor.whole before) =
      (.ok (), ⟨limits, .entries s 1 entry, m₁⟩, before.length))
    (hrefused : entry.Refused limits ⟨before.length, chunk⟩ e chunk.length)
    (hentry : EntryBuilder.builder limits entry ⟨before.length + chunk.length, more⟩ =
      .ready x fresh more.length)
    (hstop : before.length + chunk.length + more.length = s.stop) :
    Survives limits before chunk e more (m₁.add x) := by
  have hstep : Decoder.step ⟨limits, .entries s 1 entry, m₁⟩ ⟨before.length + chunk.length, more⟩ =
      .ready () ⟨limits, .sectionEnd s, m₁.add x⟩ more.length := by
    rw [Decoder.step_entries rfl, Decoder.stepEntries]
    simp only [hentry]
    rw [if_neg (Nat.not_lt.mpr (Nat.le_of_eq hstop)), if_pos (Nat.le_refl 1)]
    rfl
  exact survives_of_forgets hbefore (.entry rfl hrefused)
    (Decoder.accepts_of_lastEntry hstep hstop List.drop_length)

/-- The same for a custom section. -/
theorem survives_custom {s : SectionFrame} {entry : CustomBuilder} {x : CustomSection}
    {fresh : CustomBuilder}
    (hbefore : (Decoder.new limits).run 0 (Cursor.whole before) =
      (.ok (), ⟨limits, .custom s entry, m₁⟩, before.length))
    (hrefused : entry.Refused limits s.stop ⟨before.length, chunk⟩ e chunk.length)
    (hentry : Builder.harvest (CustomBuilder.builder limits s.stop) CustomBuilder.freeze {} entry
      ⟨before.length + chunk.length, more⟩ = .ready x fresh more.length)
    (hstop : before.length + chunk.length + more.length = s.stop) :
    Survives limits before chunk e more (m₁.add (.custom x)) := by
  have hstep : Decoder.step ⟨limits, .custom s entry, m₁⟩ ⟨before.length + chunk.length, more⟩ =
      .ready () ⟨limits, .sectionEnd s, m₁.add (.custom x)⟩ more.length := by
    rw [Decoder.step_custom rfl, Decoder.stepCustom]
    simp only [hentry]
  exact survives_of_forgets hbefore (.custom rfl hrefused)
    (Decoder.accepts_of_lastEntry hstep hstop List.drop_length)

/-- The name of an export that is not text is left out, and the export has the name behind it. -/
example : Survives {} (header ++ [7, 6, 1]) [1, 0xFF] (.invalidUtf8 (.invalid 1 0)) [0, 0, 0]
    { exports := [⟨"", .function, 0⟩] } := by
  have hbefore : (Decoder.new {}).run 0 (Cursor.whole (header ++ [7, 6, 1])) =
      (.ok (), ⟨{}, .entries ⟨.exports, 10, 6⟩ 1 (.exports {}), .empty⟩, 11) := by cbv
  have hlength : U32 1 [1] := @Leb128.Unsigned.last 32 1 (by decide) (by decide) (by decide)
  have hfault : Content.name.Gives [0xFF] (.error (.invalidUtf8 (.invalid 1 0))) := by
    rw [Content.gives_iff]
    change readName [0xFF] = _
    cbv
  have hname : Pending.Next .name ({} : DecoderLimits).maxPayloadSize ⟨11, [1, 0xFF]⟩
      (.error (.invalidUtf8 (.invalid 1 0))) 2 := .field hlength (by decide) rfl rfl hfault
  have hentry : EntryBuilder.builder {} (.exports {}) ⟨13, [0, 0, 0]⟩ =
      .ready (.exports ⟨"", .function, 0⟩) (.exports {}) 3 := by cbv
  exact survives_lastEntry hbefore (.exportName rfl rfl hname) hentry rfl

end StreamingDecoder
end WasmStream
