import WasmStream.Proofs.Grammar.Module

/-! Modules that are cut short. A decoder that has been fed with the first part of a module waits for
the rest; it never takes the end of the input for an error in it. It may end just there where a
section does, and then holds the sections up to that place. -/
namespace WasmStream
open Grammar

/-- A section and bytes in which it is written. -/
structure WrittenSection (limits : DecoderLimits) where
  content : Section
  bytes : List UInt8
  form : Section.Form limits content bytes

namespace WrittenSection
variable {limits : DecoderLimits}

def bytesOf (l : List (WrittenSection limits)) : List UInt8 := l.flatMap bytes

/-- The header and the sections behind it. -/
def moduleBytes (l : List (WrittenSection limits)) : List UInt8 := header ++ bytesOf l

/-- The module that the entries of the sections make. -/
def moduleOf (l : List (WrittenSection limits)) : Module :=
  .ofEntries (l.flatMap fun x => x.content.entries)

theorem bytesOf_cons (x : WrittenSection limits) (l : List (WrittenSection limits)) :
    bytesOf (x :: l) = x.bytes ++ bytesOf l := List.flatMap_cons

theorem bytesOf_take_append_drop (l : List (WrittenSection limits)) (i : Nat) :
    bytesOf (l.take i) ++ bytesOf (l.drop i) = bytesOf l := by
  rw [bytesOf, bytesOf, ← List.flatMap_append, List.take_append_drop]
  rfl

theorem many_contents (l : List (WrittenSection limits)) :
    Many (Section.Form limits) (l.map content) (bytesOf l) := by
  induction l with
  | nil => exact .nil
  | cons x l ih =>
    rw [List.map_cons, bytesOf_cons]
    exact .cons x.form ih

theorem exists_of_many {sections : List Section} {w : List UInt8}
    (h : Many (Section.Form limits) sections w) :
    ∃ l : List (WrittenSection limits), l.map content = sections ∧ bytesOf l = w := by
  induction h with
  | nil => exact ⟨[], rfl, rfl⟩
  | cons hx _ ih =>
    obtain ⟨l, hsections, hbytes⟩ := ih
    refine ⟨⟨_, _, hx⟩ :: l, ?_, ?_⟩
    · rw [List.map_cons, hsections]
    · rw [bytesOf_cons, hbytes]

theorem accepts_iff {w : List UInt8} {m : Module} :
    ((Decoder.new limits).goTo .sectionStart).Accepts ⟨8, w⟩ m ↔
      ∃ l : List (WrittenSection limits), w = bytesOf l ∧ m = moduleOf l := by
  have hmodule (l : List (WrittenSection limits)) :
      moduleOf l = Module.empty.addAll ((l.map content).flatMap Section.entries) := by
    rw [Module.addAll_empty, List.flatMap_map]
    rfl
  rw [Decoder.accepts_sections rfl]
  constructor
  · intro h
    obtain ⟨sections, hsections, hm⟩ := h
    have hmany : Many (Section.Form limits) sections w := hsections
    obtain ⟨l, hl, hbytes⟩ := exists_of_many hmany
    refine ⟨l, hbytes.symm, ?_⟩
    rw [hmodule, hl]
    exact hm
  · intro h
    obtain ⟨l, hw, hm⟩ := h
    refine ⟨l.map content, ?_, hm.trans (hmodule l)⟩
    rw [hw]
    exact many_contents l

/-- Bytes are decoded to the modules of the sections that they can be taken for. -/
theorem decodeModule_eq_ok_iff_moduleBytes {bytes : List UInt8} {m : Module} :
    decodeModule limits bytes = .ok m ↔
      ∃ l : List (WrittenSection limits), bytes = moduleBytes l ∧ m = moduleOf l := by
  rw [Decoder.decodeModule_eq_ok_iff_accepts, Decoder.accepts_new]
  constructor
  · intro h
    obtain ⟨w, hbytes, haccepts⟩ := h
    obtain ⟨l, hw, hm⟩ := accepts_iff.mp haccepts
    rw [hw] at hbytes
    exact ⟨l, hbytes, hm⟩
  · intro h
    obtain ⟨l, hbytes, hm⟩ := h
    exact ⟨bytesOf l, hbytes, accepts_iff.mpr ⟨l, rfl, hm⟩⟩

/-- The frame of a section says where it ends, so that two sections that begin at the same place end
at the same place. -/
theorem bytes_eq_of_append_eq {x y : WrittenSection limits} {u v : List UInt8}
    (h : x.bytes ++ u = y.bytes ++ v) : x.bytes = y.bytes := by
  obtain ⟨payload, hx, -⟩ := x.form
  obtain ⟨payload', hy, -⟩ := y.form
  have hreadx : SectionFrame.reader ⟨0, x.bytes ++ u⟩ =
      .done (x.content.id.toByte, payload) x.bytes.length :=
    SectionFrame.reads_reader.complete hx 0
  have hready : SectionFrame.reader ⟨0, y.bytes ++ v⟩ =
      .done (y.content.id.toByte, payload') y.bytes.length :=
    SectionFrame.reads_reader.complete hy 0
  rw [h] at hreadx
  have hlength : x.bytes.length = y.bytes.length := by
    injection hreadx.symm.trans hready
  exact List.append_inj_left h hlength

/-- Sections in the first part of written sections are the first of these. -/
theorem exists_take_of_append_eq {l l' : List (WrittenSection limits)} {rest : List UInt8}
    (h : bytesOf l' ++ rest = bytesOf l) : ∃ i ≤ l.length, bytesOf l' = bytesOf (l.take i) := by
  induction l' generalizing l with
  | nil => exact ⟨0, Nat.zero_le _, rfl⟩
  | cons y l' ih =>
    rw [bytesOf_cons, List.append_assoc] at h
    cases l with
    | nil =>
      obtain ⟨_, hframe, -⟩ := y.form
      have hpos := hframe.length_pos
      have hnil : y.bytes = [] := (List.append_eq_nil_iff.mp h).1
      rw [hnil] at hpos
      exact absurd hpos (Nat.lt_irrefl 0)
    | cons x l =>
      rw [bytesOf_cons] at h
      have hbytes := bytes_eq_of_append_eq h
      rw [hbytes, List.append_cancel_left_eq] at h
      obtain ⟨i, hi, htake⟩ := ih h
      refine ⟨i + 1, Nat.succ_le_succ hi, ?_⟩
      rw [List.take_succ_cons, bytesOf_cons, bytesOf_cons, hbytes, htake]

/-- Where the first `i` sections end; without any of them, where the header ends. -/
def stop (l : List (WrittenSection limits)) (i : Nat) : Nat := (moduleBytes (l.take i)).length

theorem take_stop (l : List (WrittenSection limits)) (i : Nat) :
    (moduleBytes l).take (stop l i) = moduleBytes (l.take i) := by
  have hsplit : moduleBytes l = moduleBytes (l.take i) ++ bytesOf (l.drop i) := by
    rw [moduleBytes, moduleBytes, List.append_assoc, bytesOf_take_append_drop]
  rw [hsplit]
  exact List.take_left

/-- The first part of a module is a module if and only if it ends with a section. -/
theorem decodeModule_take_eq_ok_iff (l : List (WrittenSection limits)) {k : Nat}
    (hk : k ≤ (moduleBytes l).length) (m : Module) :
    decodeModule limits ((moduleBytes l).take k) = .ok m ↔
      ∃ i ≤ l.length, k = stop l i ∧ m = moduleOf (l.take i) := by
  constructor
  · intro h
    obtain ⟨l', htake, -⟩ := decodeModule_eq_ok_iff_moduleBytes.mp h
    have hsplit : bytesOf l' ++ (moduleBytes l).drop k = bytesOf l := by
      have hwhole := List.take_append_drop k (moduleBytes l)
      rw [htake, moduleBytes, List.append_assoc] at hwhole
      exact List.append_cancel_left hwhole
    obtain ⟨i, hi, hbytes⟩ := exists_take_of_append_eq hsplit
    have hsame : moduleBytes l' = moduleBytes (l.take i) := congrArg (header ++ ·) hbytes
    have hstop : k = stop l i := by
      rw [stop, ← hsame, ← htake, List.length_take_of_le hk]
    have hmodule : decodeModule limits ((moduleBytes l).take k) = .ok (moduleOf (l.take i)) := by
      apply decodeModule_eq_ok_iff_moduleBytes.mpr
      exact ⟨l.take i, htake.trans hsame, rfl⟩
    exact ⟨i, hi, hstop, Except.ok.inj (h.symm.trans hmodule)⟩
  · intro h
    obtain ⟨i, -, hstop, hm⟩ := h
    apply decodeModule_eq_ok_iff_moduleBytes.mpr
    refine ⟨l.take i, ?_, hm⟩
    rw [hstop, take_stop]

end WrittenSection

namespace StreamingDecoder
variable {limits : DecoderLimits} {bytes : List UInt8}

theorem feedAll_append_error {d : StreamingDecoder} {e : Error} {chunks : List (List UInt8)}
    (h : d.feedAll chunks = .error e) (more : List (List UInt8)) :
    d.feedAll (chunks ++ more) = .error e := by
  induction chunks generalizing d with
  | nil => cases h
  | cons chunk rest ih =>
    rw [List.cons_append]
    unfold feedAll at h ⊢
    split at h
    · exact ih h
    · exact h

/-- No chunk of the first part of a module is refused. -/
theorem feedAll_of_prefix {m : Module} {more : List UInt8} {chunks : List (List UInt8)}
    (h : decodeModule limits (bytes ++ more) = .ok m) (hchunks : chunks.flatten = bytes) :
    ∃ d, feedAll (new limits) chunks = .ok d ∧ Fed limits bytes d := by
  cases hfeed : feedAll (new limits) chunks with
  | ok d =>
    have hfed := fed_new.feedAll hfeed
    rw [List.nil_append, hchunks] at hfed
    exact ⟨d, rfl, hfed⟩
  | error e =>
    have hflatten : (chunks ++ [more]).flatten = bytes ++ more := by simp [hchunks]
    have hall : decodeChunks limits (chunks ++ [more]) = .error e := by
      rw [decodeChunks, feedAll_append_error hfeed]
    obtain hsame | ⟨_, e', -, hwhole, -⟩ := decodeChunks_cases limits (chunks ++ [more])
    · rw [hall, hflatten, h] at hsame
      cases hsame
    · rw [hflatten, h] at hwhole
      cases hwhole

/-- A decoder that has been fed either may end or is cut short. -/
theorem Fed.ok_or_truncated {d : StreamingDecoder} (h : Fed limits bytes d) :
    (∃ m, decodeModule limits bytes = .ok m) ∨
      ∃ e, decodeModule limits bytes = .error e ∧ e.code = Code.truncatedModule := by
  rw [← h.finish, StreamingDecoder.finish, Decoder.finish_eq, Decoder.finishAt]
  by_cases hend : d.decoder.endsAt (Source.ahead d.stream) = true
  · rw [if_pos hend]
    exact .inl ⟨_, rfl⟩
  · rw [if_neg hend]
    exact .inr ⟨_, rfl, rfl⟩

end StreamingDecoder

open WrittenSection in
/-- The first bytes of a module are a module if they end with the header or with a section, and it has
the entries of the sections that end there or before; otherwise they are cut short, which is all that
is wrong with them. No chunk of them is refused. -/
theorem decodeModule_take {limits : DecoderLimits} {bytes : List UInt8} {m : Module}
    (h : decodeModule limits bytes = .ok m) :
    (∃ l : List (WrittenSection limits), bytes = moduleBytes l) ∧
    ∀ l : List (WrittenSection limits), bytes = moduleBytes l →
      m = moduleOf l ∧ ∀ k ≤ bytes.length,
        (∀ m', decodeModule limits (bytes.take k) = .ok m' ↔
          ∃ i ≤ l.length, k = stop l i ∧ m' = moduleOf (l.take i)) ∧
        ((∀ i ≤ l.length, k ≠ stop l i) → ∃ e,
          decodeModule limits (bytes.take k) = .error e ∧ e.code = Code.truncatedModule) ∧
        ∀ chunks, chunks.flatten = bytes.take k → ∃ d,
          StreamingDecoder.feedAll (.new limits) chunks = .ok d ∧
            d.finish = decodeModule limits (bytes.take k) := by
  obtain ⟨l₀, hl₀, -⟩ := decodeModule_eq_ok_iff_moduleBytes.mp h
  refine ⟨⟨l₀, hl₀⟩, fun l hl => ?_⟩
  have hmodule : m = moduleOf l := by
    have hok := decodeModule_eq_ok_iff_moduleBytes.mpr ⟨l, hl, rfl⟩
    exact Except.ok.inj (h.symm.trans hok)
  refine ⟨hmodule, fun k hk => ?_⟩
  have htake (m' : Module) : decodeModule limits (bytes.take k) = .ok m' ↔
      ∃ i ≤ l.length, k = stop l i ∧ m' = moduleOf (l.take i) := by
    rw [hl] at hk ⊢
    exact decodeModule_take_eq_ok_iff l hk m'
  have hwhole : decodeModule limits (bytes.take k ++ bytes.drop k) = .ok m := by
    rwa [List.take_append_drop]
  refine ⟨htake, ?_, ?_⟩
  · intro hinside
    obtain ⟨d, -, hfed⟩ := StreamingDecoder.feedAll_of_prefix hwhole List.flatten_singleton
    obtain ⟨m', hm'⟩ | htruncated := hfed.ok_or_truncated
    · obtain ⟨i, hi, hstop, -⟩ := (htake m').mp hm'
      exact absurd hstop (hinside i hi)
    · exact htruncated
  · intro chunks hchunks
    obtain ⟨d, hfeed, hfed⟩ := StreamingDecoder.feedAll_of_prefix hwhole hchunks
    exact ⟨d, hfeed, hfed.finish⟩

/-- A start section, cut in front of its payload. -/
def WrittenSection.start : WrittenSection {} where
  content := ⟨.start, [.start 5]⟩
  bytes := [8, 1, 5]
  form := by
    have hsize : U32 1 [1] := @Leb128.Unsigned.last 32 1 (by decide) (by decide) (by decide)
    have hindex : U32 5 [5] := @Leb128.Unsigned.last 32 5 (by decide) (by decide) (by decide)
    exact ⟨[5], ⟨1, [1], hsize, rfl, rfl⟩, .start 5, rfl, 5, rfl, hindex⟩

open WrittenSection in
theorem decodeModule_take_start :
    decodeModule {} (header ++ [8, 1, 5]) = .ok { start := some 5 } ∧
      (∃ e, decodeModule {} (header ++ [8, 1]) = .error e ∧ e.code = Code.truncatedModule) ∧
      ∃ d, StreamingDecoder.feedAll (.new {}) [header, [8], [1]] = .ok d ∧
        d.finish = decodeModule {} (header ++ [8, 1]) := by
  have h : decodeModule {} (header ++ [8, 1, 5]) = .ok { start := some 5 } := by cbv
  obtain ⟨-, hcut⟩ := decodeModule_take h
  obtain ⟨-, hinside, hchunks⟩ := (hcut [WrittenSection.start] rfl).2 10 (by decide)
  have hstop (i : Nat) (hi : i ≤ 1) : 10 ≠ stop [WrittenSection.start] i := by
    obtain hfirst | hlast : i = 0 ∨ i = 1 := by omega
    · rw [hfirst]
      decide
    · rw [hlast]
      decide
  exact ⟨h, hinside hstop, hchunks [header, [8], [1]] rfl⟩

end WasmStream
