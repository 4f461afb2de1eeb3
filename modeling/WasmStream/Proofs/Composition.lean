import WasmStream.Proofs.Grammar.Module
import WasmStream.Proofs.Relocation.Decoder

/-! Modules one behind the other. Between two sections the decoder knows no more than the place and the
entries it has collected; so what it makes of the rest of the bytes is what it would make of them
directly behind the header, added to those entries. -/
namespace WasmStream
open Grammar

namespace Decoder
variable {d d' : Decoder} {c : Cursor} {m : Module} {k : Nat}

theorem limits_step (d : Decoder) (c : Cursor) : (d.step c).state.limits = d.limits := by
  cases hs : d.state with
  | header =>
    rw [step_header hs]
    unfold stepHeader
    repeat' split
    all_goals rfl
  | sectionStart =>
    rw [step_sectionStart hs]
    unfold stepSectionStart
    repeat' split
    all_goals rfl
  | entryCount s =>
    rw [step_entryCount hs]
    unfold stepEntryCount
    repeat' split
    all_goals rfl
  | entries s remaining entry =>
    rw [step_entries hs]
    unfold stepEntries
    dsimp only
    repeat' split
    all_goals rfl
  | startFunction s =>
    rw [step_startFunction hs]
    unfold stepNumber
    split <;> rfl
  | dataCount s =>
    rw [step_dataCount hs]
    unfold stepNumber
    split <;> rfl
  | custom s entry =>
    rw [step_custom hs]
    unfold stepCustom
    split <;> rfl
  | skip s =>
    rw [step_skip hs]
    unfold stepSkip
    dsimp only
    repeat' split
    all_goals rfl
  | sectionEnd s =>
    rw [step_sectionEnd hs]
    unfold stepSectionEnd
    split <;> rfl

theorem limits_run (d : Decoder) (c : Cursor) : (d.run 0 c).2.1.limits = d.limits := by
  have hlimits := limits_step d c
  cases hstep : d.step c with
  | ready _ d' n =>
    have hrest := limits_run d' (c.drop n)
    rw [hstep] at hlimits
    rw [run_shift_of_ready hstep]
    exact hrest.trans hlimits
  | paused d' n =>
    rw [hstep] at hlimits
    rw [run_of_paused hstep]
    exact hlimits
  | failed e d' n =>
    rw [hstep] at hlimits
    rw [run_of_failed hstep]
    exact hlimits
termination_by measure d c
decreasing_by exact measure_lt hstep

/-- The module that `d` comes to when no more than `c` is left. -/
def moduleFrom (d : Decoder) (c : Cursor) : Except Error Module :=
  match d.run 0 c with
  | (.ok _, d', n) => d'.finishAt (c.drop n)
  | (.error e, _, _) => .error e

theorem moduleFrom_new (limits : DecoderLimits) (bytes : List UInt8) :
    decodeModule limits bytes = (new limits).moduleFrom (Cursor.whole bytes) := by
  unfold moduleFrom
  obtain ⟨⟨result, d, n⟩, hrun⟩ : ∃ r, (new limits).run 0 (Cursor.whole bytes) = r := ⟨_, rfl⟩
  rw [hrun]
  cases result with
  | ok => exact decodeModule_of_run hrun
  | error e => exact decodeModule_of_run_error hrun

theorem moduleFrom_eq_ok_iff : d.moduleFrom c = .ok m ↔ d.Accepts c m := by
  unfold moduleFrom Accepts
  obtain ⟨⟨result, d', n⟩, hrun⟩ : ∃ r, d.run 0 c = r := ⟨_, rfl⟩
  rw [hrun]
  cases result with
  | ok =>
    constructor
    · intro hm
      exact ⟨d', n, rfl, hm⟩
    · intro h
      obtain ⟨_, _, hsame, hm⟩ := h
      cases hsame
      exact hm
  | error e =>
    constructor
    · intro hm
      cases hm
    · intro h
      obtain ⟨_, _, hsame, -⟩ := h
      cases hsame

/-- At another place both come to a module, or both fail in the same way. -/
theorem alike_moduleFrom (h : Moved k d d') (c : Cursor) :
    (∃ m m', d.moduleFrom c = .ok m ∧ d'.moduleFrom (c.moved k) = .ok m') ∨
      ∃ e e', d.moduleFrom c = .error e ∧ d'.moduleFrom (c.moved k) = .error e' ∧ e.Alike e' := by
  have hrun := alike_run h c
  unfold moduleFrom
  generalize d.run 0 c = r at hrun ⊢
  generalize d'.run 0 (c.moved k) = r' at hrun ⊢
  cases hrun with
  | @ok n d₁ d₂ hnext =>
    have hend := hnext.endsAt_eq (c.drop n)
    rw [← Cursor.drop_moved] at hend
    dsimp only [finishAt]
    rw [← hend]
    by_cases hdone : d₁.endsAt (c.drop n) = true
    · rw [if_pos hdone, if_pos hdone]
      exact .inl ⟨_, _, rfl, rfl⟩
    · rw [if_neg hdone, if_neg hdone]
      exact .inr ⟨_, _, rfl, rfl, rfl, rfl, rfl⟩
  | error n he _ => exact .inr ⟨_, _, rfl, rfl, he⟩

/-- Between two sections, with the entries of `m` collected. -/
def between (limits : DecoderLimits) (m : Module) : Decoder := ⟨limits, .sectionStart, m⟩

/-- A run that has come to a module stands between two sections, with all the bytes used. -/
theorem run_of_decodeModule {limits : DecoderLimits} {bytes : List UInt8}
    (h : decodeModule limits bytes = .ok m) :
    (new limits).run 0 (Cursor.whole bytes) = (.ok (), between limits m, bytes.length) := by
  obtain ⟨d', n, hrun, hm⟩ := decodeModule_eq_ok_iff_accepts.mp h
  obtain ⟨hstate, hrest, hmodule⟩ := finishAt_eq_ok_iff.mp hm
  have hle := (run_append (new limits) (Cursor.whole bytes)).1
  have hlimits := limits_run (new limits) (Cursor.whole bytes)
  rw [hrun] at hle hlimits ⊢
  have hge : bytes.length ≤ n := List.drop_eq_nil_iff.mp hrest
  have hlength : n = bytes.length := Nat.le_antisymm hle hge
  have hbetween : d' = between limits m := by
    obtain ⟨limits', state, collected⟩ := d'
    exact congr (congr (congrArg mk hlimits) hstate) hmodule
  rw [hlength, hbetween]

/-- What comes behind a module is decoded from between two sections. -/
theorem run_behind {limits : DecoderLimits} {bytes : List UInt8}
    (h : decodeModule limits bytes = .ok m) (more : List UInt8) :
    (new limits).run 0 (Cursor.whole (bytes ++ more)) =
      shift bytes.length ((between limits m).run 0 ⟨bytes.length, more⟩) := by
  have hmore := (run_append (new limits) (Cursor.whole bytes)).2 more
  have hplace : ((Cursor.whole bytes).drop bytes.length).append more = ⟨bytes.length, more⟩ := by
    simp [Cursor.whole, Cursor.drop, Cursor.append]
  rw [run_of_decodeModule h] at hmore
  rw [← hplace]
  exact hmore

theorem moduleFrom_between {limits : DecoderLimits} {bytes : List UInt8}
    (h : decodeModule limits bytes = .ok m) (more : List UInt8) :
    decodeModule limits (bytes ++ more) = (between limits m).moduleFrom ⟨bytes.length, more⟩ := by
  rw [moduleFrom_new]
  unfold moduleFrom
  rw [run_behind h]
  obtain ⟨⟨result, d', n⟩, hrest⟩ : ∃ r, (between limits m).run 0 ⟨bytes.length, more⟩ = r :=
    ⟨_, rfl⟩
  rw [hrest]
  cases result with
  | ok =>
    have hleft : (Cursor.whole (bytes ++ more)).drop (bytes.length + n) =
        Cursor.drop ⟨bytes.length, more⟩ n := by
      simp [Cursor.whole, Cursor.drop, List.drop_append]
    exact congrArg d'.finishAt hleft
  | error e => rfl

theorem decodeModule_header (limits : DecoderLimits) : decodeModule limits header = .ok .empty := by
  have hheader : (new limits).Accepts (Cursor.whole header) .empty := by
    apply accepts_new.mpr
    refine ⟨[], rfl, ?_⟩
    rw [accepts_sectionStart rfl]
    exact .inl ⟨rfl, rfl⟩
  exact decodeModule_eq_ok_iff_accepts.mpr hheader

/-- The entries that were collected have no influence on those that come. -/
theorem accepts_between {limits : DecoderLimits} {m₁ : Module} {w : List UInt8}
    (offset offset' : Nat) : (between limits m₁).Accepts ⟨offset, w⟩ m ↔
      ∃ m₂, (between limits .empty).Accepts ⟨offset', w⟩ m₂ ∧ m = m₁.append m₂ := by
  rw [accepts_sections rfl]
  constructor
  · intro h
    obtain ⟨sections, hsections, hm⟩ := h
    have hrest : (between limits .empty).Accepts ⟨offset', w⟩
        (Module.empty.addAll (sections.flatMap Section.entries)) :=
      (accepts_sections rfl).mpr ⟨sections, hsections, rfl⟩
    exact ⟨_, hrest, hm.trans (Module.addAll_eq_append m₁ _)⟩
  · intro h
    obtain ⟨m₂, hrest, hm⟩ := h
    obtain ⟨sections, hsections, hm₂⟩ := (accepts_sections rfl).mp hrest
    refine ⟨sections, hsections, ?_⟩
    rw [hm, hm₂]
    exact (Module.addAll_eq_append m₁ _).symm

end Decoder
open Decoder

variable {limits : DecoderLimits} {bytes w : List UInt8} {m₁ : Module}

theorem decodeModule_append_eq_ok_iff (h : decodeModule limits bytes = .ok m₁) (more : List UInt8)
    (m : Module) : decodeModule limits (bytes ++ more) = .ok m ↔
      ∃ m₂, decodeModule limits (header ++ more) = .ok m₂ ∧ m = m₁.append m₂ := by
  rw [moduleFrom_between h, moduleFrom_eq_ok_iff, accepts_between _ header.length]
  simp only [moduleFrom_between (decodeModule_header limits), moduleFrom_eq_ok_iff]

theorem length_header_le (h : decodeModule limits bytes = .ok m₁) : header.length ≤ bytes.length := by
  obtain ⟨w, hbytes, -⟩ := accepts_new.mp (decodeModule_eq_ok_iff_accepts.mp h)
  rw [hbytes, List.length_append]
  exact Nat.le_add_right _ _

/-- Behind a module and behind the header alone the same bytes give a module or fail, and fail in the
same way. -/
theorem alike_append (h : decodeModule limits bytes = .ok m₁) (more : List UInt8) :
    (∃ m m₂, decodeModule limits (bytes ++ more) = .ok m ∧
        decodeModule limits (header ++ more) = .ok m₂) ∨
      ∃ e e', decodeModule limits (bytes ++ more) = .error e ∧
        decodeModule limits (header ++ more) = .error e' ∧ e.Alike e' := by
  have hmoved : Decoder.Moved (bytes.length - header.length) (between limits .empty)
      (between limits m₁) := ⟨rfl, .sectionStart⟩
  have hplace : (⟨header.length, more⟩ : Cursor).moved (bytes.length - header.length) =
      ⟨bytes.length, more⟩ := by
    rw [Cursor.moved, Nat.add_sub_cancel' (length_header_le h)]
  have halike := alike_moduleFrom hmoved ⟨header.length, more⟩
  rw [hplace, ← moduleFrom_between h, ← moduleFrom_between (decodeModule_header limits)] at halike
  obtain ⟨m₂, m, hm₂, hm⟩ | ⟨e', e, he', he, hsame⟩ := halike
  · exact .inl ⟨m, m₂, hm, hm₂⟩
  · exact .inr ⟨e, e', he, he', hsame.2.1, hsame.1, hsame.2.2.symm⟩

/-- A section alone behind the header. -/
theorem decodeModule_section {x : Section} (h : Section.Form limits x w) :
    decodeModule limits (header ++ w) = .ok (.ofEntries x.entries) := by
  have hsections : Many (Section.Form limits) [x] w := by
    rw [← List.append_nil w]
    exact .cons h .nil
  have haccepts : (between limits .empty).Accepts ⟨header.length, w⟩ (.ofEntries x.entries) := by
    apply (accepts_sections rfl).mpr
    refine ⟨[x], hsections, ?_⟩
    rw [List.flatMap_singleton]
    exact (Module.addAll_empty x.entries).symm
  rw [moduleFrom_between (decodeModule_header limits)]
  exact moduleFrom_eq_ok_iff.mpr haccepts

/-- Custom sections and sections that are not interpreted hold no entries of other kinds. -/
theorem Section.ofEntries_of_custom_or_element {x : Section} (h : Section.Form limits x w)
    (hid : x.id = .custom ∨ x.id = .element) :
    Module.ofEntries x.entries =
      { customSections := (Module.ofEntries x.entries).customSections } := by
  obtain ⟨id, entries⟩ := x
  obtain ⟨payload, -, hpayload⟩ := h
  rcases hid with hid | hid
  · cases hid
    obtain ⟨entry, hentries, custom, hentry, -⟩ := hpayload
    cases hentries
    cases hentry
    rfl
  · cases hid
    cases hpayload
    rfl

/-- Sections compose. Behind a module, further bytes give what they give behind the header alone, added
to that module, or fail as they fail there; and a custom section or one that is not interpreted, put
in front of them, changes nothing but the custom sections. -/
theorem decodeModule_append (h : decodeModule limits bytes = .ok m₁) (more : List UInt8) :
    (∀ m, decodeModule limits (bytes ++ more) = .ok m ↔
      ∃ m₂, decodeModule limits (header ++ more) = .ok m₂ ∧ m = m₁.append m₂) ∧
    ((∃ m, decodeModule limits (bytes ++ more) = .ok m) ∨
      ∃ e e', decodeModule limits (bytes ++ more) = .error e ∧
        decodeModule limits (header ++ more) = .error e' ∧
        e.category = e'.category ∧ e.code = e'.code) ∧
    ∀ x w, Section.Form limits x w → x.id = .custom ∨ x.id = .element →
      ∀ m, decodeModule limits (bytes ++ w ++ more) = .ok m ↔
        ∃ m₂, decodeModule limits (header ++ more) = .ok m₂ ∧
          m = { m₁.append m₂ with
            customSections := m₁.customSections ++ (Module.ofEntries x.entries).customSections ++
              m₂.customSections } := by
  refine ⟨decodeModule_append_eq_ok_iff h more, ?_, ?_⟩
  · obtain ⟨m, -, hm, -⟩ | ⟨e, e', he, he', hsame⟩ := alike_append h more
    · exact .inl ⟨m, hm⟩
    · exact .inr ⟨e, e', he, he', hsame.1.trans hsame.2.1.symm, hsame.2.2⟩
  · intro x w hx hid m
    have hsection : decodeModule limits (bytes ++ w) =
        .ok (m₁.append (Module.ofEntries x.entries)) :=
      (decodeModule_append_eq_ok_iff h w _).mpr ⟨_, decodeModule_section hx, rfl⟩
    have hinserted (m₂ : Module) : (m₁.append (Module.ofEntries x.entries)).append m₂ =
        { m₁.append m₂ with
          customSections := m₁.customSections ++ (Module.ofEntries x.entries).customSections ++
            m₂.customSections } := by
      rw [Section.ofEntries_of_custom_or_element hx hid]
      simp [Module.append]
    rw [decodeModule_append_eq_ok_iff hsection more m]
    simp only [hinserted]

/-- A start section behind another one, and one that is not interpreted between them. -/
theorem decodeModule_append_start :
    decodeModule {} (header ++ [8, 1, 5]) = .ok { start := some 5 } ∧
      Section.Form {} ⟨.element, []⟩ [9, 1, 0xFF] ∧
      decodeModule {} (header ++ [8, 1, 5] ++ [8, 1, 7]) = .ok { start := some 7 } ∧
      decodeModule {} (header ++ [8, 1, 5] ++ [9, 1, 0xFF] ++ [8, 1, 7]) =
        .ok { start := some 7 } := by
  have hfirst : decodeModule {} (header ++ [8, 1, 5]) = .ok { start := some 5 } := by cbv
  have hsecond : decodeModule {} (header ++ [8, 1, 7]) = .ok { start := some 7 } := by cbv
  have hsize : U32 1 [1] := @Leb128.Unsigned.last 32 1 (by decide) (by decide) (by decide)
  have hskipped : Section.Form {} ⟨.element, []⟩ [9, 1, 0xFF] :=
    ⟨[0xFF], ⟨1, [1], hsize, rfl, rfl⟩, rfl⟩
  have happend := decodeModule_append hfirst [8, 1, 7]
  have hboth := (happend.1 { start := some 7 }).mpr ⟨_, hsecond, rfl⟩
  have hbetween := (happend.2.2 _ _ hskipped (.inr rfl) { start := some 7 }).mpr ⟨_, hsecond, rfl⟩
  exact ⟨hfirst, hskipped, hboth, hbetween⟩

end WasmStream
