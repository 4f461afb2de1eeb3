import WasmStream.Proofs.Chunking
import WasmStream.Proofs.Grammar.Sections

/-! The written forms of modules. The decoder reads entries where they stand and does not keep them
from reading past the end of their section; it fails behind such an entry, or at the end of a section
that has bytes left, and so comes to a module on just those bytes that are a form of one. -/
namespace WasmStream
open Reader Grammar Builder

namespace SectionFrame
variable {b b' : UInt8} {size : UInt32} {c : Cursor} {k n : Nat} {payload : List UInt8}

theorem reads_headReader : Reads headReader fun head w => ∃ u, U32 head.2 u ∧ w = head.1 :: u := by
  refine (reads_byte.bind fun b => reads_u32.image (Prod.mk b)).of_iff fun head w => ?_
  constructor
  · rintro ⟨b, u, v, rfl, ⟨size, rfl, hsize⟩, rfl⟩
    exact ⟨v, hsize, rfl⟩
  · rintro ⟨u, hsize, rfl⟩
    exact ⟨head.1, [head.1], u, rfl, ⟨head.2, rfl, hsize⟩, rfl⟩

/-- The id byte and the payload of the section that comes next. -/
def reader : Reader (UInt8 × List UInt8) := do
  let head ← headReader
  let payload ← Reader.bytes head.2.toNat
  return (head.1, payload)

theorem reads_reader : Reads reader Section.Frame := by
  refine (reads_headReader.bind fun head => (reads_bytes head.2.toNat).image
    (Prod.mk head.1)).of_iff fun f w => ?_
  constructor
  · rintro ⟨head, _, _, ⟨u, hsize, rfl⟩, ⟨payload, rfl, hlen, rfl⟩, rfl⟩
    exact ⟨head.2, u, hsize, hlen, rfl⟩
  · rintro ⟨size, u, hsize, hlen, rfl⟩
    exact ⟨(f.1, size), f.1 :: u, f.2, ⟨u, hsize, rfl⟩, ⟨f.2, rfl, hlen, rfl⟩, rfl⟩

theorem reader_eq_done_iff (h : headReader c = .done (b, size) k) :
    reader c = .done (b', payload) n ↔ b' = b ∧ n = k + size.toNat ∧
      size.toNat ≤ (c.drop k).rest.length ∧ payload = (c.drop k).rest.take size.toNat := by
  unfold reader
  rw [bind_eq_done]
  constructor
  · rintro ⟨head, k', m, hhead, hpayload, rfl⟩
    cases hhead.symm.trans h
    obtain ⟨hm, found, hfound, hlen, htake⟩ :=
      ((reads_bytes size.toNat).image (Prod.mk b) (c.drop k) _ m).mp hpayload
    cases hfound
    rw [← htake, List.length_take_of_le hm] at hlen
    rw [hlen] at hm htake
    exact ⟨rfl, by rw [hlen], hm, htake.symm⟩
  · rintro ⟨rfl, rfl, hle, rfl⟩
    refine ⟨(b', size), k, size.toNat, h, ?_, rfl⟩
    refine ((reads_bytes size.toNat).image (Prod.mk b') (c.drop k) _ _).mpr ⟨hle, _, rfl, ?_, rfl⟩
    exact List.length_take_of_le hle

end SectionFrame

theorem SectionId.ofByte?_eq_some_iff {b : UInt8} {id : SectionId} :
    ofByte? b = some id ↔ b = id.toByte := by
  constructor
  · intro h
    have hlt : b.toNat < 13 := (List.getElem?_eq_some_iff.mp h).1
    have key : ∀ k : Fin 13, ∀ id, all[k.val]? = some id → id.toByte.toNat = k.val := by decide
    exact UInt8.toNat.inj (key ⟨b.toNat, hlt⟩ id h).symm
  · rintro rfl
    exact ofByte?_toByte id

theorem DecoderState.ofSection_of_builder {s : SectionFrame} {entry : EntryBuilder}
    (h : EntryBuilder.ofSection? s.id = some entry) : ofSection s = entryCount s := by
  obtain ⟨id, start, size⟩ := s
  cases id <;> first | rfl | cases h

namespace Decoder
variable {d d' : Decoder} {c : Cursor} {m : Module} {s : SectionFrame} {e : Error} {n : Nat}

/-- The run over `c` comes to a place where the module may end, and the module is `m` there. -/
def Accepts (d : Decoder) (c : Cursor) (m : Module) : Prop :=
  ∃ d' n, d.run 0 c = (.ok (), d', n) ∧ d'.finishAt (c.drop n) = .ok m

theorem finishAt_eq_ok_iff :
    d.finishAt c = .ok m ↔ d.state = .sectionStart ∧ c.rest = [] ∧ d.module = m := by
  unfold finishAt endsAt isAtBoundary
  split <;> simp_all

theorem accepts_of_ready (h : d.step c = .ready () d' n) :
    d.Accepts c m ↔ d'.Accepts (c.drop n) m := by
  unfold Accepts
  rw [run_shift_of_ready h]
  obtain ⟨⟨result, d₁, k⟩, hrun⟩ : ∃ r, d'.run 0 (c.drop n) = r := ⟨_, rfl⟩
  rw [hrun]
  constructor
  · rintro ⟨d₂, _, hshift, hm⟩
    cases hshift
    exact ⟨d₁, k, rfl, by rwa [Cursor.drop_drop]⟩
  · rintro ⟨d₂, _, hsame, hm⟩
    cases hsame
    exact ⟨d₁, n + k, rfl, by rwa [Cursor.drop_drop] at hm⟩

theorem accepts_of_paused (h : d.step c = .paused d' n) :
    d.Accepts c m ↔ d'.finishAt (c.drop n) = .ok m := by
  unfold Accepts
  rw [run_of_paused h, Nat.zero_add]
  constructor
  · rintro ⟨d₁, _, hsame, hm⟩
    cases hsame
    exact hm
  · intro hm
    exact ⟨d', n, rfl, hm⟩

theorem not_accepts_of_failed (h : d.step c = .failed e d' n) : ¬d.Accepts c m := by
  rintro ⟨d₁, k, hrun, -⟩
  rw [run_of_failed h] at hrun
  cases hrun

/-- What is left to do behind a transition. -/
def AcceptsAfter (c : Cursor) (m : Module) : Pass Decoder Unit → Prop
  | .ready () d' n => d'.Accepts (c.drop n) m
  | .paused d' n => d'.state = .sectionStart ∧ (c.drop n).rest = [] ∧ d'.module = m
  | .failed .. => False

theorem accepts_iff : d.Accepts c m ↔ AcceptsAfter c m (d.step c) := by
  cases h : d.step c with
  | ready _ d' n => exact accepts_of_ready h
  | paused d' n => exact (accepts_of_paused h).trans finishAt_eq_ok_iff
  | failed e d' n => exact iff_of_false (not_accepts_of_failed h) id

/-- The decoder behind a section with these entries. -/
def completed (d : Decoder) (entries : List Entry) : Decoder :=
  { d with state := .sectionStart, module := d.module.addAll entries }

/-- What `r` finds ends just where the section does, and the rest is accepted behind it. -/
def AcceptsSection (d : Decoder) (s : SectionFrame) (r : Reader (List Entry)) (c : Cursor)
    (m : Module) : Prop :=
  ∃ entries n, r c = .done entries n ∧ c.offset + n = s.stop ∧
    (d.completed entries).Accepts (c.drop n) m

theorem accepts_sectionEnd (hs : d.state = .sectionEnd s) :
    d.Accepts c m ↔ c.offset = s.stop ∧ (d.goTo .sectionStart).Accepts c m := by
  rw [accepts_iff, step_sectionEnd hs, stepSectionEnd]
  split
  · next hend => simp only [AcceptsAfter, Cursor.drop_zero, hend, true_and]
  · next hend => simp only [AcceptsAfter, hend, false_and]

theorem acceptsSection_pure {entries : List Entry} : d.AcceptsSection s (pure entries) c m ↔
    c.offset = s.stop ∧ (d.completed entries).Accepts c m := by
  constructor
  · rintro ⟨_, _, hread, hend, hm⟩
    cases hread
    exact ⟨hend, hm⟩
  · rintro ⟨hend, hm⟩
    exact ⟨entries, 0, rfl, hend, hm⟩

theorem acceptsSection_bind_of_done {α : Type} {r : Reader α} {f : α → Reader (List Entry)} {a : α}
    (h : r c = .done a n) :
    d.AcceptsSection s (r >>= f) c m ↔ d.AcceptsSection s (f a) (c.drop n) m := by
  constructor
  · rintro ⟨entries, _, hread, hend, hm⟩
    obtain ⟨_, _, k, hr, hf, rfl⟩ := bind_eq_done.mp hread
    cases h.symm.trans hr
    rw [← Nat.add_assoc] at hend
    rw [← Cursor.drop_drop] at hm
    exact ⟨entries, k, hf, hend, hm⟩
  · rintro ⟨entries, k, hf, hend, hm⟩
    rw [Cursor.drop_offset, Nat.add_assoc] at hend
    rw [Cursor.drop_drop] at hm
    exact ⟨entries, n + k, bind_eq_done.mpr ⟨a, n, k, h, hf, rfl⟩, hend, hm⟩

theorem not_acceptsSection_bind {α : Type} {r : Reader α} {f : α → Reader (List Entry)}
    (h : ∀ a n, r c ≠ .done a n) : ¬d.AcceptsSection s (r >>= f) c m := by
  rintro ⟨entries, _, hread, -⟩
  obtain ⟨a, n, _, hr, -⟩ := bind_eq_done.mp hread
  exact h a n hr

/-- What stands behind the end of the section is not accepted. -/
theorem AcceptsSection.offset_le {r : Reader (List Entry)} (h : d.AcceptsSection s r c m) :
    c.offset ≤ s.stop := by
  obtain ⟨_, n, -, hend, -⟩ := h
  omega

/-- The end of a section that goes without further entries. -/
theorem accepts_goTo_sectionEnd :
    (d.goTo (.sectionEnd s)).Accepts c m ↔ d.AcceptsSection s (pure []) c m := by
  rw [accepts_sectionEnd rfl, acceptsSection_pure]
  rfl

/-- A section that is one entry: a transition reads it and goes to the end of the section. -/
theorem accepts_single {α : Type} {r : Reader α} {entry : α → Entry}
    (hdone : ∀ a n, r c = .done a n → d.step c =
      .ready () { d with state := .sectionEnd s, module := d.module.add (entry a) } n)
    (hother : (∀ a n, r c ≠ .done a n) → ¬d.Accepts c m) :
    d.Accepts c m ↔ d.AcceptsSection s (r >>= fun a => pure [entry a]) c m := by
  by_cases h : ∃ a n, r c = .done a n
  · obtain ⟨a, n, hr⟩ := h
    rw [accepts_of_ready (hdone a n hr), accepts_sectionEnd rfl, acceptsSection_bind_of_done hr,
      acceptsSection_pure]
    rfl
  · have hno (a : α) (n : Nat) : r c ≠ .done a n := fun hr => h ⟨a, n, hr⟩
    exact iff_of_false (hother hno) (not_acceptsSection_bind hno)

theorem accepts_number {entry : UInt32 → Entry} (hstep : d.step c = d.stepNumber s entry c)
    (hs : d.state ≠ .sectionStart) :
    d.Accepts c m ↔ d.AcceptsSection s (Reader.u32 >>= fun value => pure [entry value]) c m := by
  refine accepts_single (fun value n hr => ?_) fun hr hm => ?_
  · rw [hstep, stepNumber, hr]
  · rw [accepts_iff, hstep, stepNumber] at hm
    cases hc : Reader.u32 c with
    | done value n => exact hr value n hc
    | needMore =>
      rw [hc] at hm
      exact hs hm.1
    | fail e =>
      rw [hc] at hm
      exact hm

theorem accepts_custom (hs : d.state = .custom s {}) :
    d.Accepts c m ↔ d.AcceptsSection s
      (CustomSection.reader d.limits s.stop >>= fun entry => pure [Entry.custom entry]) c m := by
  have hbuild {entry : CustomSection} {t : CustomBuilder} {n : Nat} :
      harvest (CustomBuilder.builder d.limits s.stop) CustomBuilder.freeze {} {} c =
        .ready entry t n ↔ CustomSection.reader d.limits s.stop c = .done entry n ∧ t = {} := by
    rw [ready_iff, CustomBuilder.atOnce_harvest, map_eq_done]
    constructor
    · rintro ⟨_, hr, hsame⟩
      cases hsame
      exact ⟨hr, rfl⟩
    · rintro ⟨hr, rfl⟩
      exact ⟨entry, hr, rfl⟩
  refine accepts_single (fun entry n hr => ?_) fun hr hm => ?_
  · rw [step_custom hs, stepCustom, hbuild.mpr ⟨hr, rfl⟩]
  · rw [accepts_iff, step_custom hs, stepCustom] at hm
    cases hc : harvest (CustomBuilder.builder d.limits s.stop) CustomBuilder.freeze {} {} c with
    | ready entry t n => exact hr entry n (hbuild.mp hc).1
    | paused t n =>
      rw [hc] at hm
      cases hm.1
    | failed e t n =>
      rw [hc] at hm
      exact hm

theorem accepts_skip (hs : d.state = .skip s) :
    d.Accepts c m ↔ d.AcceptsSection s
      (Reader.bytes (s.stop - c.offset) >>= fun _ => pure []) c m := by
  by_cases h : s.stop ≤ c.offset + c.rest.length
  · have hbytes : Reader.bytes (s.stop - c.offset) c =
        .done (c.rest.take (s.stop - c.offset)) (s.stop - c.offset) := bytes_of_le (by omega)
    rw [accepts_of_ready (by rw [step_skip hs, stepSkip_long h]), accepts_goTo_sectionEnd,
      acceptsSection_bind_of_done hbytes]
  · have hbytes : Reader.bytes (s.stop - c.offset) c = .needMore := bytes_of_not_le (by omega)
    refine iff_of_false ?_ (not_acceptsSection_bind fun a n hr => by cases hbytes.symm.trans hr)
    rintro ⟨d', n, hrun, hm⟩
    rw [run_skip_short hs (Nat.lt_of_not_le h)] at hrun
    cases hrun
    cases hs.symm.trans (finishAt_eq_ok_iff.mp hm).1

section Entries
variable {entry : EntryBuilder} {k : Nat}

/-- The next entry of a section, by its builder. -/
def entryReader (limits : DecoderLimits) (entry : EntryBuilder) : Reader Entry := do
  let x ← atOnce (EntryBuilder.builder limits) entry
  return x.1

theorem reads_entryReader (limits : DecoderLimits) {id : SectionId}
    (h : EntryBuilder.ofSection? id = some entry) :
    Reads (entryReader limits entry) (Entry.Form limits id) := by
  refine (EntryBuilder.reads_builder h).map fun e w => ?_
  constructor
  · intro he
    exact ⟨(e, entry), rfl, he, rfl⟩
  · rintro ⟨x, rfl, hx, -⟩
    exact hx

/-- A fresh builder is fresh again behind an entry. -/
theorem builder_eq_ready_iff {id : SectionId} (h : EntryBuilder.ofSection? id = some entry)
    {limits : DecoderLimits} {e : Entry} {t : EntryBuilder} :
    EntryBuilder.builder limits entry c = .ready e t n ↔
      entryReader limits entry c = .done e n ∧ t = entry := by
  rw [ready_iff, entryReader, map_eq_done]
  constructor
  · intro hr
    obtain ⟨-, -, rfl⟩ := (EntryBuilder.reads_builder h c _ n).mp hr
    exact ⟨⟨(e, t), hr, rfl⟩, rfl⟩
  · rintro ⟨⟨x, hr, rfl⟩, rfl⟩
    obtain ⟨-, -, hx⟩ := (EntryBuilder.reads_builder h c x n).mp hr
    rw [hr, ← hx]

/-- The decoder when so many entries are still to come. -/
def expecting (d : Decoder) (s : SectionFrame) (entry : EntryBuilder) : Nat → Decoder
  | 0 => d.goTo (.sectionEnd s)
  | remaining + 1 => d.goTo (.entries s (remaining + 1) entry)

/-- An entry and the entries behind it. -/
theorem acceptsSection_times {r : Reader Entry} {e : Entry} (h : r c = .done e n) :
    d.AcceptsSection s (times r (k + 1)) c m ↔
      ({ d with module := d.module.add e } : Decoder).AcceptsSection s (times r k) (c.drop n) m := by
  rw [times, acceptsSection_bind_of_done h]
  constructor
  · rintro ⟨_, j, hread, hend, hm⟩
    obtain ⟨rest, hrest, rfl⟩ := map_eq_done.mp hread
    exact ⟨rest, j, hrest, hend, hm⟩
  · rintro ⟨rest, j, hrest, hend, hm⟩
    exact ⟨e :: rest, j, map_eq_done.mpr ⟨rest, hrest, rfl⟩, hend, hm⟩

/-- Entries are checked against the end of the section one by one, which is no more than that the last
one ends there. -/
theorem accepts_expecting (h : EntryBuilder.ofSection? s.id = some entry) :
    (d.expecting s entry k).Accepts c m ↔
      d.AcceptsSection s (times (entryReader d.limits entry) k) c m := by
  induction k generalizing d c with
  | zero => exact accepts_goTo_sectionEnd
  | succ k ih =>
    rw [expecting, accepts_iff, step_entries rfl, stepEntries]
    have hother (hno : ∀ e t n, EntryBuilder.builder d.limits entry c ≠ .ready e t n) :
        ¬d.AcceptsSection s (times (entryReader d.limits entry) (k + 1)) c m :=
      not_acceptsSection_bind fun e n hr => hno e entry n ((builder_eq_ready_iff h).mpr ⟨hr, rfl⟩)
    cases hc : EntryBuilder.builder (d.goTo (.entries s (k + 1) entry)).limits entry c with
    | ready e t n =>
      obtain ⟨hr, rfl⟩ := (builder_eq_ready_iff h).mp hc
      have hnext : d.AcceptsSection s (times (entryReader d.limits t) (k + 1)) c m ↔
          (({ d with module := d.module.add e } : Decoder).expecting s t k).Accepts (c.drop n) m :=
        (acceptsSection_times hr).trans ih.symm
      rw [hnext]
      dsimp only
      split
      · next hpast =>
        refine iff_of_false id fun hm => ?_
        exact absurd (ih.mp hm).offset_le (Nat.not_le_of_lt hpast)
      · cases k with
        | zero => exact Iff.rfl
        | succ k => exact Iff.rfl
    | paused t n =>
      refine iff_of_false ?_ (hother fun e t' n' hready => by cases hc.symm.trans hready)
      dsimp only
      split
      · exact id
      · rintro ⟨hs, -⟩
        cases hs
    | failed e t n =>
      exact iff_of_false id (hother fun e t' n' hready => by cases hc.symm.trans hready)

theorem accepts_entryCount (hs : d.state = .entryCount s)
    (h : EntryBuilder.ofSection? s.id = some entry) :
    d.Accepts c m ↔ d.AcceptsSection s (Reader.u32 >>= fun count =>
      times (entryReader d.limits entry) count.toNat) c m := by
  rw [accepts_iff, step_entryCount hs, stepEntryCount]
  cases hc : Reader.u32 c with
  | done count n =>
    rw [acceptsSection_bind_of_done hc, ← accepts_expecting h, h]
    dsimp only
    split
    · next hpast =>
      refine iff_of_false id fun hm => ?_
      exact absurd ((accepts_expecting h).mp hm).offset_le (Nat.not_le_of_lt hpast)
    · split
      · next hzero =>
        rw [hzero]
        exact Iff.rfl
      · next hpos =>
        have hpos' : count.toNat ≠ 0 := fun hzero => hpos (UInt32.toNat_inj.mp hzero)
        obtain ⟨k, hk⟩ := Nat.exists_eq_succ_of_ne_zero hpos'
        rw [hk]
        exact Iff.rfl
  | needMore =>
    refine iff_of_false (fun hm => ?_)
      (not_acceptsSection_bind fun count n hr => by cases hc.symm.trans hr)
    cases hs.symm.trans hm.1
  | fail e =>
    exact iff_of_false id (not_acceptsSection_bind fun count n hr => by cases hc.symm.trans hr)

end Entries

/-- A reader that is exact for the payload where the section has its size is exact for the section. -/
theorem acceptsSection_iff_payload {r : Reader (List Entry)} (hstart : c.offset = s.start)
    (hr : ∀ entries n, c.offset + n = s.stop → (r c = .done entries n ↔
      n ≤ c.rest.length ∧ Section.Payload d.limits s.id entries (c.rest.take n))) :
    d.AcceptsSection s r c m ↔ ∃ entries, s.size.toNat ≤ c.rest.length ∧
      Section.Payload d.limits s.id entries (c.rest.take s.size.toNat) ∧
      (d.completed entries).Accepts (c.drop s.size.toNat) m := by
  have hstop : c.offset + s.size.toNat = s.stop := by rw [hstart, SectionFrame.stop]
  constructor
  · intro h
    obtain ⟨entries, n, hread, hend, hm⟩ := h
    obtain rfl : n = s.size.toNat := by omega
    obtain ⟨hle, hpayload⟩ := (hr entries _ hend).mp hread
    exact ⟨entries, hle, hpayload, hm⟩
  · intro h
    obtain ⟨entries, hle, hpayload, hm⟩ := h
    exact ⟨entries, _, (hr entries _ hstop).mpr ⟨hle, hpayload⟩, hstop, hm⟩

/-- The payload of a section is accepted if and only if it has the form that belongs to its id. -/
theorem accepts_payload (hstart : c.offset = s.start) :
    (d.goTo (.ofSection s)).Accepts c m ↔ ∃ entries, s.size.toNat ≤ c.rest.length ∧
      Section.Payload d.limits s.id entries (c.rest.take s.size.toNat) ∧
      (d.completed entries).Accepts (c.drop s.size.toNat) m := by
  cases hb : EntryBuilder.ofSection? s.id with
  | some entry =>
    rw [DecoderState.ofSection_of_builder hb]
    refine (accepts_entryCount rfl hb).trans
      (acceptsSection_iff_payload (d := d) hstart fun entries n _ => ?_)
    rw [Section.payload_of_builder d.limits hb]
    exact reads_counted (reads_entryReader d.limits hb) c entries n
  | none =>
    obtain ⟨id, start, size⟩ := s
    cases id with
    | custom =>
      refine (accepts_custom rfl).trans
        (acceptsSection_iff_payload (d := d) hstart fun entries n hend => ?_)
      rw [map_eq_done]
      constructor
      · rintro ⟨entry, hr, rfl⟩
        obtain ⟨-, hn, hform⟩ := (CustomSection.reader_eq_done_iff d.limits).mp hr
        exact ⟨hn, image_image_iff.mpr ⟨entry, rfl, hform⟩⟩
      · rintro ⟨hn, hpayload⟩
        obtain ⟨entry, rfl, hform⟩ := image_image_iff.mp hpayload
        exact ⟨entry, (CustomSection.reader_eq_done_iff d.limits).mpr ⟨hend, hn, hform⟩, rfl⟩
    | start =>
      have hstate : (d.goTo (.startFunction ⟨.start, start, size⟩)).state ≠ .sectionStart :=
        DecoderState.noConfusion
      refine (accepts_number (step_startFunction rfl c) hstate).trans
        (acceptsSection_iff_payload (d := d) hstart fun entries n _ => ?_)
      refine (reads_u32.map fun entries w => ?_) c entries n
      exact image_image_iff
    | dataCount =>
      have hstate : (d.goTo (.dataCount ⟨.dataCount, start, size⟩)).state ≠ .sectionStart :=
        DecoderState.noConfusion
      refine (accepts_number (step_dataCount rfl c) hstate).trans
        (acceptsSection_iff_payload (d := d) hstart fun entries n _ => ?_)
      refine (reads_u32.map fun entries w => ?_) c entries n
      exact image_image_iff
    | element =>
      refine (accepts_skip rfl).trans
        (acceptsSection_iff_payload (d := d) hstart fun entries n hend => ?_)
      rw [map_eq_done, ← hend, Nat.add_sub_cancel_left]
      constructor
      · rintro ⟨bytes, hr, rfl⟩
        exact ⟨((reads_bytes n c _ _).mp hr).1, rfl⟩
      · rintro ⟨hn, hpayload⟩
        exact ⟨_, bytes_of_le hn, hpayload⟩
    | _ => cases hb

/-- In front of a section the bytes may be at their end, or go on with a section. -/
theorem accepts_sectionStart (hs : d.state = .sectionStart) :
    d.Accepts c m ↔ (c.rest = [] ∧ d.module = m) ∨ ∃ (x : Section) (payload : List UInt8) (n : Nat),
      SectionFrame.reader c = .done (x.id.toByte, payload) n ∧
        Section.Payload d.limits x.id x.entries payload ∧
        (d.completed x.entries).Accepts (c.drop n) m := by
  rw [accepts_iff, step_sectionStart hs, stepSectionStart]
  have hother (hno : ∀ head k, SectionFrame.headReader c ≠ .done head k) :
      ¬∃ (x : Section) (payload : List UInt8) (n : Nat),
        SectionFrame.reader c = .done (x.id.toByte, payload) n ∧
          Section.Payload d.limits x.id x.entries payload ∧
          (d.completed x.entries).Accepts (c.drop n) m := by
    rintro ⟨x, payload, n, hframe, -⟩
    obtain ⟨head, k, -, hhead, -⟩ := bind_eq_done.mp hframe
    exact hno head k hhead
  cases hc : SectionFrame.headReader c with
  | done head k =>
    obtain ⟨b, size⟩ := head
    have hrest : c.rest ≠ [] := (rest_ne_nil_of_head hc).2
    simp only [SectionFrame.reader_eq_done_iff hc, hrest, false_and, false_or]
    cases hid : SectionId.ofByte? b with
    | some id =>
      obtain rfl := SectionId.ofByte?_eq_some_iff.mp hid
      dsimp only [AcceptsAfter]
      rw [accepts_payload rfl]
      constructor
      · rintro ⟨entries, hle, hpayload, hm⟩
        rw [Cursor.drop_drop] at hm
        exact ⟨⟨id, entries⟩, _, _, ⟨rfl, rfl, hle, rfl⟩, hpayload, hm⟩
      · rintro ⟨x, _, _, ⟨hb, rfl, hle, rfl⟩, hpayload, hm⟩
        rw [← hb, SectionId.ofByte?_toByte] at hid
        obtain rfl : x.id = id := Option.some.inj hid
        exact ⟨x.entries, hle, hpayload, by rwa [Cursor.drop_drop]⟩
    | none =>
      refine iff_of_false id ?_
      rintro ⟨x, _, _, ⟨hb, -⟩, -⟩
      rw [← hb, SectionId.ofByte?_toByte] at hid
      cases hid
  | needMore =>
    have hno := hother fun head k hhead => by cases hc.symm.trans hhead
    rw [or_iff_left hno]
    exact and_iff_right hs
  | fail e =>
    have hno := hother fun head k hhead => by cases hc.symm.trans hhead
    rw [or_iff_left hno]
    refine iff_of_false id ?_
    rintro ⟨hnil, -⟩
    simp [SectionFrame.headReader, Reader.bind_run, Reader.byte, hnil] at hc

theorem completed_completed (d : Decoder) (entries more : List Entry) :
    (d.completed entries).module.addAll more = d.module.addAll (entries ++ more) := by
  simp [completed, Module.addAll, List.foldl_append]

/-- From section to section, each of which shortens the bytes. -/
theorem accepts_sections (hs : d.state = .sectionStart) :
    d.Accepts c m ↔ ∃ sections, Many (Section.Form d.limits) sections c.rest ∧
      m = d.module.addAll (sections.flatMap Section.entries) := by
  induction hk : c.rest.length using Nat.strongRecOn generalizing d c with
  | ind k ih =>
    subst hk
    rw [accepts_sectionStart hs]
    constructor
    · rintro (⟨hnil, rfl⟩ | ⟨x, payload, n, hframe, hpayload, hm⟩)
      · exact ⟨[], many_nil_iff.mpr hnil, rfl⟩
      · obtain ⟨hn, hform⟩ := (SectionFrame.reads_reader c _ n).mp hframe
        have hpos := hform.length_pos
        rw [List.length_take_of_le hn] at hpos
        have hlt : (c.drop n).rest.length < c.rest.length := by
          rw [Cursor.drop_rest, List.length_drop]
          omega
        obtain ⟨sections, hsections, rfl⟩ := (ih _ hlt rfl rfl).mp hm
        refine ⟨x :: sections, ?_, ?_⟩
        · rw [← List.take_append_drop n c.rest]
          exact .cons ⟨payload, hform, hpayload⟩ hsections
        · rw [List.flatMap_cons, completed_completed]
    · rintro ⟨sections, hsections, rfl⟩
      obtain ⟨offset, rest⟩ := c
      cases hsections with
      | nil => exact .inl ⟨rfl, rfl⟩
      | @cons x sections u v hx hsections =>
        obtain ⟨payload, hframe, hpayload⟩ := hx
        have hrest : ((Cursor.mk offset (u ++ v)).drop u.length).rest = v := by simp
        have hpos := hframe.length_pos
        have hlt : ((Cursor.mk offset (u ++ v)).drop u.length).rest.length < (u ++ v).length := by
          rw [hrest, List.length_append]
          omega
        refine .inr ⟨x, payload, u.length, SectionFrame.reads_reader.complete hframe offset,
          hpayload, (ih _ hlt rfl rfl).mpr ⟨sections, ?_, ?_⟩⟩
        · rw [hrest]
          exact hsections
        · rw [List.flatMap_cons, completed_completed]

theorem accepts_new {limits : DecoderLimits} {bytes : List UInt8} :
    (new limits).Accepts (Cursor.whole bytes) m ↔ ∃ w, bytes = header ++ w ∧
      ((new limits).goTo .sectionStart).Accepts ⟨8, w⟩ m := by
  rw [accepts_iff, step_header rfl, stepHeader]
  by_cases hle : 8 ≤ bytes.length
  · rw [bytes_of_le (c := Cursor.whole bytes) hle]
    dsimp only
    split
    · next hheader =>
      have hbytes : bytes = header ++ bytes.drop 8 := by
        rw [← hheader]
        exact (List.take_append_drop 8 bytes).symm
      constructor
      · intro hm
        exact ⟨bytes.drop 8, hbytes, hm⟩
      · rintro ⟨w, rfl, hm⟩
        exact hm
    · next hheader =>
      refine iff_of_false id ?_
      rintro ⟨w, rfl, -⟩
      exact hheader rfl
  · rw [bytes_of_not_le (c := Cursor.whole bytes) hle]
    refine iff_of_false (fun hm => by cases hm.1) ?_
    rintro ⟨w, rfl, -⟩
    exact hle (by simp [header, magic, version])

theorem decodeModule_eq_ok_iff_accepts {limits : DecoderLimits} {bytes : List UInt8} :
    decodeModule limits bytes = .ok m ↔ (new limits).Accepts (Cursor.whole bytes) m := by
  obtain ⟨⟨result, d, n⟩, hrun⟩ : ∃ r, (new limits).run 0 (Cursor.whole bytes) = r := ⟨_, rfl⟩
  unfold Accepts
  rw [hrun]
  cases result with
  | ok =>
    rw [decodeModule_of_run hrun]
    constructor
    · intro hm
      exact ⟨d, n, rfl, hm⟩
    · rintro ⟨_, _, hsame, hm⟩
      cases hsame
      exact hm
  | error e =>
    rw [decodeModule_of_run_error hrun]
    refine iff_of_false (fun h => by cases h) ?_
    rintro ⟨_, _, hsame, -⟩
    cases hsame

end Decoder

/-- Bytes are decoded to a module if and only if they are the header and sections behind it, and the
module is what the entries of the sections make. -/
theorem decodeModule_eq_ok_iff {limits : DecoderLimits} {bytes : List UInt8} {m : Module} :
    decodeModule limits bytes = .ok m ↔ ∃ sections w, bytes = header ++ w ∧
      Many (Section.Form limits) sections w ∧
      m = Module.ofEntries (sections.flatMap Section.entries) := by
  have hsections (w : List UInt8) : ((Decoder.new limits).goTo .sectionStart).Accepts ⟨8, w⟩ m ↔
      ∃ sections, Many (Section.Form limits) sections w ∧
        m = Module.ofEntries (sections.flatMap Section.entries) := by
    simp only [← Module.addAll_empty]
    exact Decoder.accepts_sections rfl
  rw [Decoder.decodeModule_eq_ok_iff_accepts, Decoder.accepts_new]
  simp only [hsections]
  constructor
  · rintro ⟨w, hbytes, sections, hsections, hm⟩
    exact ⟨sections, w, hbytes, hsections, hm⟩
  · rintro ⟨sections, w, hbytes, hsections, hm⟩
    exact ⟨w, hbytes, sections, hsections, hm⟩

/-- A second start section, with a padded size, replaces the first. -/
example : decodeModule {} (header ++ [8, 1, 0, 8, 0x81, 0, 7]) = .ok { start := some 7 } := by cbv

end WasmStream
