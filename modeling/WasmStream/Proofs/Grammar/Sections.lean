import WasmStream.Proofs.Grammar.Code

/-! The written forms of sections, and the module that sections make. What stands in a section depends
on its id; its size says how many bytes that takes. -/
namespace WasmStream
open Reader Grammar Builder

variable (limits : DecoderLimits)

/-- The entries of a section, in their written forms. A section that is not interpreted has none. -/
def Entry.Form : SectionId → Grammar Entry
  | .custom => Image custom (CustomSection.Form limits)
  | .type => Image type FuncType.Form
  | .imports => Image imports (Import.Form limits)
  | .function => Image function U32
  | .table => Image table TableType.Form
  | .memory => Image memory Limits.Form
  | .global => Image global (Global.Form limits)
  | .exports => Image exports (Export.Form limits)
  | .start => Image start U32
  | .element => fun _ _ => False
  | .code => Image code (CodeBody.Form limits)
  | .data => Image data (DataSegment.Form limits)
  | .dataCount => Image dataCount U32

namespace EntryBuilder
variable {σ α : Type} {limits : DecoderLimits} {b : EntryBuilder} {r : Reader α} {G : Grammar α}

theorem atOnce_whole {entry : α → Entry} (hb : ∀ c, builder limits b c = whole r entry b c) :
    atOnce (builder limits) b = r >>= fun a => pure (entry a, b) := by
  have hpass : atOnce (builder limits) b = atOnce (whole r entry) b := by
    funext c
    rw [atOnce, atOnce, hb]
  rw [hpass]
  simp [whole]

theorem atOnce_parts {p : Builder σ α} {fresh : σ} {entry : α → Entry} {wrap : σ → EntryBuilder}
    (hp : atOnce p fresh = r >>= fun a => pure (a, fresh))
    (hb : ∀ c, builder limits (wrap fresh) c = (builder.parts entry p fresh c).mapState wrap) :
    atOnce (builder limits) (wrap fresh) = r >>= fun a => pure (entry a, wrap fresh) := by
  have hpass : atOnce (builder limits) (wrap fresh) =
      atOnce (builder.parts entry p) fresh >>= fun x => pure (x.1, wrap x.2) := by
    funext c
    rw [atOnce, hb, Reader.bind_run, atOnce]
    cases builder.parts entry p fresh c <;> rfl
  rw [hpass]
  simp [builder.parts, hp]

/-- What a builder finds that stays as it is. -/
theorem reads_image {entry : α → Entry}
    (hb : atOnce (builder limits) b = r >>= fun a => pure (entry a, b)) (hr : Reads r G) :
    Reads (atOnce (builder limits) b) fun x w => Image entry G x.1 w ∧ x.2 = b := by
  rw [hb]
  refine hr.map fun x w => ?_
  constructor
  · rintro ⟨⟨a, hx, ha⟩, hb⟩
    exact ⟨a, Prod.ext hx hb, ha⟩
  · rintro ⟨a, rfl, ha⟩
    exact ⟨⟨a, rfl, ha⟩, rfl⟩

/-- A fresh builder finds the entries of its section, and is fresh again behind each of them. -/
theorem reads_builder {id : SectionId} (h : ofSection? id = some b) :
    Reads (atOnce (builder limits) b) fun x w => Entry.Form limits id x.1 w ∧ x.2 = b := by
  cases id with
  | custom | start | element | dataCount => cases h
  | type =>
    cases h
    exact reads_image (atOnce_whole fun c => rfl) FuncType.reads_reader
  | function =>
    cases h
    exact reads_image (atOnce_whole fun c => rfl) reads_u32
  | table =>
    cases h
    exact reads_image (atOnce_whole fun c => rfl) TableType.reads_reader
  | memory =>
    cases h
    exact reads_image (atOnce_whole fun c => rfl) Limits.reads_reader
  | imports =>
    cases h
    exact reads_image (atOnce_parts (ImportBuilder.atOnce_harvest limits) fun c => rfl)
      (Import.reads_reader limits)
  | global =>
    cases h
    exact reads_image (atOnce_parts (GlobalBuilder.atOnce_harvest limits) fun c => rfl)
      (Global.reads_reader limits)
  | exports =>
    cases h
    exact reads_image (atOnce_parts (ExportBuilder.atOnce_harvest limits) fun c => rfl)
      (Export.reads_reader limits)
  | code =>
    cases h
    exact reads_image (atOnce_parts (CodeBuilder.atOnce_harvest limits) fun c => rfl)
      (CodeBody.reads_reader limits)
  | data =>
    cases h
    exact reads_image (atOnce_parts (DataBuilder.atOnce_harvest limits) fun c => rfl)
      (DataSegment.reads_reader limits)

end EntryBuilder

/-- A section with the entries that it holds. -/
structure Section where
  id : SectionId
  entries : List Entry
  deriving DecidableEq, Repr

namespace Section

/-- A custom section, a start function and a data count are single entries, any bytes will do for a
section that is not interpreted, and the others are a number of entries. -/
def Payload (id : SectionId) : Grammar (List Entry) :=
  match id with
  | .custom | .start | .dataCount => Image (fun e => [e]) (Entry.Form limits id)
  | .element => fun entries _ => entries = []
  | _ => Counted (Entry.Form limits id)

/-- An id byte and, in just as many bytes as the size behind it says, a payload. -/
def Frame : Grammar (UInt8 × List UInt8) := fun f w => ∃ (size : UInt32) (u : List UInt8),
  U32 size u ∧ f.2.length = size.toNat ∧ w = f.1 :: (u ++ f.2)

theorem Frame.length_pos {f : UInt8 × List UInt8} {w : List UInt8} (h : Frame f w) : 0 < w.length := by
  obtain ⟨size, u, -, -, rfl⟩ := h
  simp

/-- A frame whose payload is all that stands in the section. -/
def Form : Grammar Section := fun s w =>
  ∃ payload, Frame (s.id.toByte, payload) w ∧ Payload limits s.id s.entries payload

theorem payload_of_builder {id : SectionId} {entry : EntryBuilder}
    (h : EntryBuilder.ofSection? id = some entry) :
    Payload limits id = Counted (Entry.Form limits id) := by
  cases id <;> first | rfl | cases h

end Section

namespace Module

/-- The entries kind by kind, in order of appearance; of the start functions and the data counts the
last one. -/
def ofEntries (entries : List Entry) : Module where
  types := entries.filterMap fun | .type entry => some entry | _ => none
  imports := entries.filterMap fun | .imports entry => some entry | _ => none
  functions := entries.filterMap fun | .function typeIndex => some typeIndex | _ => none
  tables := entries.filterMap fun | .table entry => some entry | _ => none
  memories := entries.filterMap fun | .memory entry => some entry | _ => none
  globals := entries.filterMap fun | .global entry => some entry | _ => none
  exports := entries.filterMap fun | .exports entry => some entry | _ => none
  start := (entries.filterMap fun | .start index => some index | _ => none).getLast?
  dataCount := (entries.filterMap fun | .dataCount count => some count | _ => none).getLast?
  data := entries.filterMap fun | .data entry => some entry | _ => none
  code := entries.filterMap fun | .code entry => some entry | _ => none
  customSections := entries.filterMap fun | .custom entry => some entry | _ => none

theorem ofEntries_concat (entries : List Entry) (e : Entry) :
    ofEntries (entries ++ [e]) = (ofEntries entries).add e := by
  cases e <;> simp [ofEntries, add, List.filterMap_append]

theorem addAll_ofEntries (entries more : List Entry) :
    (ofEntries entries).addAll more = ofEntries (entries ++ more) := by
  induction more generalizing entries with
  | nil => rw [List.append_nil, addAll, List.foldl_nil]
  | cons e more ih =>
    have h := ih (entries ++ [e])
    rw [List.append_assoc, List.singleton_append, ofEntries_concat] at h
    exact h

/-- A module to which entries are added one by one. -/
theorem addAll_empty (entries : List Entry) : empty.addAll entries = ofEntries entries :=
  addAll_ofEntries [] entries

end Module
end WasmStream
