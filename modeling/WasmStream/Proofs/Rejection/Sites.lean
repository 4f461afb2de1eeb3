import WasmStream.Proofs.FieldSequence
import WasmStream.Proofs.Grammar.Module
import WasmStream.Proofs.Rejection.Decoder

/-! The places where an error is forgotten. What is refused there has been read to its end, and the
decoder is left as it was in front of it: a header, the head of a section, a field with its length, the
size of a body, the flags of a segment, and the name of a section whose payload is too long. -/
namespace WasmStream
open Reader Builder Grammar

namespace Builder
variable {σ τ α : Type} {s t : σ} {c : Cursor} {e : Error} {n : Nat}

theorem remember_of_failed {field : σ → Option α} {put : α → σ → σ} {p : Builder σ α}
    (hs : field s = none) (hp : p s c = .failed e t n) : remember field put p s c = .failed e t n := by
  rw [remember_of_none hs]
  exact bind_of_failed _ hp

/-- The field that comes next is answered, and the one behind it awaited. -/
theorem pendingField_settled {part : σ → Pending} {put : Pending → σ → σ} (content : Content α)
    {maxLength : UInt32} {answer : Except Error α} (hfield : part s = .awaitingLength)
    (hput : put (part s) s = s) (hnext : Pending.Next content maxLength c answer n) :
    zoom part put (Pending.builder content.freeze maxLength) s c = .settled answer s n := by
  rw [hfield] at hput
  rw [zoom_run, hfield, hnext.builder_eq]
  cases answer with
  | ok a => exact congrArg (Pass.ready a · n) hput
  | error e => exact congrArg (Pass.failed e · n) hput

end Builder

section Entries
variable (limits : DecoderLimits) {c : Cursor} {e : Error} {n : Nat}

theorem ImportBuilder.refused_moduleName {b : ImportBuilder} (hmodule : b.moduleName = none)
    (hfield : b.moduleField = .awaitingLength)
    (hnext : Pending.Next .name limits.maxPayloadSize c (.error e) n) :
    builder limits b c = .failed e b n :=
  bind_of_failed _ (remember_of_failed hmodule (pendingField_settled .name hfield rfl hnext))

theorem ImportBuilder.refused_name {b : ImportBuilder} {moduleName : String}
    (hmodule : b.moduleName = some moduleName) (hname : b.name = none)
    (hfield : b.nameField = .awaitingLength)
    (hnext : Pending.Next .name limits.maxPayloadSize c (.error e) n) :
    builder limits b c = .failed e b n :=
  (remember_bind_of_some hmodule c).trans
    (bind_of_failed _ (remember_of_failed hname (pendingField_settled .name hfield rfl hnext)))

theorem ExportBuilder.refused_name {b : ExportBuilder} (hname : b.name = none)
    (hfield : b.nameField = .awaitingLength)
    (hnext : Pending.Next .name limits.maxPayloadSize c (.error e) n) :
    builder limits b c = .failed e b n :=
  bind_of_failed _ (remember_of_failed hname (pendingField_settled .name hfield rfl hnext))

theorem CodeBuilder.refused_size {b : CodeBuilder} {size : UInt32} {w rest : List UInt8}
    (hsize : b.size = none) (hform : U32 size w) (hlt : limits.maxPayloadSize < size)
    (hrest : c.rest = w ++ rest) : builder limits b c =
      .failed (.limitExceeded "code body size" limits.maxPayloadSize.toNat c.offset) b w.length := by
  rw [builder_eq]
  apply bind_of_failed
  rw [readSize_of_none limits hsize, (Leb128.read_u32 hform hrest).1]
  exact if_pos hlt

theorem DataBuilder.refused_flags {b : DataBuilder} {flags : UInt32} {w rest : List UInt8}
    (hflags : b.flags = none) (hform : U32 flags w) (hlt : 2 < flags) (hrest : c.rest = w ++ rest) :
    builder limits b c = .failed (.unexpectedElement "data segment flags" c.offset) b w.length := by
  apply bind_of_failed
  apply remember_of_failed hflags
  simp only [readFlags, Builder.bind_run, Builder.offset, Builder.read, Builder.fail,
    Cursor.drop_zero, (Leb128.read_u32 hform hrest).1, if_pos hlt, Pass.after_zero]
  rfl

theorem DataBuilder.refused_bytes {b : DataBuilder} {flags index : UInt32} {offset : Expression}
    (hflags : b.flags = some flags) (hindex : b.memoryIndex = some index)
    (hoffset : b.offset = some offset) (hbytes : b.bytes = none) (hfield : b.payload = .awaitingLength)
    (hnext : Pending.Next .bytes limits.maxPayloadSize c (.error e) n) :
    builder limits b c = .failed e b n := calc
  builder limits b c = _ := remember_bind_of_some hflags c
  _ = _ := remember_bind_of_some hindex c
  _ = _ := remember_bind_of_some hoffset c
  _ = .failed e b n :=
    bind_of_failed _ (remember_of_failed hbytes (pendingField_settled .bytes hfield rfl hnext))

theorem CustomBuilder.refused_name {b : CustomBuilder} {sectionEnd : Nat} (hname : b.name = none)
    (hfield : b.nameField = .awaitingLength)
    (hnext : Pending.Next .name limits.maxPayloadSize c (.error e) n) :
    builder limits sectionEnd b c = .failed e b n :=
  bind_of_failed _ (remember_of_failed hname
    (bind_of_failed _ (pendingField_settled .name hfield rfl hnext)))

theorem CustomBuilder.refused_payload {b : CustomBuilder} {sectionEnd : Nat} {name : String}
    (hname : b.name = none) (hfield : b.nameField = .awaitingLength)
    (hnext : Pending.Next .name limits.maxPayloadSize c (.ok name) n)
    (hle : c.offset + n ≤ sectionEnd)
    (hlt : limits.maxPayloadSize.toNat < sectionEnd - (c.offset + n)) :
    builder limits sectionEnd b c = .failed (.limitExceeded "custom section payload"
      limits.maxPayloadSize.toNat (c.offset + n)) b n := by
  apply bind_of_failed
  apply remember_of_failed hname
  have hread : zoom nameField (fun p b => { b with nameField := p })
      (Pending.builder readName limits.maxPayloadSize) b c = .ready name b n :=
    pendingField_settled .name hfield rfl hnext
  rw [readHead_run, hread]
  simp only [if_neg (Nat.not_lt.mpr hle), if_pos hlt]

end Entries

namespace EntryBuilder
variable {limits : DecoderLimits} {c : Cursor} {e : Error} {n : Nat}

/-- What comes next in an entry is refused when `n` bytes have been read for it. -/
inductive Refused (limits : DecoderLimits) (c : Cursor) : EntryBuilder → Error → Nat → Prop
  | moduleName {b : ImportBuilder} {e : Error} {n : Nat} (hmodule : b.moduleName = none)
      (hfield : b.moduleField = .awaitingLength)
      (hnext : Pending.Next .name limits.maxPayloadSize c (.error e) n) :
      Refused limits c (.imports b) e n
  | importName {b : ImportBuilder} {e : Error} {n : Nat} {moduleName : String}
      (hmodule : b.moduleName = some moduleName) (hname : b.name = none)
      (hfield : b.nameField = .awaitingLength)
      (hnext : Pending.Next .name limits.maxPayloadSize c (.error e) n) :
      Refused limits c (.imports b) e n
  | exportName {b : ExportBuilder} {e : Error} {n : Nat} (hname : b.name = none)
      (hfield : b.nameField = .awaitingLength)
      (hnext : Pending.Next .name limits.maxPayloadSize c (.error e) n) :
      Refused limits c (.exports b) e n
  | codeSize {b : CodeBuilder} {size : UInt32} {w rest : List UInt8} (hsize : b.size = none)
      (hform : U32 size w) (hlt : limits.maxPayloadSize < size) (hrest : c.rest = w ++ rest) :
      Refused limits c (.code b)
        (.limitExceeded "code body size" limits.maxPayloadSize.toNat c.offset) w.length
  | dataFlags {b : DataBuilder} {flags : UInt32} {w rest : List UInt8} (hflags : b.flags = none)
      (hform : U32 flags w) (hlt : 2 < flags) (hrest : c.rest = w ++ rest) :
      Refused limits c (.data b) (.unexpectedElement "data segment flags" c.offset) w.length
  | dataBytes {b : DataBuilder} {e : Error} {n : Nat} {flags index : UInt32} {offset : Expression}
      (hflags : b.flags = some flags) (hindex : b.memoryIndex = some index)
      (hoffset : b.offset = some offset) (hbytes : b.bytes = none)
      (hfield : b.payload = .awaitingLength)
      (hnext : Pending.Next .bytes limits.maxPayloadSize c (.error e) n) :
      Refused limits c (.data b) e n

theorem builder_of_failed {σ α : Type} {p : Builder σ Unit} {freeze : σ → Except Error α} {fresh s : σ}
    {entry : α → Entry} {inside : σ → EntryBuilder}
    (hbuilder : builder limits (inside s) c =
      (builder.parts entry (harvest p freeze fresh) s c).mapState inside)
    (hp : p s c = .failed e s n) : builder limits (inside s) c = .failed e (inside s) n := by
  have hharvest : harvest p freeze fresh s c = .failed e s n := bind_of_failed _ hp
  have hparts : builder.parts entry (harvest p freeze fresh) s c = .failed e s n :=
    bind_of_failed _ hharvest
  rw [hbuilder, hparts]
  rfl

theorem Refused.builder_eq {entry : EntryBuilder} (h : Refused limits c entry e n) :
    builder limits entry c = .failed e entry n := by
  cases h with
  | moduleName hmodule hfield hnext =>
    exact builder_of_failed rfl (ImportBuilder.refused_moduleName limits hmodule hfield hnext)
  | importName hmodule hname hfield hnext =>
    exact builder_of_failed rfl (ImportBuilder.refused_name limits hmodule hname hfield hnext)
  | exportName hname hfield hnext =>
    exact builder_of_failed rfl (ExportBuilder.refused_name limits hname hfield hnext)
  | codeSize hsize hform hlt hrest =>
    exact builder_of_failed rfl (CodeBuilder.refused_size limits hsize hform hlt hrest)
  | dataFlags hflags hform hlt hrest =>
    exact builder_of_failed rfl (DataBuilder.refused_flags limits hflags hform hlt hrest)
  | dataBytes hflags hindex hoffset hbytes hfield hnext =>
    exact builder_of_failed rfl
      (DataBuilder.refused_bytes limits hflags hindex hoffset hbytes hfield hnext)

end EntryBuilder

/-- The name of a custom section is refused, or the payload that would come behind it. -/
inductive CustomBuilder.Refused (limits : DecoderLimits) (sectionEnd : Nat) (c : Cursor) :
    CustomBuilder → Error → Nat → Prop
  | name {b : CustomBuilder} {e : Error} {n : Nat} (hname : b.name = none)
      (hfield : b.nameField = .awaitingLength)
      (hnext : Pending.Next .name limits.maxPayloadSize c (.error e) n) :
      Refused limits sectionEnd c b e n
  | payload {b : CustomBuilder} {n : Nat} {name : String} (hname : b.name = none)
      (hfield : b.nameField = .awaitingLength)
      (hnext : Pending.Next .name limits.maxPayloadSize c (.ok name) n)
      (hle : c.offset + n ≤ sectionEnd)
      (hlt : limits.maxPayloadSize.toNat < sectionEnd - (c.offset + n)) :
      Refused limits sectionEnd c b (.limitExceeded "custom section payload"
        limits.maxPayloadSize.toNat (c.offset + n)) n

theorem CustomBuilder.Refused.builder_eq {limits : DecoderLimits} {sectionEnd n : Nat} {c : Cursor}
    {e : Error} {b : CustomBuilder} (h : Refused limits sectionEnd c b e n) :
    builder limits sectionEnd b c = .failed e b n := by
  cases h with
  | name hname hfield hnext => exact refused_name limits hname hfield hnext
  | payload hname hfield hnext hle hlt => exact refused_payload limits hname hfield hnext hle hlt

namespace Decoder
variable {d : Decoder} {c : Cursor} {e : Error} {n : Nat}

/-- The first `n` bytes are refused with an error that leaves no trace but that they have been read. -/
inductive Forgets (d : Decoder) (c : Cursor) : Error → Nat → Prop
  | header {found rest : List UInt8} (hs : d.state = .header) (hlength : found.length = 8)
      (hbad : found ≠ header) (hrest : c.rest = found ++ rest) :
      Forgets d c (headerError found) found.length
  | unknownSection {id : UInt8} {size : UInt32} {w rest : List UInt8} (hs : d.state = .sectionStart)
      (hid : SectionId.ofByte? id = none) (hsize : U32 size w) (hrest : c.rest = (id :: w) ++ rest) :
      Forgets d c (.unknownSection id c.offset) (id :: w).length
  | entry {s : SectionFrame} {remaining n : Nat} {entry : EntryBuilder} {e : Error}
      (hs : d.state = .entries s remaining entry) (hrefused : entry.Refused d.limits c e n) :
      Forgets d c e n
  | custom {s : SectionFrame} {n : Nat} {entry : CustomBuilder} {e : Error}
      (hs : d.state = .custom s entry) (hrefused : entry.Refused d.limits s.stop c e n) :
      Forgets d c e n

theorem step_badHeader (hs : d.state = .header) {found rest : List UInt8} (hlength : found.length = 8)
    (hbad : found ≠ WasmStream.header) (hrest : c.rest = found ++ rest) :
    d.step c = .failed (headerError found) d found.length := by
  have hread : Reader.bytes 8 c = .done found 8 := by
    rw [bytes_of_le (by rw [hrest, List.length_append]; omega), hrest, List.take_left' hlength]
  rw [step_header hs, stepHeader, hread, hlength]
  exact if_neg hbad

theorem step_unknownSection (hs : d.state = .sectionStart) {id : UInt8} {size : UInt32}
    {w rest : List UInt8} (hid : SectionId.ofByte? id = none) (hsize : U32 size w)
    (hrest : c.rest = (id :: w) ++ rest) :
    d.step c = .failed (.unknownSection id c.offset) d (id :: w).length := by
  have hread : SectionFrame.headReader ⟨c.offset, (id :: w) ++ rest⟩ =
      .done (id, size) (id :: w).length :=
    SectionFrame.reads_headReader.complete (a := (id, size)) ⟨w, hsize, rfl⟩ c.offset
  rw [← hrest] at hread
  rw [step_sectionStart hs, stepSectionStart, hread]
  simp only [hid]

/-- A transition that forgets its error leaves the decoder as it was. -/
theorem Forgets.step_eq (h : d.Forgets c e n) : d.step c = .failed e d n := by
  cases h with
  | header hs hlength hbad hrest => exact step_badHeader hs hlength hbad hrest
  | unknownSection hs hid hsize hrest => exact step_unknownSection hs hid hsize hrest
  | entry hs hrefused =>
    rw [step_entries_of_failed hs hrefused.builder_eq, goTo, ← hs]
  | custom hs hrefused =>
    rw [step_custom_of_failed hs (bind_of_failed _ hrefused.builder_eq), goTo, ← hs]

theorem forgotten_of_next {α : Type} {content : Content α} {maxLength : UInt32}
    (h : Pending.Next content maxLength c (.error e) n) (hn : 0 < n) : e.Forgotten := by
  cases h with
  | field _ _ _ _ hgives =>
    cases hgives with
    | notUtf8 _ _ => exact .name _
  | tooLong _ _ _ => exact .fieldLength _ _
  | malformed _ _ => exact absurd hn (Nat.lt_irrefl 0)

/-- Nothing else is forgotten at these places. -/
theorem Forgets.forgotten (h : d.Forgets c e n) (hn : 0 < n) : e.Forgotten := by
  cases h with
  | header _ _ _ _ => exact forgotten_headerError _
  | unknownSection _ _ _ _ => exact .sectionId _ _
  | entry _ hrefused =>
    cases hrefused with
    | moduleName _ _ hnext => exact forgotten_of_next hnext hn
    | importName _ _ _ hnext => exact forgotten_of_next hnext hn
    | exportName _ _ hnext => exact forgotten_of_next hnext hn
    | codeSize _ _ _ _ => exact .codeSize _ _
    | dataFlags _ _ _ _ => exact .dataFlags _
    | dataBytes _ _ _ _ _ hnext => exact forgotten_of_next hnext hn
  | custom _ hrefused =>
    cases hrefused with
    | name _ _ hnext => exact forgotten_of_next hnext hn
    | payload _ _ _ _ _ => exact .customPayload _ _

end Decoder
end WasmStream
