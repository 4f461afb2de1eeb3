import WasmStream.Proofs.Grammar.Builders

/-! The entries that are put together from fields, each as a reader of its fields in a row; the builder
of an entry comes to what its reader comes to. -/
namespace WasmStream
open Builder

variable (limits : DecoderLimits)

def Global.reader : Reader Global := do
  let type ← GlobalType.reader
  let init ← Expression.reader limits
  return ⟨type, init⟩

theorem GlobalBuilder.atOnce_harvest :
    atOnce (harvest (builder limits) freeze {}) {} = Global.reader limits >>= fun g => pure (g, {}) := by
  rw [Builder.atOnce_harvest, builder, Global.reader]
  simp only [atOnce_bind, atOnce_remember, atOnce_read, atOnce_pure, bind_assoc, pure_bind, freeze,
    atOnce_lift_ok]

def Import.reader : Reader Import := do
  let moduleName ← Pending.fieldReader readName limits.maxPayloadSize
  let name ← Pending.fieldReader readName limits.maxPayloadSize
  let desc ← ImportDesc.reader
  return ⟨moduleName, name, desc⟩

theorem ImportBuilder.atOnce_harvest :
    atOnce (harvest (builder limits) freeze {}) {} = Import.reader limits >>= fun i => pure (i, {}) := by
  rw [Builder.atOnce_harvest, builder, Import.reader]
  simp only [atOnce_bind, atOnce_remember, atOnce_zoom, Pending.atOnce_builder, atOnce_read,
    atOnce_pure, bind_assoc, pure_bind, freeze, atOnce_lift_ok]

def Export.reader : Reader Export := do
  let name ← Pending.fieldReader readName limits.maxPayloadSize
  let target ← Export.targetReader
  return ⟨name, target.1, target.2⟩

theorem ExportBuilder.atOnce_harvest :
    atOnce (harvest (builder limits) freeze {}) {} = Export.reader limits >>= fun e => pure (e, {}) := by
  rw [Builder.atOnce_harvest, builder, Export.reader]
  simp only [atOnce_bind, atOnce_remember, atOnce_zoom, Pending.atOnce_builder, atOnce_read,
    atOnce_pure, bind_assoc, pure_bind, freeze, atOnce_lift_ok]

section Choice
variable {σ α : Type} {b : Prop} [Decidable b]

theorem atOnce_read_or_pure (r : Reader α) (a : α) (s : σ) :
    atOnce (if b then Builder.read r else pure a) s =
      (if b then r else pure a) >>= fun x => pure (x, s) := by
  split <;> simp

theorem atOnce_pure_or_read (a : α) (r : Reader α) (s : σ) :
    atOnce (if b then pure a else Builder.read r) s =
      (if b then pure a else r) >>= fun x => pure (x, s) := by
  split <;> simp

end Choice

def DataSegment.reader : Reader DataSegment := do
  let start ← Reader.offset
  let flags ← Reader.u32
  if 2 < flags then Reader.fail (.unexpectedElement "data segment flags" start)
  else do
    let memoryIndex ← (if flags = 2 then Reader.u32 else pure 0 : Reader UInt32)
    let offset ← (if flags = 1 then pure [] else Expression.reader limits : Reader Expression)
    let bytes ← Pending.fieldReader .ok limits.maxPayloadSize
    return ⟨memoryIndex, offset, bytes, flags == 1⟩

theorem DataBuilder.atOnce_harvest :
    atOnce (harvest (builder limits) freeze {}) {} =
      DataSegment.reader limits >>= fun d => pure (d, {}) := by
  rw [Builder.atOnce_harvest, builder, DataSegment.reader]
  simp only [atOnce_bind, atOnce_remember, readFlags, atOnce_offset, atOnce_read, atOnce_ite,
    atOnce_fail, atOnce_pure, bind_assoc, pure_bind]
  refine bind_congr fun start => bind_congr fun flags => ?_
  split
  · simp only [Reader.fail_bind]
  · simp only [atOnce_remember, atOnce_read_or_pure, atOnce_pure_or_read, atOnce_zoom,
      Pending.atOnce_builder, bind_assoc, pure_bind, freeze, atOnce_lift_ok]

def CodeBody.reader : Reader CodeBody := do
  let start ← Reader.offset
  let size ← Reader.u32
  if limits.maxPayloadSize < size then
    Reader.fail (.limitExceeded "code body size" limits.maxPayloadSize.toNat start)
  else do
    let bodyOffset ← Reader.offset
    let bytes ← Reader.bytes size.toNat
    let decoded ← Reader.ofExcept (CodeBody.contents limits size ⟨bodyOffset, bytes⟩)
    return ⟨size, decoded.1, decoded.2⟩

theorem CodeBuilder.atOnce_harvest :
    atOnce (harvest (builder limits) freeze {}) {} =
      CodeBody.reader limits >>= fun b => pure (b, {}) := by
  rw [Builder.atOnce_harvest, builder, readSize_eq, CodeBody.reader]
  simp only [atOnce_bind, atOnce_remember, freshSize, atOnce_offset, atOnce_read, atOnce_ite,
    atOnce_fail, atOnce_modify, atOnce_pure, bind_assoc, pure_bind]
  refine bind_congr fun start => bind_congr fun size => ?_
  split
  · simp only [Reader.fail_bind]
  · simp only [atOnce_remember, atOnce_bind, atOnce_zoom, ByteField.atOnce_builder, atOnce_get,
      atOnce_modify, bind_assoc, pure_bind]
    refine bind_congr fun bodyOffset => bind_congr fun bytes => ?_
    have hbody : (do CodeBody.contents limits size ⟨bodyOffset, ← (ByteField.mk bytes 0).freeze⟩) =
        CodeBody.contents limits size ⟨bodyOffset, bytes⟩ := rfl
    rw [hbody]
    cases CodeBody.contents limits size ⟨bodyOffset, bytes⟩ <;> rfl

/-- The name, and what is left in front of `sectionEnd`. -/
def CustomSection.reader (sectionEnd : Nat) : Reader CustomSection := do
  let name ← Pending.fieldReader readName limits.maxPayloadSize
  let start ← Reader.offset
  if sectionEnd < start then Reader.fail (.customNamePastEnd name sectionEnd)
  else if limits.maxPayloadSize.toNat < sectionEnd - start then
    Reader.fail (.limitExceeded "custom section payload" limits.maxPayloadSize.toNat start)
  else do
    let payload ← Reader.bytes (sectionEnd - start)
    return ⟨name, payload⟩

theorem CustomBuilder.atOnce_harvest (sectionEnd : Nat) :
    atOnce (harvest (builder limits sectionEnd) freeze {}) {} =
      CustomSection.reader limits sectionEnd >>= fun s => pure (s, {}) := by
  rw [Builder.atOnce_harvest, builder, CustomSection.reader]
  simp only [atOnce_bind, atOnce_remember, atOnce_zoom, Pending.atOnce_builder, readHead,
    atOnce_offset, atOnce_ite, atOnce_fail, atOnce_modify, atOnce_pure, bind_assoc, pure_bind]
  refine bind_congr fun name => bind_congr fun start => ?_
  split
  · simp only [Reader.fail_bind]
  · split
    · simp only [Reader.fail_bind]
    · have hfreeze (bytes : List UInt8) : (ByteField.mk bytes 0).freeze = .ok bytes := rfl
      simp only [atOnce_remember, atOnce_bind, atOnce_zoom, ByteField.atOnce_builder, atOnce_get,
        atOnce_modify, hfreeze, atOnce_lift_ok, bind_assoc, pure_bind, freeze]

end WasmStream
