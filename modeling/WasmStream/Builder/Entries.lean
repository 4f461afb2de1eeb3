import WasmStream.Builder.Code

/-! The builders of the entries that can be left unfinished between their fields. A builder that is
complete freezes into its entry. -/
namespace WasmStream

structure GlobalBuilder where
  type : Option GlobalType := none
  init : Option Expression := none
  deriving DecidableEq, Repr

namespace GlobalBuilder

def builder (limits : DecoderLimits) : Builder GlobalBuilder Unit := do
  let _ ← Builder.remember type (fun t b => { b with type := some t })
    (Builder.read GlobalType.reader)
  let _ ← Builder.remember init (fun e b => { b with init := some e })
    (Builder.read (Expression.reader limits))

def freeze (b : GlobalBuilder) : Except Error Global :=
  match b.type, b.init with
  | some type, some init => .ok ⟨type, init⟩
  | _, _ => .error (.invalidState "global finalized before all of its fields were decoded")

end GlobalBuilder

structure DataBuilder where
  flags : Option UInt32 := none
  memoryIndex : Option UInt32 := none
  offset : Option Expression := none
  payload : Pending := .awaitingLength
  bytes : Option (List UInt8) := none
  deriving DecidableEq, Repr

namespace DataBuilder

/-- Zero is an active segment of memory zero, one a passive segment, two an active segment with the
index of its memory. -/
def readFlags : Builder DataBuilder UInt32 := do
  let start ← Builder.offset
  let flags ← Builder.read Reader.u32
  if 2 < flags then Builder.fail (.unexpectedElement "data segment flags" start)
  return flags

def builder (limits : DecoderLimits) : Builder DataBuilder Unit := do
  let flags ← Builder.remember flags (fun n b => { b with flags := some n }) readFlags
  let _ ← Builder.remember memoryIndex (fun n b => { b with memoryIndex := some n })
    (if flags = 2 then Builder.read Reader.u32 else return 0)
  let _ ← Builder.remember offset (fun e b => { b with offset := some e })
    (if flags = 1 then return [] else Builder.read (Expression.reader limits))
  let _ ← Builder.remember bytes (fun p b => { b with bytes := some p })
    (Builder.zoom payload (fun p b => { b with payload := p })
      (Pending.builder .ok limits.maxPayloadSize))

def freeze (b : DataBuilder) : Except Error DataSegment :=
  match b.flags, b.memoryIndex, b.offset, b.bytes with
  | some flags, some memoryIndex, some offset, some bytes =>
    .ok ⟨memoryIndex, offset, bytes, flags == 1⟩
  | _, _, _, _ =>
    .error (.invalidState "data segment finalized before all of its fields were decoded")

end DataBuilder

/-- A kind byte and what that kind asks for. A tag has an attribute in front of its type, which
means nothing. -/
def ImportDesc.reader : Reader ImportDesc := do
  let start ← Reader.offset
  let kind ← Reader.byte
  match ExternalKind.ofByte kind start with
  | .ok .function => return .function (← Reader.u32)
  | .ok .table => return .table (← TableType.reader)
  | .ok .memory => return .memory (← Limits.reader)
  | .ok .global => return .global (← GlobalType.reader)
  | .ok .tag =>
    let _ ← Reader.byte
    return .tag (← Reader.u32)
  | .error _ => Reader.fail (.unexpectedElement "import kind" start)

structure ImportBuilder where
  moduleField : Pending := .awaitingLength
  moduleName : Option String := none
  nameField : Pending := .awaitingLength
  name : Option String := none
  desc : Option ImportDesc := none
  deriving DecidableEq, Repr

namespace ImportBuilder

def builder (limits : DecoderLimits) : Builder ImportBuilder Unit := do
  let _ ← Builder.remember moduleName (fun n b => { b with moduleName := some n })
    (Builder.zoom moduleField (fun p b => { b with moduleField := p })
      (Pending.builder readName limits.maxPayloadSize))
  let _ ← Builder.remember name (fun n b => { b with name := some n })
    (Builder.zoom nameField (fun p b => { b with nameField := p })
      (Pending.builder readName limits.maxPayloadSize))
  let _ ← Builder.remember desc (fun d b => { b with desc := some d })
    (Builder.read ImportDesc.reader)

def freeze (b : ImportBuilder) : Except Error Import :=
  match b.moduleName, b.name, b.desc with
  | some moduleName, some name, some desc => .ok ⟨moduleName, name, desc⟩
  | _, _, _ => .error (.invalidState "import finalized before all of its fields were decoded")

end ImportBuilder

/-- Kind and index of what is exported. -/
def Export.targetReader : Reader (ExternalKind × UInt32) := do
  let start ← Reader.offset
  let b ← Reader.byte
  match ExternalKind.ofByte b start with
  | .ok kind => return (kind, ← Reader.u32)
  | .error error => Reader.fail error

structure ExportBuilder where
  nameField : Pending := .awaitingLength
  name : Option String := none
  target : Option (ExternalKind × UInt32) := none
  deriving DecidableEq, Repr

namespace ExportBuilder

def builder (limits : DecoderLimits) : Builder ExportBuilder Unit := do
  let _ ← Builder.remember name (fun n b => { b with name := some n })
    (Builder.zoom nameField (fun p b => { b with nameField := p })
      (Pending.builder readName limits.maxPayloadSize))
  let _ ← Builder.remember target (fun t b => { b with target := some t })
    (Builder.read Export.targetReader)

def freeze (b : ExportBuilder) : Except Error Export :=
  match b.name, b.target with
  | some name, some (kind, index) => .ok ⟨name, kind, index⟩
  | _, _ => .error (.invalidState "export finalized before all of its fields were decoded")

end ExportBuilder

structure CustomBuilder where
  nameField : Pending := .awaitingLength
  name : Option String := none
  payload : ByteField := .ofLength 0
  bytes : Option (List UInt8) := none
  deriving DecidableEq, Repr

namespace CustomBuilder

/-- The name; with it the length of the payload is known, which is the rest of the section. -/
def readHead (limits : DecoderLimits) (sectionEnd : Nat) : Builder CustomBuilder String := do
  let name ← Builder.zoom nameField (fun p b => { b with nameField := p })
    (Pending.builder readName limits.maxPayloadSize)
  let start ← Builder.offset
  if sectionEnd < start then Builder.fail (.customNamePastEnd name sectionEnd)
  if limits.maxPayloadSize.toNat < sectionEnd - start then
    Builder.fail (.limitExceeded "custom section payload" limits.maxPayloadSize.toNat start)
  Builder.modify fun b => { b with payload := .ofLength (sectionEnd - start) }
  return name

def builder (limits : DecoderLimits) (sectionEnd : Nat) : Builder CustomBuilder Unit := do
  let _ ← Builder.remember name (fun n b => { b with name := some n }) (readHead limits sectionEnd)
  let _ ← Builder.remember bytes (fun p b => { b with bytes := some p }) do
    Builder.zoom payload (fun f b => { b with payload := f }) ByteField.builder
    let b ← Builder.get
    Builder.modify fun b => { b with payload := .ofLength 0 }
    Builder.lift b.payload.freeze

def freeze (b : CustomBuilder) : Except Error CustomSection :=
  match b.name, b.bytes with
  | some name, some payload => .ok ⟨name, payload⟩
  | _, _ => .error (.invalidState "custom section finalized before all of its fields were decoded")

end CustomBuilder
end WasmStream
