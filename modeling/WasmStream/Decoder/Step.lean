import WasmStream.Decoder.EntryBuilder

/-! One transition of the module decoder. The decoder walks through the header, section headers and
section entries; all its progress is in its state, so that a pass that ran out of bytes is taken up
again by the next one. -/
namespace WasmStream

/-- A section whose header has been read; its payload begins at `start`. -/
structure SectionFrame where
  id : SectionId
  start : Nat
  size : UInt32
  deriving DecidableEq, Repr

namespace SectionFrame

def stop (s : SectionFrame) : Nat := s.start + s.size.toNat

/-- The section does not end at `offset`, where it should. -/
def mismatch (s : SectionFrame) (offset : Nat) : Error :=
  .sectionSizeMismatch s.id.toByte s.size (offset - s.start)

/-- Id byte and size of the section that comes next. -/
def headReader : Reader (UInt8 × UInt32) := do
  let id ← Reader.byte
  let size ← Reader.u32
  return (id, size)

end SectionFrame

inductive DecoderState where
  | header
  | sectionStart
  | entryCount (s : SectionFrame)
  | entries (s : SectionFrame) (remaining : Nat) (entry : EntryBuilder)
  | startFunction (s : SectionFrame)
  | dataCount (s : SectionFrame)
  | custom (s : SectionFrame) (entry : CustomBuilder)
  | skip (s : SectionFrame)
  | sectionEnd (s : SectionFrame)
  deriving DecidableEq, Repr

namespace DecoderState

/-- What the decoder is inside of. -/
def place : DecoderState → String
  | header => "the module header"
  | sectionStart => "a section header"
  | entryCount s | entries s _ _ | startFunction s | dataCount s | custom s _ | skip s
  | sectionEnd s => s.id.name

/-- The state in which the payload of a section begins. -/
def ofSection (s : SectionFrame) : DecoderState :=
  match s.id with
  | .custom => custom s {}
  | .start => startFunction s
  | .dataCount => dataCount s
  | .element => skip s
  | _ => entryCount s

/-- The section whose payload is being decoded. -/
def frame? : DecoderState → Option SectionFrame
  | header | sectionStart => none
  | entryCount s | entries s _ _ | startFunction s | dataCount s | custom s _ | skip s
  | sectionEnd s => some s

end DecoderState

structure Decoder where
  limits : DecoderLimits
  state : DecoderState
  module : Module
  deriving DecidableEq, Repr

namespace Decoder

def new (limits : DecoderLimits) : Decoder := ⟨limits, .header, .empty⟩

/-- Whether the last section is complete. -/
def isAtBoundary (d : Decoder) : Bool := d.state == .sectionStart

def goTo (d : Decoder) (state : DecoderState) : Decoder := { d with state := state }

/-- The error for eight bytes that are no header. -/
def headerError (found : List UInt8) : Error :=
  if found.take 4 = magic then .invalidVersion (UInt32.ofNat (ofLittleEndian (found.drop 4)))
  else .invalidMagic (found.take 4)

def stepHeader (d : Decoder) (c : Cursor) : Pass Decoder Unit :=
  match Reader.bytes 8 c with
  | .done found n =>
    if found = header then .ready () (d.goTo .sectionStart) n
    else .failed (headerError found) d n
  | .needMore => .paused d 0
  | .fail error => .failed error d 0

def stepSectionStart (d : Decoder) (c : Cursor) : Pass Decoder Unit :=
  match SectionFrame.headReader c with
  | .done (id, size) n =>
    match SectionId.ofByte? id with
    | some id => .ready () (d.goTo (.ofSection ⟨id, c.offset + n, size⟩)) n
    | none => .failed (.unknownSection id c.offset) d n
  | .needMore => .paused d 0
  | .fail error => .failed error d 0

def stepEntryCount (d : Decoder) (s : SectionFrame) (c : Cursor) : Pass Decoder Unit :=
  match Reader.u32 c with
  | .done count n =>
    if s.stop < c.offset + n then .failed (s.mismatch (c.offset + n)) d n
    else match EntryBuilder.ofSection? s.id with
      | some entry =>
        if count = 0 then .ready () (d.goTo (.sectionEnd s)) n
        else .ready () (d.goTo (.entries s count.toNat entry)) n
      | none => .ready () (d.goTo (.sectionEnd s)) n
  | .needMore => .paused d 0
  | .fail error => .failed error d 0

/-- An entry must not reach past the end of its section, whether it is complete or not. -/
def stepEntries (d : Decoder) (s : SectionFrame) (remaining : Nat) (entry : EntryBuilder)
    (c : Cursor) : Pass Decoder Unit :=
  match EntryBuilder.builder d.limits entry c with
  | .ready e entry n =>
    let d := { d with state := .entries s remaining entry, module := d.module.add e }
    if s.stop < c.offset + n then .failed (s.mismatch (c.offset + n)) d n
    else if remaining ≤ 1 then .ready () (d.goTo (.sectionEnd s)) n
    else .ready () (d.goTo (.entries s (remaining - 1) entry)) n
  | .paused entry n =>
    let d := d.goTo (.entries s remaining entry)
    if s.stop < c.offset + n then .failed (s.mismatch (c.offset + n)) d n else .paused d n
  | .failed error entry n => .failed error (d.goTo (.entries s remaining entry)) n

/-- A section that is a single number. -/
def stepNumber (d : Decoder) (s : SectionFrame) (entry : UInt32 → Entry) (c : Cursor) :
    Pass Decoder Unit :=
  match Reader.u32 c with
  | .done value n =>
    .ready () { d with state := .sectionEnd s, module := d.module.add (entry value) } n
  | .needMore => .paused d 0
  | .fail error => .failed error d 0

def stepCustom (d : Decoder) (s : SectionFrame) (entry : CustomBuilder) (c : Cursor) :
    Pass Decoder Unit :=
  match Builder.harvest (CustomBuilder.builder d.limits s.stop) CustomBuilder.freeze {} entry c with
  | .ready e _ n =>
    .ready () { d with state := .sectionEnd s, module := d.module.add (.custom e) } n
  | .paused entry n => .paused (d.goTo (.custom s entry)) n
  | .failed error entry n => .failed error (d.goTo (.custom s entry)) n

/-- Pass over what is there of a section that is not interpreted. -/
def stepSkip (d : Decoder) (s : SectionFrame) (c : Cursor) : Pass Decoder Unit :=
  let n := (c.rest.take (s.stop - c.offset)).length
  if c.offset + n < s.stop then if n = 0 then .paused d 0 else .ready () d n
  else .ready () (d.goTo (.sectionEnd s)) n

def stepSectionEnd (d : Decoder) (s : SectionFrame) (c : Cursor) : Pass Decoder Unit :=
  if c.offset = s.stop then .ready () (d.goTo .sectionStart) 0
  else .failed (s.mismatch c.offset) d 0

/-- One transition: ready if something has changed, paused if more input is needed. -/
def step (d : Decoder) (c : Cursor) : Pass Decoder Unit :=
  match d.state with
  | .header => d.stepHeader c
  | .sectionStart => d.stepSectionStart c
  | .entryCount s => d.stepEntryCount s c
  | .entries s remaining entry => d.stepEntries s remaining entry c
  | .startFunction s => d.stepNumber s .start c
  | .dataCount s => d.stepNumber s .dataCount c
  | .custom s entry => d.stepCustom s entry c
  | .skip s => d.stepSkip s c
  | .sectionEnd s => d.stepSectionEnd s c

end Decoder
end WasmStream
