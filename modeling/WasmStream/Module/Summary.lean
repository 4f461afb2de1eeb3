import WasmStream.Hex
import WasmStream.Module.Query

/-! A summary of a module, one line for every entry. -/
namespace WasmStream

/-- The least number, two points, and the greatest if there is one. -/
def Limits.summary (l : Limits) : String :=
  let greatest := (l.max.map toString).getD ""
  s!"{l.min}..{greatest}"

def TableType.summary (t : TableType) : String := s!"{t.element.name} {t.limits.summary}"

def GlobalType.summary (t : GlobalType) : String := (if t.isMutable then "mut " else "") ++ t.type.name

def ImportDesc.summary (d : ImportDesc) : String :=
  match d with
  | function typeIndex => s!"function type {typeIndex}"
  | table t => s!"table {t.summary}"
  | memory pages => s!"memory {pages.summary}"
  | global t => s!"global {t.summary}"
  | tag typeIndex => s!"unknown kind 0x{hexByte d.kind.toByte} type {typeIndex}"

namespace Module

/-- A line for every entry, with its place in the list. -/
def numbered {α : Type} (entries : List α) (line : Nat → α → String) : List String :=
  entries.zipIdx.map fun p => line p.2 p.1

def functionSummary (m : Module) (i : Nat) (c : CodeBody) : String :=
  let signature := ((m.functionType? (UInt32.ofNat i)).map FuncType.text).getD "?"
  s!"  [{i}] {signature}: {c.size} bytes, {c.locals.length} locals, " ++
    s!"{Instruction.countAll c.body} instructions"

def dataSummary (i : Nat) (s : DataSegment) : String :=
  if s.passive then s!"  [{i}] passive, {s.bytes.length} bytes"
  else s!"  [{i}] memory {s.memoryIndex}, {s.bytes.length} bytes"

def summaryLines (m : Module) : List String :=
  [s!"types: {m.types.length}"] ++ numbered m.types (fun i t => s!"  [{i}] {t.text}") ++
  [s!"imports: {m.imports.length}"] ++
    m.imports.map (fun i => s!"  {i.moduleName}.{i.name}: {i.desc.summary}") ++
  [s!"functions: {m.functions.length}"] ++ numbered m.code m.functionSummary ++
  numbered m.tables (fun i t => s!"table [{i}] {t.summary}") ++
  numbered m.memories (fun i l => s!"memory [{i}] {l.summary}") ++
  [s!"globals: {m.globals.length}"] ++ numbered m.globals (fun i g => s!"  [{i}] {g.type.summary}") ++
  [s!"exports: {m.exports.length}"] ++
    m.exports.map (fun e => s!"  {e.name}: {e.kind.name} {e.index}") ++
  (m.start.map fun index => s!"start: {index}").toList ++
  [s!"data: {m.data.length}"] ++ numbered m.data dataSummary ++
  m.customSections.map (fun s => s!"custom \"{s.name}\": {s.payload.length} bytes")

end Module

/-- Every line with its end. -/
def unlines (lines : List String) : String := String.join (lines.map (· ++ "\n"))

end WasmStream
