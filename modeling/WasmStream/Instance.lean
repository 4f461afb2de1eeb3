import WasmStream.ConstantExpression
import WasmStream.Memory
import WasmStream.Module.Query

/-! Instances of modules: the memory is made, the globals are evaluated in order, and the active data
segments are copied, a later one over an earlier one. -/
namespace WasmStream

structure Instance where
  memory : Option Memory
  globals : List Value
  deriving DecidableEq

namespace Instance

/-- The types of the imported globals. -/
def importedGlobals (m : Module) : List ValueType :=
  m.imports.filterMap fun i =>
    match i.desc with
    | .global t => some t.type
    | _ => none

/-- The first value that is not of the type in its place. -/
def checkTypes : List ValueType → List Value → Except Error Unit
  | t :: types, v :: values =>
    if v.type = t then checkTypes types values else .error (.typeMismatch t.name v.type.name)
  | _, _ => .ok ()

/-- Put the values of the definitions behind those of the globals before them. -/
def defineGlobals (globals : List Value) : List Global → Except Error (List Value)
  | [] => .ok globals
  | g :: rest =>
    match ConstantExpression.evaluate g.init globals with
    | .ok v =>
      if v.type = g.type.type then defineGlobals (globals ++ [v]) rest
      else .error (.typeMismatch g.type.type.name v.type.name)
    | .error error => .error error

/-- The imported values, then a value for every definition. -/
def evaluateGlobals (m : Module) (imported : List Value) : Except Error (List Value) := do
  let types := importedGlobals m
  if types.length ≠ imported.length then
    throw (.invalidState s!"module imports {types.length} globals, {imported.length} provided")
  checkTypes types imported
  defineGlobals imported m.globals

/-- Where an active segment goes. -/
def segmentOffset (globals : List Value) (s : DataSegment) : Except Error UInt32 := do
  match ← ConstantExpression.evaluate s.offset globals with
  | .i32 offset => return offset.toUInt32
  | v => throw (.typeMismatch "i32" v.type.name)

/-- Copy the segments, of which `index` came before. -/
def copySegments (globals : List Value) (memory : Option Memory) (index : Nat) :
    List DataSegment → Except Error (Option Memory)
  | [] => .ok memory
  | s :: rest =>
    if s.passive then copySegments globals memory (index + 1) rest
    else match memory with
      | none => .error (.memoryNotFound s.memoryIndex)
      | some m =>
        if s.memoryIndex = 0 then
          match segmentOffset globals s with
          | .ok offset =>
            match m.write offset s.bytes with
            | .ok m => copySegments globals (some m) (index + 1) rest
            | .error error => .error (.inContext s!"data segment {index}" error)
          | .error error => .error error
        else .error (.memoryNotFound s.memoryIndex)

/-- The memory of the module before anything is copied into it, if the module has one. -/
def freshMemory (host : Host) (m : Module) (config : RuntimeConfig) :
    Except Error (Option Memory) :=
  match m.memoryLimits? with
  | some limits => some <$> Memory.ofLimitsOn host limits config
  | none => .ok none

/-- `imported` has a value for every imported global, in order. -/
def instantiateOn (host : Host) (m : Module) (imported : List Value) (config : RuntimeConfig) :
    Except Error Instance := do
  let memory ← freshMemory host m config
  let globals ← evaluateGlobals m imported
  let memory ← copySegments globals memory 0 m.data
  return ⟨memory, globals⟩

def instantiate : (m : Module) → (imported : List Value) → (config : RuntimeConfig) →
    Except Error Instance :=
  instantiateOn .roomy

/-- A global by its index in the combined space. -/
def global (i : Instance) (index : UInt32) : Except Error Value :=
  match i.globals[index.toNat]? with
  | some v => .ok v
  | none => .error (.invalidIndex "global" index)

end Instance
end WasmStream
