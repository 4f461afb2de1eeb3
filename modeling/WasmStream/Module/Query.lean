import WasmStream.Module.Basic

/-! Looking things up in a module. In every index space the imports of a kind come before the
definitions. -/
namespace WasmStream
namespace Module

def importedCount (m : Module) (kind : ExternalKind) : UInt32 :=
  UInt32.ofNat (m.imports.countP fun i => i.desc.kind == kind)

/-- The first export of the name, whatever its kind. -/
def export? (m : Module) (name : String) : Option Export := m.exports.find? fun e => e.name == name

def type? (m : Module) (index : UInt32) : Option FuncType := m.types[index.toNat]?

/-- The signature of a defined function, counted without the imports. -/
def functionType? (m : Module) (index : UInt32) : Option FuncType :=
  m.functions[index.toNat]?.bind m.type?

/-- The type indices of the imported functions. -/
def importedFunctions (m : Module) : List UInt32 :=
  m.imports.filterMap fun i =>
    match i.desc with
    | .function typeIndex => some typeIndex
    | _ => none

/-- The signature of a function, imported or defined. -/
def combinedFunctionType? (m : Module) (index : UInt32) : Option FuncType :=
  let imported := m.importedCount .function
  if imported ≤ index then m.functionType? (index - imported)
  else m.importedFunctions[index.toNat]?.bind m.type?

/-- The index among the definitions of the first export with this name and kind; none if it exports
an import. -/
def findExportIndex? (m : Module) (name : String) (kind : ExternalKind) : Option UInt32 :=
  match m.exports.find? fun e => e.kind == kind && e.name == name with
  | some e =>
    let imported := m.importedCount kind
    if imported ≤ e.index then some (e.index - imported) else none
  | none => none

/-- The page bounds of memory zero, imported or defined. -/
def memoryLimits? (m : Module) : Option Limits :=
  let imported := m.imports.findSome? fun i =>
    match i.desc with
    | .memory pages => some pages
    | _ => none
  imported <|> m.memories.head?

def customSection? (m : Module) (name : String) : Option CustomSection :=
  m.customSections.find? fun s => s.name == name

end Module
end WasmStream
