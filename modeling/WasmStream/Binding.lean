import WasmStream.Module.Query
import WasmStream.StringSpan
import WasmStream.Value

/-! Typed handles to the functions that a module exports. A handle is made only if the types that the
host uses are those of the signature; a call through it checks what comes back. -/
namespace WasmStream

/-- The layer that runs functions. A call is given the function's index and its arguments; `σ` is
what the layer keeps between calls. -/
structure Executor (σ : Type) where
  call : UInt32 → List Value → σ → Except Error (List Value) × σ
  memory : σ → Option Memory

structure ExportedFunction where
  index : UInt32
  signature : FuncType
  deriving DecidableEq, Repr

/-- The exported functions in increasing order of their names. -/
structure ExportBindings where
  functions : List (String × ExportedFunction)
  deriving DecidableEq, Repr

namespace ExportBindings

/-- Bind a name, in place of what it was bound to before. -/
def insert (name : String) (f : ExportedFunction) :
    List (String × ExportedFunction) → List (String × ExportedFunction)
  | [] => [(name, f)]
  | (other, g) :: rest =>
    if name < other then (name, f) :: (other, g) :: rest
    else if name = other then (name, f) :: rest
    else (other, g) :: insert name f rest

def collect (m : Module) (functions : List (String × ExportedFunction)) :
    List Export → Except Error (List (String × ExportedFunction))
  | [] => .ok functions
  | e :: rest =>
    if e.kind = .function then
      match m.combinedFunctionType? e.index with
      | some signature => collect m (insert e.name ⟨e.index, signature⟩ functions) rest
      | none => .error (.invalidIndex "function" e.index)
    else collect m functions rest

def ofModule (m : Module) : Except Error ExportBindings := do
  return ⟨← collect m [] m.exports⟩

def names (b : ExportBindings) : List String := b.functions.map Prod.fst

def find? (b : ExportBindings) (name : String) : Option ExportedFunction :=
  (b.functions.find? fun f => f.1 == name).map Prod.snd

def signature? (b : ExportBindings) (name : String) : Option FuncType :=
  (b.find? name).map ExportedFunction.signature

end ExportBindings

/-- A handle for arguments of the types `params` and a result of the type `result`. -/
structure TypedFunction (params : List HostType) (result : Option HostType) where
  name : String
  index : UInt32
  deriving DecidableEq, Repr

def ExportBindings.typed (b : ExportBindings) (params : List HostType) (result : Option HostType)
    (name : String) : Except Error (TypedFunction params result) :=
  match b.find? name with
  | none => .error (.exportNotFound name)
  | some f =>
    if 1 < f.signature.results.length then
      .error (.unsupportedArity name f.signature.results.length)
    else
      let expected : FuncType := ⟨params.map HostType.type, HostResult.types result⟩
      if f.signature = expected then .ok ⟨name, f.index⟩
      else .error (.typeMismatch expected.text f.signature.text)

namespace TypedFunction
variable {params : List HostType} {result : Option HostType} {σ : Type}

def call (f : TypedFunction params result) (x : Executor σ) (a : Arguments params) (s : σ) :
    Except Error (HostResult result) × σ :=
  match x.call f.index (Arguments.toValues params a) s with
  | (.error error, s) => (.error error, s)
  | (.ok values, s) => ((HostResult.ofValues result values).mapError (.inContext f.name), s)

end TypedFunction

/-- A handle to a function that answers with the packed span of a string. -/
structure StringFunction (params : List HostType) where
  inner : TypedFunction params (some .i64)
  encoding : StringEncoding
  deriving DecidableEq, Repr

def ExportBindings.string (b : ExportBindings) (params : List HostType) (name : String)
    (e : StringEncoding) : Except Error (StringFunction params) := do
  return ⟨← b.typed params (some .i64) name, e⟩

namespace StringFunction
variable {params : List HostType} {σ : Type}

def call (f : StringFunction params) (x : Executor σ) (a : Arguments params) (s : σ) :
    Except Error (List Char) × σ :=
  match f.inner.call x a s with
  | (.error error, s) => (.error error, s)
  | (.ok packed, s) =>
    match x.memory s with
    | none => (.error (.invalidState "string result without linear memory"), s)
    | some m => ((StringSpan.ofPacked packed).read m f.encoding, s)

end StringFunction
end WasmStream
