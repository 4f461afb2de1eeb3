import WasmStream.Hex

/-! Everything that can go wrong while a module is decoded, instantiated or called. An error is
its cause; category, code and message are read off the cause here and nowhere else. Offsets are
absolute positions in the module. -/
namespace WasmStream

inductive Category where
  | parse | validation | memory | type | runtime | resource | configuration | io
  deriving DecidableEq, Repr

namespace Category

def name : Category → String
  | parse => "Parse"
  | validation => "Validation"
  | memory => "Memory"
  | type => "Type"
  | runtime => "Runtime"
  | resource => "Resource"
  | configuration => "Configuration"
  | io => "Io"

/-- Categories are numbered from one. -/
def number (c : Category) : Nat := c.ctorIdx + 1

def all : List Category :=
  [parse, validation, memory, type, runtime, resource, configuration, io]

def ofName? (text : String) : Option Category := all.find? fun c => c.name == text

end Category

/-! Codes are grouped by the thousand: parsing, memory, types, running, resources. -/
namespace Code

def parse : Nat := 1000
def invalidMagic : Nat := 1001
def invalidVersion : Nat := 1002
def unknownSection : Nat := 1003
def sectionSizeMismatch : Nat := 1004
def unknownOpcode : Nat := 1005
def invalidBlockType : Nat := 1006
def invalidValueType : Nat := 1007
def integerTooLarge : Nat := 1008
def invalidUtf8 : Nat := 1009
def unexpectedElement : Nat := 1010
def truncatedModule : Nat := 1011
def limitExceeded : Nat := 1012

def outOfBounds : Nat := 2000
def invalidMemoryLimits : Nat := 2001
def memoryNotFound : Nat := 2002

def typeMismatch : Nat := 3000
def unsupportedArity : Nat := 3001
def invalidEncoding : Nat := 3002
def nonConstantExpression : Nat := 3003

def invalidState : Nat := 4000
def exportNotFound : Nat := 4001
def invalidIndex : Nat := 4002
def invalidConfiguration : Nat := 4003

def allocationFailed : Nat := 5000

end Code

/-- What is wrong with bytes that are not UTF-8: a sequence that cannot be continued, of which
`length` bytes belong together, or an end inside one. `start` counts the valid bytes before. -/
inductive Utf8Fault where
  | invalid (length start : Nat)
  | incomplete (start : Nat)
  deriving DecidableEq, Repr

def Utf8Fault.message : Utf8Fault → String
  | .invalid length start => s!"invalid utf-8 sequence of {length} bytes from index {start}"
  | .incomplete start => s!"incomplete utf-8 byte sequence from index {start}"

inductive Error where
  | unknownOpcode (opcode : UInt8) (offset : Nat)
  | unknownExtendedOpcode (lead : UInt8) (opcode : UInt32) (offset : Nat)
  | invalidBlockType (byte : UInt8) (offset : Nat)
  | invalidValueType (byte : UInt8) (offset : Nat)
  /-- An integer that does not fit in `bits` bits, or is written with too many bytes for them. -/
  | integerTooLarge (signed : Bool) (bits offset : Nat)
  | invalidUtf8 (fault : Utf8Fault)
  | sectionSizeMismatch (id : UInt8) (declared : UInt32) (actual : Nat)
  | customNamePastEnd (name : String) (sectionEnd : Nat)
  | unexpectedElement (what : String) (offset : Nat)
  | limitExceeded (what : String) (limit offset : Nat)
  | invalidMagic (found : List UInt8)
  | invalidVersion (found : UInt32)
  | unknownSection (id : UInt8) (offset : Nat)
  | truncatedModule (inside : String) (offset : Nat)
  | outOfBounds (address length size : Nat)
  | invalidMemoryLimits (min max : UInt32)
  | memoryNotFound (index : UInt32)
  | typeMismatch (expected actual : String)
  | unsupportedArity (name : String) (arity : Nat)
  | invalidEncoding (encoding detail : String)
  | nonConstantInstruction (instruction : String)
  | exportNotFound (name : String)
  | invalidIndex (space : String) (index : UInt32)
  | allocationFailed (what : String) (bytes : Nat)
  /-- An operation that the state of its subject does not allow. -/
  | invalidState (message : String)
  | invalidConfiguration (message : String)
  /-- A failure reported from outside, with a category and code of its own. -/
  | reported (category : Category) (code : Nat) (message : String)
  | inContext (context : String) (cause : Error)
  deriving DecidableEq, Repr

namespace Error

def category : Error → Category
  | unknownOpcode .. | unknownExtendedOpcode .. | invalidBlockType .. | invalidValueType ..
  | integerTooLarge .. | invalidUtf8 .. | sectionSizeMismatch .. | customNamePastEnd ..
  | unexpectedElement .. | limitExceeded .. | invalidMagic .. | invalidVersion ..
  | unknownSection .. | truncatedModule .. => .parse
  | outOfBounds .. | invalidMemoryLimits .. | memoryNotFound .. => .memory
  | typeMismatch .. | unsupportedArity .. | invalidEncoding .. | nonConstantInstruction .. => .type
  | exportNotFound .. | invalidIndex .. | invalidState .. => .runtime
  | allocationFailed .. => .resource
  | invalidConfiguration .. => .configuration
  | reported category _ _ => category
  | inContext _ cause => cause.category

def code : Error → Nat
  | unknownOpcode .. | unknownExtendedOpcode .. => Code.unknownOpcode
  | invalidBlockType .. => Code.invalidBlockType
  | invalidValueType .. => Code.invalidValueType
  | integerTooLarge .. => Code.integerTooLarge
  | invalidUtf8 .. => Code.invalidUtf8
  | sectionSizeMismatch .. | customNamePastEnd .. => Code.sectionSizeMismatch
  | unexpectedElement .. => Code.unexpectedElement
  | limitExceeded .. => Code.limitExceeded
  | invalidMagic .. => Code.invalidMagic
  | invalidVersion .. => Code.invalidVersion
  | unknownSection .. => Code.unknownSection
  | truncatedModule .. => Code.truncatedModule
  | outOfBounds .. => Code.outOfBounds
  | invalidMemoryLimits .. => Code.invalidMemoryLimits
  | memoryNotFound .. => Code.memoryNotFound
  | typeMismatch .. => Code.typeMismatch
  | unsupportedArity .. => Code.unsupportedArity
  | invalidEncoding .. => Code.invalidEncoding
  | nonConstantInstruction .. => Code.nonConstantExpression
  | exportNotFound .. => Code.exportNotFound
  | invalidIndex .. => Code.invalidIndex
  | allocationFailed .. => Code.allocationFailed
  | invalidState .. => Code.invalidState
  | invalidConfiguration .. => Code.invalidConfiguration
  | reported _ code _ => code
  | inContext _ cause => cause.code

def message : Error → String
  | unknownOpcode opcode offset => s!"unknown opcode 0x{hexByte opcode} at offset 0x{hex offset}"
  | unknownExtendedOpcode lead opcode offset =>
    s!"unknown opcode 0x{hexByte lead} {opcode} at offset 0x{hex offset}"
  | invalidBlockType byte offset =>
    s!"invalid block type 0x{hexByte byte} at offset 0x{hex offset}"
  | invalidValueType byte offset =>
    s!"invalid value type 0x{hexByte byte} at offset 0x{hex offset}"
  | integerTooLarge signed bits offset =>
    let kind := if signed then "s" else "u"
    s!"integer too large for {kind}{bits} at offset 0x{hex offset}"
  | invalidUtf8 fault => s!"invalid UTF-8: {fault.message}"
  | sectionSizeMismatch id declared actual =>
    s!"section {id} declares {declared} bytes but its contents use {actual}"
  | customNamePastEnd name sectionEnd =>
    "custom section name `" ++ name ++
      s!"` runs past the section end at offset 0x{hex sectionEnd}"
  | unexpectedElement what offset => s!"unexpected {what} at offset 0x{hex offset}"
  | limitExceeded what limit offset =>
    s!"{what} exceeds limit of {limit} at offset 0x{hex offset}"
  | invalidMagic found => s!"invalid magic number {hexList found}"
  | invalidVersion found => s!"unsupported binary version {found}"
  | unknownSection id offset => s!"unknown section id {id} at offset 0x{hex offset}"
  | truncatedModule inside offset => s!"module ends inside {inside} at offset 0x{hex offset}"
  | outOfBounds address length size =>
    s!"access of {length} bytes at address {address} exceeds memory size {size}"
  | invalidMemoryLimits min max =>
    s!"invalid memory limits: minimum {min} pages, maximum {max} pages"
  | memoryNotFound index => s!"memory {index} not found"
  | typeMismatch expected actual => s!"type mismatch: expected {expected}, found {actual}"
  | unsupportedArity name arity =>
    "export `" ++ name ++ s!"` returns {arity} values; at most one is supported"
  | invalidEncoding encoding detail => s!"invalid {encoding} string: {detail}"
  | nonConstantInstruction instruction =>
    "`" ++ instruction ++ "` is not a constant instruction"
  | exportNotFound name => "export `" ++ name ++ "` not found"
  | invalidIndex space index => s!"{space} index {index} out of range"
  | allocationFailed what bytes => s!"failed to allocate {bytes} bytes for {what}"
  | invalidState message => message
  | invalidConfiguration message => message
  | reported _ _ message => message
  | inContext context cause => s!"{context}: {cause.message}"

def isParse (e : Error) : Bool := e.category == .parse
def isMemory (e : Error) : Bool := e.category == .memory
def isType (e : Error) : Bool := e.category == .type
def isRuntime (e : Error) : Bool := e.category == .runtime
def isResource (e : Error) : Bool := e.category == .resource
def isConfiguration (e : Error) : Bool := e.category == .configuration

/-- Failures known by their message alone. -/
def parseFailure (message : String) : Error := .reported .parse Code.parse message
def memoryFailure (message : String) : Error := .reported .memory Code.outOfBounds message
def typeFailure (message : String) : Error := .reported .type Code.typeMismatch message
def ioFailure (message : String) : Error := .reported .io Code.invalidState message

/-- The message behind category and code; the code has at least four digits. -/
def display (e : Error) : String :=
  let code := toString e.code
  let zeros := String.ofList (List.replicate (4 - code.length) '0')
  s!"[{e.category.name}][E{zeros}{code}] {e.message}"

/-- Whether two errors read the same to whoever receives them. -/
def sameReport (a b : Error) : Bool :=
  a.category == b.category && a.code == b.code && a.message == b.message

@[simp] theorem category_inContext (context : String) (e : Error) :
    (inContext context e).category = e.category := rfl
@[simp] theorem code_inContext (context : String) (e : Error) :
    (inContext context e).code = e.code := rfl

theorem sameReport_refl (e : Error) : sameReport e e = true := by simp [sameReport]

end Error
end WasmStream
