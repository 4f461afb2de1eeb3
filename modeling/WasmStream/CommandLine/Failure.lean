import WasmStream.CommandLine.LogFilter
import WasmStream.Error
import WasmStream.ValueType

/-! Why a command fails, in one line, and the exit status that goes with it. -/
namespace WasmStream
namespace CommandLine

/-- Why a file gives no bytes. -/
inductive FileFault where
  | missing
  | isDirectory
  | notDirectory
  | notText
  | other (description : String)
  deriving DecidableEq, Repr

def FileFault.message : FileFault → String
  | missing => "No such file or directory (os error 2)"
  | notDirectory => "Not a directory (os error 20)"
  | isDirectory => "Is a directory (os error 21)"
  | notText => "stream did not contain valid UTF-8"
  | other description => description

inductive Failure where
  | settingsUnreadable (path : String) (fault : FileFault)
  | settingsMalformed (path : String)
  | settingsInvalid (path : String) (error : Error)
  | logFilterInvalid (fault : LogFilter.Fault)
  | optionInvalid (error : Error)
  | moduleUnreadable (path : String) (fault : FileFault)
  | undecodable (path : String) (error : Error)
  /-- An imported global of a type that has no default value. -/
  | noDefault (moduleName name : String) (type : ValueType)
  | notInstantiated (error : Error)
  | noMemory
  | noString (error : Error)
  deriving DecidableEq, Repr

namespace Failure

def message : Failure → String
  | settingsUnreadable path fault => s!"Failed to read config file: {path}: {fault.message}"
  | settingsMalformed path => s!"Failed to parse config file: {path}"
  | settingsInvalid path error => s!"Invalid config file: {path}: {error.display}"
  | logFilterInvalid fault => s!"Invalid log level: {fault.message}"
  | optionInvalid error => error.display
  | moduleUnreadable path fault => s!"Failed to read WebAssembly file: {path}: {fault.message}"
  | undecodable path error => s!"Failed to decode {path}: {error.display}"
  | noDefault moduleName name type =>
    s!"Cannot provide a value for global import {moduleName}.{name} of type {type.name}"
  | notInstantiated error => s!"Failed to instantiate module: {error.display}"
  | noMemory => "Module has no linear memory"
  | noString error => error.display

/-- The error of the library behind a failure. -/
def error? : Failure → Option Error
  | settingsInvalid _ error | optionInvalid error | undecodable _ error | notInstantiated error
  | noString error => some error
  | _ => none

/-- The program ends at once, without a report, where the parts of a log filter cannot be cut out. -/
def isAbort : Failure → Bool
  | logFilterInvalid .withinCharacter => true
  | _ => false

end Failure

/-- A malformed module has status 2, a failure while it is instantiated or read 3, an invalid
configuration 4, an abort 101, and everything else 1. -/
def exitStatus (f : Failure) : UInt32 :=
  if f.isAbort then 101
  else match f.error?.map Error.category with
  | some .parse | some .validation => 2
  | some .memory | some .type | some .runtime | some .resource => 3
  | some .configuration => 4
  | some .io | none => 1

end CommandLine
end WasmStream
