import WasmStream.CommandLine.Failure
import WasmStream.CommandLine.Invocation
import WasmStream.Decoder.Streaming
import WasmStream.Instance
import WasmStream.Module.Summary
import WasmStream.Settings
import WasmStream.Toml.Document

/-! What a command line prints. Settings come from the file that is named, else from the one in the
working directory if there is one; options count more than settings. -/
namespace WasmStream
namespace CommandLine

/-- The bytes of files by their paths. -/
abbrev Files := String → Except FileFault (List UInt8)

/-- The name of the settings file that need not be named. -/
def settingsName : String := "swrd.toml"

/-- Settings from the text of a file. -/
def settingsOf (path : String) (bytes : List UInt8) : Except Failure Settings := do
  let .ok text := Utf8.decode bytes | throw (.settingsUnreadable path .notText)
  let some settings := (Toml.parse? text).bind Settings.ofSetting? | throw (.settingsMalformed path)
  settings.runtime.validate.mapError (.settingsInvalid path)
  return settings

/-- `directory` is what stands before the name of a file in the working directory. -/
def loadSettings (files : Files) (directory : String) (named : Option String) :
    Except Failure Settings :=
  match named with
  | some path => (files path).mapError (.settingsUnreadable path) >>= settingsOf path
  | none =>
    let path := directory ++ settingsName
    match files path with
    | .error .missing => .ok {}
    | found => found.mapError (.settingsUnreadable path) >>= settingsOf path

/-- Decode a module whole, or in pieces of the chunk size. -/
def decodeIn (limits : DecoderLimits) (bytes : List UInt8) : (chunkSize : Option Nat) →
    Except Error Module
  | none => decodeModule limits bytes
  | some n => do (← (StreamingDecoder.new limits).feedAll (chunksOf n bytes)).finish

def loadModule (files : Files) (limits : DecoderLimits) (path : String) (chunkSize : Option Nat) :
    Except Failure Module := do
  let bytes ← (files path).mapError (.moduleUnreadable path)
  (decodeIn limits bytes chunkSize).mapError (.undecodable path)

/-- A default value for every imported global. -/
def defaultGlobals (m : Module) : Except Failure (List Value) :=
  (m.imports.filterMap fun i =>
    match i.desc with
    | .global t =>
      some (match Value.default? t.type with
        | some v => .ok v
        | none => .error (.noDefault i.moduleName i.name t.type))
    | _ => none).mapM id

/-- The string at a place in the memory of a fresh instance. -/
def stringAt (m : Module) (config : RuntimeConfig) (span : StringSpan) (e : StringEncoding) :
    Except Failure (List Char) := do
  let globals ← defaultGlobals m
  let i ← (Instance.instantiate m globals config).mapError .notInstantiated
  match i.memory with
  | some memory => (span.read memory e).mapError .noString
  | none => throw .noMemory

/-- The output of a command. -/
def runCommand (files : Files) (settings : Settings) : Command → Except Failure String
  | .inspect path chunkSize => do
    return unlines (← loadModule files settings.decoder path chunkSize).summaryLines
  | .readString path span e => do
    let m ← loadModule files settings.decoder path none
    return unlines [String.ofList (← stringAt m settings.runtime span e)]

/-- The settings with the options in place of what they say. -/
def applyOptions (settings : Settings) (o : SharedOptions) : Settings where
  logLevel := o.logLevel <|> settings.logLevel
  decoder := { settings.decoder with
    maxBlockDepth := o.maxBlockDepth.getD settings.decoder.maxBlockDepth }
  runtime := { maxMemoryPages := o.maxMemoryPages <|> settings.runtime.maxMemoryPages }

def run (files : Files) (directory : String) (i : Invocation) : Except Failure String := do
  let settings := applyOptions (← loadSettings files directory i.options.config) i.options
  match settings.logLevel with
  | some filter => (LogFilter.check filter).mapError .logFilterInvalid
  | none => pure ()
  settings.runtime.validate.mapError .optionInvalid
  runCommand files settings i.command

/-- The files that a command line may read. -/
def paths (directory : String) (args : List String) : List String :=
  match parse args with
  | .ok i => [i.options.config.getD (directory ++ settingsName), i.command.path]
  | .error _ => []

structure Report where
  exitStatus : UInt32
  output : String := ""
  diagnostics : Option String := none
  deriving DecidableEq, Repr

def usage : String := unlines [
  "Usage: swrd [OPTIONS] inspect <WASM_FILE> [--chunk-size <BYTES>]",
  "       swrd [OPTIONS] read-string <WASM_FILE> --offset <ADDR> --length <BYTES>",
  "            [--encoding utf8|utf16|utf32]",
  "",
  "Options:",
  "  --config <FILE>             settings file (default: swrd.toml, if present)",
  "  --log-level <FILTER>        log filter",
  "  --max-memory-pages <PAGES>  cap on linear memory pages",
  "  --max-block-depth <DEPTH>   deepest block nesting accepted",
  "  -h, --help                  print this text",
  "  -V, --version               print the version"]

/-- What becomes of a command line. -/
def execute (files : Files) (directory : String) (args : List String) : Report :=
  match parse args with
  | .error .help => { exitStatus := 0, output := usage }
  | .error .version => { exitStatus := 0, output := "swrd 0.1.0\n" }
  | .error .misuse => { exitStatus := 2, diagnostics := some usage }
  | .ok i =>
    match run files directory i with
    | .ok output => { exitStatus := 0, output }
    | .error f =>
      { exitStatus := CommandLine.exitStatus f
        diagnostics := some (if f.isAbort then f.message else s!"Error: {f.message}") }

end CommandLine
end WasmStream
