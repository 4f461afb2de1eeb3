import WasmStream.DecoderLimits
import WasmStream.RuntimeConfig
import WasmStream.Setting
import WasmStream.Text.Encoding

/-! The records that are read from settings, and what a settings file holds. -/
namespace WasmStream

namespace DecoderLimits

def keys : List String := ["max_block_depth", "max_locals", "max_payload_size"]

def ofSetting? (s : Setting) : Option DecoderLimits := do
  let fields ← s.fields? keys
  let default : DecoderLimits := {}
  let depth ← Setting.fieldOr fields "max_block_depth" Setting.u32? default.maxBlockDepth
  let locals ← Setting.fieldOr fields "max_locals" Setting.u32? default.maxLocals
  let payload ← Setting.fieldOr fields "max_payload_size" Setting.u32? default.maxPayloadSize
  return ⟨depth, locals, payload⟩

def toSetting (l : DecoderLimits) : Setting :=
  .table [("max_block_depth", .ofU32 l.maxBlockDepth), ("max_locals", .ofU32 l.maxLocals),
    ("max_payload_size", .ofU32 l.maxPayloadSize)]

end DecoderLimits

namespace RuntimeConfig

def keys : List String := ["max_memory_pages"]

def ofSetting? (s : Setting) : Option RuntimeConfig := do
  let fields ← s.fields? keys
  let pages ← Setting.fieldOr fields "max_memory_pages" (Setting.orNull? Setting.u32?) none
  return ⟨pages⟩

def toSetting (c : RuntimeConfig) : Setting :=
  .table [("max_memory_pages", (c.maxMemoryPages.map Setting.ofU32).getD .null)]

end RuntimeConfig

namespace StringEncoding

/-- An encoding is its name, or a table that has the name for its one key and nothing for a value. -/
def ofSetting? : Setting → Option StringEncoding
  | .text name => ofName? name
  | .table [(name, .null)] => ofName? name
  | _ => none

def toSetting (e : StringEncoding) : Setting := .text e.name

theorem ofSetting?_toSetting (e : StringEncoding) : ofSetting? e.toSetting = some e := by
  cases e <;> rfl

end StringEncoding

/-- What a settings file holds. -/
structure Settings where
  logLevel : Option String := none
  decoder : DecoderLimits := {}
  runtime : RuntimeConfig := {}
  deriving DecidableEq, Repr

namespace Settings

def keys : List String := ["log_level", "decoder", "runtime"]

/-- A record that is written as a list may have items behind its last field, which count for
nothing. -/
def ofSetting? (s : Setting) : Option Settings := do
  let record {α : Type} (keys : List String) (read : Setting → Option α) (s : Setting) : Option α :=
    read (s.take keys.length)
  let fields ← s.fields? keys
  let logLevel ← Setting.fieldOr fields "log_level" (Setting.orNull? Setting.text?) none
  let decoder ← Setting.fieldOr fields "decoder"
    (record DecoderLimits.keys DecoderLimits.ofSetting?) {}
  let runtime ← Setting.fieldOr fields "runtime"
    (record RuntimeConfig.keys RuntimeConfig.ofSetting?) {}
  return ⟨logLevel, decoder, runtime⟩

end Settings
end WasmStream
