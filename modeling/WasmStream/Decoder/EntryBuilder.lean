import WasmStream.Builder.Entries
import WasmStream.Section

/-! The builder for the next entry of a section that is a list of entries. -/
namespace WasmStream

inductive EntryBuilder where
  | type | function | table | memory
  | imports (entry : ImportBuilder)
  | global (entry : GlobalBuilder)
  | exports (entry : ExportBuilder)
  | code (entry : CodeBuilder)
  | data (entry : DataBuilder)
  deriving DecidableEq, Repr

namespace EntryBuilder

/-- A fresh builder; none for a section that is no list of entries. -/
def ofSection? : SectionId → Option EntryBuilder
  | .type => some type
  | .imports => some (imports {})
  | .function => some function
  | .table => some table
  | .memory => some memory
  | .global => some (global {})
  | .exports => some (exports {})
  | .code => some (code {})
  | .data => some (data {})
  | _ => none

/-- An entry that is read at once or not at all. -/
def whole {α : Type} (r : Reader α) (entry : α → Entry) : Builder EntryBuilder Entry := do
  return entry (← Builder.read r)

def builder (limits : DecoderLimits) : Builder EntryBuilder Entry := fun b c =>
  match b with
  | type => whole FuncType.reader .type b c
  | function => whole Reader.u32 .function b c
  | table => whole TableType.reader .table b c
  | memory => whole Limits.reader .memory b c
  | imports p =>
    (parts .imports (Builder.harvest (ImportBuilder.builder limits) ImportBuilder.freeze {}) p c)
      |>.mapState imports
  | global p =>
    (parts .global (Builder.harvest (GlobalBuilder.builder limits) GlobalBuilder.freeze {}) p c)
      |>.mapState global
  | exports p =>
    (parts .exports (Builder.harvest (ExportBuilder.builder limits) ExportBuilder.freeze {}) p c)
      |>.mapState exports
  | code p =>
    (parts .code (Builder.harvest (CodeBuilder.builder limits) CodeBuilder.freeze {}) p c)
      |>.mapState code
  | data p =>
    (parts .data (Builder.harvest (DataBuilder.builder limits) DataBuilder.freeze {}) p c)
      |>.mapState data
where
  parts {σ α : Type} (entry : α → Entry) (p : Builder σ α) : Builder σ Entry := do
    return entry (← p)

end EntryBuilder
end WasmStream
