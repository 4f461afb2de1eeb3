import WasmStream.Error

/-! What the host allows a memory. -/
namespace WasmStream

/-- The number of bytes in a page. -/
def pageSize : Nat := 65536

/-- The most pages that 32 bit addresses reach. -/
def maxPages : UInt32 := 65536

structure RuntimeConfig where
  maxMemoryPages : Option UInt32 := none
  deriving DecidableEq, Repr

namespace RuntimeConfig

/-- A cap above the limit of the format is refused. -/
def validate (c : RuntimeConfig) : Except Error Unit :=
  match c.maxMemoryPages with
  | some pages =>
    if maxPages < pages then
      .error (.invalidConfiguration
        s!"max_memory_pages {pages} exceeds the format limit of {maxPages}")
    else .ok ()
  | none => .ok ()

/-- The most pages for a memory with this declared maximum: the least of the declared maximum, the
limit of the format and the host's cap. -/
def pageCap (c : RuntimeConfig) (declared : Option UInt32) : UInt32 :=
  let declared := min (declared.getD maxPages) maxPages
  match c.maxMemoryPages with
  | some cap => min declared cap
  | none => declared

end RuntimeConfig
end WasmStream
