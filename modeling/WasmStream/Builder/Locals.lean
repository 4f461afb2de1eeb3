import WasmStream.Builder.Basic
import WasmStream.DecoderLimits
import WasmStream.ValueType

/-! Local declarations: a count of groups, each a number of slots and their type. -/
namespace WasmStream

/-- `total` counts the slots of the groups read so far. -/
structure LocalsBuilder where
  groupCount : Option UInt32 := none
  groups : List (UInt32 × ValueType) := []
  total : Nat := 0
  deriving DecidableEq, Repr

namespace LocalsBuilder

def groupReader : Reader (UInt32 × ValueType) := do
  let count ← Reader.u32
  let type ← ValueType.reader
  return (count, type)

def group (limits : DecoderLimits) : Builder LocalsBuilder Unit := do
  let start ← Builder.offset
  let g ← Builder.read groupReader
  Builder.modify fun b => { b with total := b.total + g.1.toNat }
  let total := (← Builder.get).total
  if limits.maxLocals.toNat < total then
    Builder.fail (.limitExceeded "local count" limits.maxLocals.toNat start)
  Builder.modify fun b => { b with groups := b.groups ++ [g] }

def groupsFrom (limits : DecoderLimits) : Nat → Builder LocalsBuilder Unit
  | 0 => return ()
  | n + 1 => do
    group limits
    groupsFrom limits n

def builder (limits : DecoderLimits) : Builder LocalsBuilder Unit := do
  let count ← Builder.remember groupCount (fun n b => { b with groupCount := some n })
    (Builder.read Reader.u32)
  let seen := (← Builder.get).groups.length
  groupsFrom limits (count.toNat - seen)

/-- One type for every slot. -/
def expand (groups : List (UInt32 × ValueType)) : List ValueType :=
  groups.flatMap fun g => List.replicate g.1.toNat g.2

def freeze (b : LocalsBuilder) : Except Error (List ValueType) :=
  match b.groupCount with
  | some count =>
    if b.groups.length = count.toNat then .ok (expand b.groups) else .error incomplete
  | none => .error incomplete
where
  incomplete : Error :=
    .invalidState "local declarations finalized before all of its fields were decoded"

end LocalsBuilder

/-- The runs of equal types in `types` behind `n` slots of the type `t`. -/
def typeRunsFrom (n : Nat) (t : ValueType) : (types : List ValueType) → List (Nat × ValueType)
  | [] => [(n, t)]
  | u :: rest => if u = t then typeRunsFrom (n + 1) t rest else (n, t) :: typeRunsFrom 1 u rest

/-- The types as runs: how often each is repeated before the next one. -/
def typeRuns : List ValueType → List (Nat × ValueType)
  | [] => []
  | t :: rest => typeRunsFrom 1 t rest

end WasmStream
