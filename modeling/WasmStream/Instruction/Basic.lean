import WasmStream.BlockType
import WasmStream.Instruction.Opcode

/-! Instructions. A block owns the sequence inside it; the boundary between the arms of an `if` is a
marker in that sequence. -/
namespace WasmStream

inductive BlockKind where
  | block | loop | conditional
  deriving DecidableEq, Repr

namespace BlockKind

def toByte : BlockKind → UInt8
  | block => 0x02
  | loop => 0x03
  | conditional => 0x04

def ofByte? (b : UInt8) : Option BlockKind :=
  if b = 0x02 then some block else if b = 0x03 then some loop
  else if b = 0x04 then some conditional else none

def keyword : BlockKind → String
  | block => "block"
  | loop => "loop"
  | conditional => "if"

def label : BlockKind → String
  | block => "Block"
  | loop => "Loop"
  | conditional => "If"

@[simp] theorem ofByte?_toByte (kind : BlockKind) : ofByte? kind.toByte = some kind := by
  cases kind <;> rfl

theorem toByte_of_ofByte? {b : UInt8} {kind : BlockKind} (h : ofByte? b = some kind) :
    kind.toByte = b := by
  unfold ofByte? at h
  split at h
  · next hb => cases h; exact hb.symm
  · split at h
    · next hb => cases h; exact hb.symm
    · split at h
      · next hb => cases h; exact hb.symm
      · cases h

end BlockKind

/-- The alignment that an access promises, as a power of two, and the offset added to its address. -/
structure MemArg where
  align : UInt32
  offset : UInt32
  deriving DecidableEq, Repr

/-- Float constants are kept as their bits. -/
inductive Instruction where
  | plain (op : PlainOp)
  | block (kind : BlockKind) (type : BlockType) (body : List Instruction)
  | elseMark
  | indexed (op : IndexOp) (index : UInt32)
  | paired (op : PairOp) (first second : UInt32)
  | brTable (targets : List UInt32) (default : UInt32)
  | selectTyped (types : List ValueType)
  | load (op : LoadOp) (arg : MemArg)
  | store (op : StoreOp) (arg : MemArg)
  | i32Const (value : Int32)
  | i64Const (value : Int64)
  | f32Const (bits : UInt32)
  | f64Const (bits : UInt64)
  | numeric (op : NumericOp)
  | truncSat (op : TruncSatOp)
  | refNull (type : ValueType)
  deriving Repr

abbrev Expression := List Instruction

namespace Instruction

mutual

def same : Instruction → Instruction → Bool
  | plain op, plain op' => op == op'
  | block kind type body, block kind' type' body' =>
    kind == kind' && type == type' && sameAll body body'
  | elseMark, elseMark => true
  | indexed op index, indexed op' index' => op == op' && index == index'
  | paired op first second, paired op' first' second' =>
    op == op' && first == first' && second == second'
  | brTable targets default, brTable targets' default' => targets == targets' && default == default'
  | selectTyped types, selectTyped types' => types == types'
  | load op arg, load op' arg' => op == op' && arg == arg'
  | store op arg, store op' arg' => op == op' && arg == arg'
  | i32Const value, i32Const value' => value == value'
  | i64Const value, i64Const value' => value == value'
  | f32Const bits, f32Const bits' => bits == bits'
  | f64Const bits, f64Const bits' => bits == bits'
  | numeric op, numeric op' => op == op'
  | truncSat op, truncSat op' => op == op'
  | refNull type, refNull type' => type == type'
  | _, _ => false

def sameAll : List Instruction → List Instruction → Bool
  | [], [] => true
  | i :: rest, i' :: rest' => same i i' && sameAll rest rest'
  | _, _ => false

end

mutual

theorem same_iff (a b : Instruction) : same a b = true ↔ a = b := by
  cases a with
  | block kind type body =>
    cases b with
    | block kind' type' body' => simp [same, sameAll_iff body body', and_assoc]
    | _ => simp [same]
  | _ => cases b <;> simp [same, and_assoc]

theorem sameAll_iff (a b : List Instruction) : sameAll a b = true ↔ a = b := by
  match a, b with
  | [], [] => simp [sameAll]
  | [], _ :: _ => simp [sameAll]
  | _ :: _, [] => simp [sameAll]
  | i :: rest, i' :: rest' => simp [sameAll, same_iff i i', sameAll_iff rest rest']

end

instance : DecidableEq Instruction := fun a b => decidable_of_iff _ (same_iff a b)

def isElse : Instruction → Bool
  | elseMark => true
  | _ => false

/-- The arms of a block's body: what stands before the first `else` marker, and what stands after
it. -/
def branches (body : Expression) : Expression × Expression :=
  (body.takeWhile (!·.isElse), (body.dropWhile (!·.isElse)).drop 1)

mutual

/-- The number of instructions, those inside the block included. -/
def count : Instruction → Nat
  | block _ _ body => 1 + countAll body
  | _ => 1

def countAll : List Instruction → Nat
  | [] => 0
  | i :: rest => i.count + countAll rest

end

mutual

/-- How deep blocks are nested in the instruction. -/
def depth : Instruction → Nat
  | block _ _ body => 1 + depthAll body
  | _ => 0

def depthAll : List Instruction → Nat
  | [] => 0
  | i :: rest => max i.depth (depthAll rest)

end

mutual

/-- The blocks in the instruction, with kind and body, an outer one before those inside it. -/
def blocks : Instruction → List (BlockKind × Expression)
  | block kind _ body => (kind, body) :: blocksAll body
  | _ => []

def blocksAll : List Instruction → List (BlockKind × Expression)
  | [] => []
  | i :: rest => i.blocks ++ blocksAll rest

end
end Instruction
end WasmStream
