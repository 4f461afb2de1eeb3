import WasmStream.Hex
import WasmStream.Instruction.Basic

/-! Two texts of an instruction: lines in the manner of the text format, in which a block takes a
line for its opening, its body and a line for its end; and a description in one line that names
every part. -/
namespace WasmStream

/-- Words joined at dots and underscores, each with a capital: `i32.load8_s` is `I32Load8S`. -/
def camelCase (text : String) : String := String.ofList (go true text.toList)
where
  go (capital : Bool) : List Char → List Char
    | [] => []
    | c :: rest =>
      if c = '.' ∨ c = '_' then go true rest
      else (if capital then c.toUpper else c) :: go false rest

namespace PairOp

/-- What the two indices are called on the operator's line. -/
def captions : PairOp → String × String
  | callIndirect => ("type", "table")
  | memoryInit => ("data", "memory")
  | memoryCopy => ("dst", "src")
  | tableInit => ("elem", "table")
  | tableCopy => ("dst", "src")

/-- What the two indices are called in a description. -/
def fields : PairOp → String × String
  | callIndirect => ("type_index", "table_index")
  | memoryInit => ("data_index", "memory")
  | memoryCopy => ("dst", "src")
  | tableInit => ("elem_index", "table")
  | tableCopy => ("dst", "src")

end PairOp

def MemArg.description (arg : MemArg) : String :=
  "MemArg \x7b align: " ++ s!"{arg.align}, offset: {arg.offset}" ++ " \x7d"

namespace Instruction

mutual

def lines : Instruction → List String
  | plain op => [op.mnemonic]
  | block kind type body => s!"{kind.keyword} {type.name}" :: (linesAll body ++ ["end"])
  | elseMark => ["else"]
  | indexed op index => [s!"{op.mnemonic} {index}"]
  | paired op first second =>
    [s!"{op.mnemonic} {op.captions.1}={first} {op.captions.2}={second}"]
  | brTable targets default =>
    ["br_table [" ++ String.intercalate " " (targets.map toString) ++ s!"] {default}"]
  | selectTyped types =>
    ["select [" ++ String.intercalate " " (types.map ValueType.name) ++ "]"]
  | load op arg => [s!"{op.mnemonic} align={arg.align} offset={arg.offset}"]
  | store op arg => [s!"{op.mnemonic} align={arg.align} offset={arg.offset}"]
  | i32Const value => [s!"i32.const {value.toInt}"]
  | i64Const value => [s!"i64.const {value.toInt}"]
  | f32Const bits => ["f32.const 0x" ++ hexPadded 8 bits.toNat]
  | f64Const bits => ["f64.const 0x" ++ hexPadded 16 bits.toNat]
  | numeric op => [op.mnemonic]
  | truncSat op => [op.mnemonic]
  | refNull type => [s!"ref.null {type.name}"]

def linesAll : List Instruction → List String
  | [] => []
  | i :: rest => i.lines ++ linesAll rest

end

mutual

def description : Instruction → String
  | plain op => camelCase op.mnemonic
  | block kind type body =>
    "Block(Block \x7b kind: " ++ kind.label ++ ", block_type: " ++ type.label ++
      ", body: Expression([" ++ String.intercalate ", " (descriptionAll body) ++ "]) \x7d)"
  | elseMark => "Else"
  | indexed op index => s!"{camelCase op.mnemonic}({index})"
  | paired op first second =>
    camelCase op.mnemonic ++ " \x7b " ++
      s!"{op.fields.1}: {first}, {op.fields.2}: {second}" ++ " \x7d"
  | brTable targets default =>
    "BrTable \x7b targets: [" ++ String.intercalate ", " (targets.map toString) ++
      s!"], default: {default}" ++ " \x7d"
  | selectTyped types =>
    "SelectTyped([" ++ String.intercalate ", " (types.map ValueType.label) ++ "])"
  | load op arg => "Load(" ++ camelCase op.mnemonic ++ ", " ++ arg.description ++ ")"
  | store op arg => "Store(" ++ camelCase op.mnemonic ++ ", " ++ arg.description ++ ")"
  | i32Const value => s!"I32Const({value.toInt})"
  | i64Const value => s!"I64Const({value.toInt})"
  | f32Const bits => s!"F32Const(Ieee32({bits}))"
  | f64Const bits => s!"F64Const(Ieee64({bits}))"
  | numeric op => s!"Numeric({camelCase op.mnemonic})"
  | truncSat op => s!"TruncSat({camelCase op.mnemonic})"
  | refNull type => s!"RefNull({type.label})"

def descriptionAll : List Instruction → List String
  | [] => []
  | i :: rest => i.description :: descriptionAll rest

end
end Instruction
end WasmStream
