import WasmStream.Instruction.Text
import WasmStream.Value

/-! Constant expressions: constants, globals and references, and the wrapping sums, differences and
products of integers, on a stack. -/
namespace WasmStream
namespace ConstantExpression

/-- The operators that a constant expression may apply. -/
def isConstant : NumericOp → Bool
  | .i32Add | .i32Sub | .i32Mul | .i64Add | .i64Sub | .i64Mul => true
  | _ => false

def binary (op : NumericOp) (a b : Value) : Except Error Value :=
  match op, a, b with
  | .i32Add, .i32 x, .i32 y => .ok (.i32 (x + y))
  | .i32Sub, .i32 x, .i32 y => .ok (.i32 (x - y))
  | .i32Mul, .i32 x, .i32 y => .ok (.i32 (x * y))
  | .i64Add, .i64 x, .i64 y => .ok (.i64 (x + y))
  | .i64Sub, .i64 x, .i64 y => .ok (.i64 (x - y))
  | .i64Mul, .i64 x, .i64 y => .ok (.i64 (x * y))
  | op, a, b =>
    if isConstant op then .error (.typeMismatch op.mnemonic (HostResult.typeList [a, b]))
    else .error (.nonConstantInstruction op.mnemonic)

/-- The stack after one instruction; its top comes first. -/
def step (globals : List Value) (stack : List Value) : Instruction → Except Error (List Value)
  | .i32Const v => .ok (.i32 v :: stack)
  | .i64Const v => .ok (.i64 v :: stack)
  | .f32Const bits => .ok (.f32 bits :: stack)
  | .f64Const bits => .ok (.f64 bits :: stack)
  | .indexed .globalGet index =>
    match globals[index.toNat]? with
    | some v => .ok (v :: stack)
    | none => .error (.invalidIndex "global" index)
  | .refNull .funcRef => .ok (.funcRef none :: stack)
  | .refNull .externRef => .ok (.externRef none :: stack)
  | .refNull t => .error (.typeMismatch "reference type" t.name)
  | .indexed .refFunc index => .ok (.funcRef (some index) :: stack)
  | .numeric op =>
    match stack with
    | b :: a :: rest =>
      match binary op a b with
      | .ok v => .ok (v :: rest)
      | .error error => .error error
    | _ => .error (.typeFailure "constant expression operand stack underflow")
  | i => .error (.nonConstantInstruction i.description)

def run (globals : List Value) : (stack : List Value) → Expression → Except Error (List Value)
  | stack, [] => .ok stack
  | stack, i :: rest =>
    match step globals stack i with
    | .ok stack => run globals stack rest
    | .error error => .error error

/-- The one value that the expression leaves, over the globals defined so far. -/
def evaluate (e : Expression) (globals : List Value) : Except Error Value :=
  match run globals [] e with
  | .ok [v] => .ok v
  | .ok stack => .error (.typeFailure
    s!"constant expression leaves {stack.length} values, expected 1")
  | .error error => .error error

end ConstantExpression
end WasmStream
