import WasmStream.Decimal.FloatBits
import WasmStream.EntityType

/-! Run time values and the host types that stand for them. Floats are kept as their bits, so that
every NaN comes back unchanged; no conversion widens or narrows. -/
namespace WasmStream

inductive Value where
  | i32 (value : Int32)
  | i64 (value : Int64)
  | f32 (bits : UInt32)
  | f64 (bits : UInt64)
  | funcRef (index : Option UInt32)
  | externRef (index : Option UInt32)
  deriving DecidableEq, Repr

namespace Value

/-- Zero or the null reference; there is no value of a vector type. -/
def default? : ValueType → Option Value
  | .i32 => some (i32 0)
  | .i64 => some (i64 0)
  | .f32 => some (f32 0)
  | .f64 => some (f64 0)
  | .funcRef => some (funcRef none)
  | .externRef => some (externRef none)
  | .v128 => none

def type : Value → ValueType
  | i32 _ => .i32
  | i64 _ => .i64
  | f32 _ => .f32
  | f64 _ => .f64
  | funcRef _ => .funcRef
  | externRef _ => .externRef

def asI32? : Value → Option Int32
  | i32 v => some v
  | _ => none

def asI64? : Value → Option Int64
  | i64 v => some v
  | _ => none

def asF32? : Value → Option UInt32
  | f32 bits => some bits
  | _ => none

def asF64? : Value → Option UInt64
  | f64 bits => some bits
  | _ => none

def text : Value → String
  | i32 v => s!"i32:{v.toInt}"
  | i64 v => s!"i64:{v.toInt}"
  | f32 bits => "f32:" ++ FloatFormat.single.text bits.toNat
  | f64 bits => "f64:" ++ FloatFormat.double.text bits.toNat
  | funcRef (some index) => s!"funcref:{index}"
  | externRef (some index) => s!"externref:{index}"
  | funcRef none | externRef none => "null"

theorem type_of_default? {t : ValueType} {v : Value} (h : default? t = some v) : v.type = t := by
  cases t <;> simp [default?] at h <;> subst h <;> rfl

end Value

inductive HostType where
  | i32 | i64 | f32 | f64
  deriving DecidableEq, Repr

namespace HostType

def type : HostType → ValueType
  | i32 => .i32
  | i64 => .i64
  | f32 => .f32
  | f64 => .f64

/-- What the host holds for a value of the type. -/
abbrev Carrier : HostType → Type
  | i32 => Int32
  | i64 => Int64
  | f32 => UInt32
  | f64 => UInt64

def toValue : (t : HostType) → t.Carrier → Value
  | i32, v => .i32 v
  | i64, v => .i64 v
  | f32, bits => .f32 bits
  | f64, bits => .f64 bits

def ofValue : (t : HostType) → Value → Except Error t.Carrier
  | i32, .i32 v => .ok v
  | i64, .i64 v => .ok v
  | f32, .f32 bits => .ok bits
  | f64, .f64 bits => .ok bits
  | t, v => .error (.typeMismatch t.type.name v.type.name)

@[simp] theorem type_toValue (t : HostType) (a : t.Carrier) : (t.toValue a).type = t.type := by
  cases t <;> rfl

@[simp] theorem ofValue_toValue (t : HostType) (a : t.Carrier) : t.ofValue (t.toValue a) = .ok a := by
  cases t <;> rfl

end HostType

/-- A host's arguments for a list of parameter types. -/
abbrev Arguments : List HostType → Type
  | [] => Unit
  | t :: rest => t.Carrier × Arguments rest

namespace Arguments

def toValues : (params : List HostType) → Arguments params → List Value
  | [], () => []
  | t :: rest, (a, more) => t.toValue a :: toValues rest more

/-- The arguments out of values of exactly these types. -/
def ofValues? : (params : List HostType) → List Value → Option (Arguments params)
  | [], [] => some ()
  | t :: rest, v :: values =>
    match t.ofValue v, ofValues? rest values with
    | .ok a, some more => some (a, more)
    | _, _ => none
  | _, _ => none

theorem types_toValues (params : List HostType) (a : Arguments params) :
    (toValues params a).map Value.type = params.map HostType.type := by
  induction params with
  | nil => rfl
  | cons t rest ih => simp [toValues, ih a.2]

end Arguments

/-- A host takes nothing from a call, or one value. -/
abbrev HostResult : Option HostType → Type
  | none => Unit
  | some t => t.Carrier

namespace HostResult

def types (result : Option HostType) : List ValueType := (result.map HostType.type).toList

def typeList (values : List Value) : String := FuncType.typeList (values.map Value.type)

def ofValues : (result : Option HostType) → List Value → Except Error (HostResult result)
  | none, [] => .ok ()
  | none, values => .error (.typeMismatch "no results" (typeList values))
  | some t, [v] => t.ofValue v
  | some t, values => .error (.typeMismatch t.type.name (typeList values))

end HostResult
end WasmStream
