/-! The operators that come in long rows of consecutive codes: loads, stores, numeric operators and
the saturating truncations. -/
namespace WasmStream

inductive LoadOp where
  | i32Load | i64Load | f32Load | f64Load | i32Load8S | i32Load8U | i32Load16S | i32Load16U
  | i64Load8S | i64Load8U | i64Load16S | i64Load16U | i64Load32S | i64Load32U
  deriving DecidableEq, Repr

namespace LoadOp

def mnemonic : LoadOp → String
  | i32Load => "i32.load"
  | i64Load => "i64.load"
  | f32Load => "f32.load"
  | f64Load => "f64.load"
  | i32Load8S => "i32.load8_s"
  | i32Load8U => "i32.load8_u"
  | i32Load16S => "i32.load16_s"
  | i32Load16U => "i32.load16_u"
  | i64Load8S => "i64.load8_s"
  | i64Load8U => "i64.load8_u"
  | i64Load16S => "i64.load16_s"
  | i64Load16U => "i64.load16_u"
  | i64Load32S => "i64.load32_s"
  | i64Load32U => "i64.load32_u"

def toByte (op : LoadOp) : UInt8 := UInt8.ofNat (0x28 + op.ctorIdx)

def ofByte? (b : UInt8) : Option LoadOp :=
  if 0x28 ≤ b ∧ b ≤ 0x35 then some (LoadOp.ofNat (b.toNat - 0x28)) else none

@[simp] theorem ofByte?_toByte (op : LoadOp) : ofByte? op.toByte = some op := by
  cases op <;> rfl

end LoadOp

inductive StoreOp where
  | i32Store | i64Store | f32Store | f64Store | i32Store8 | i32Store16 | i64Store8 | i64Store16
  | i64Store32
  deriving DecidableEq, Repr

namespace StoreOp

def mnemonic : StoreOp → String
  | i32Store => "i32.store"
  | i64Store => "i64.store"
  | f32Store => "f32.store"
  | f64Store => "f64.store"
  | i32Store8 => "i32.store8"
  | i32Store16 => "i32.store16"
  | i64Store8 => "i64.store8"
  | i64Store16 => "i64.store16"
  | i64Store32 => "i64.store32"

def toByte (op : StoreOp) : UInt8 := UInt8.ofNat (0x36 + op.ctorIdx)

def ofByte? (b : UInt8) : Option StoreOp :=
  if 0x36 ≤ b ∧ b ≤ 0x3E then some (StoreOp.ofNat (b.toNat - 0x36)) else none

@[simp] theorem ofByte?_toByte (op : StoreOp) : ofByte? op.toByte = some op := by
  cases op <;> rfl

end StoreOp

/-- Comparison, arithmetic, conversion and sign extension. -/
inductive NumericOp where
  | i32Eqz | i32Eq | i32Ne | i32LtS | i32LtU | i32GtS | i32GtU | i32LeS | i32LeU | i32GeS
  | i32GeU | i64Eqz | i64Eq | i64Ne | i64LtS | i64LtU | i64GtS | i64GtU | i64LeS | i64LeU
  | i64GeS | i64GeU | f32Eq | f32Ne | f32Lt | f32Gt | f32Le | f32Ge | f64Eq | f64Ne | f64Lt
  | f64Gt | f64Le | f64Ge | i32Clz | i32Ctz | i32Popcnt | i32Add | i32Sub | i32Mul | i32DivS
  | i32DivU | i32RemS | i32RemU | i32And | i32Or | i32Xor | i32Shl | i32ShrS | i32ShrU | i32Rotl
  | i32Rotr | i64Clz | i64Ctz | i64Popcnt | i64Add | i64Sub | i64Mul | i64DivS | i64DivU
  | i64RemS | i64RemU | i64And | i64Or | i64Xor | i64Shl | i64ShrS | i64ShrU | i64Rotl | i64Rotr
  | f32Abs | f32Neg | f32Ceil | f32Floor | f32Trunc | f32Nearest | f32Sqrt | f32Add | f32Sub
  | f32Mul | f32Div | f32Min | f32Max | f32Copysign | f64Abs | f64Neg | f64Ceil | f64Floor
  | f64Trunc | f64Nearest | f64Sqrt | f64Add | f64Sub | f64Mul | f64Div | f64Min | f64Max
  | f64Copysign | i32WrapI64 | i32TruncF32S | i32TruncF32U | i32TruncF64S | i32TruncF64U
  | i64ExtendI32S | i64ExtendI32U | i64TruncF32S | i64TruncF32U | i64TruncF64S | i64TruncF64U
  | f32ConvertI32S | f32ConvertI32U | f32ConvertI64S | f32ConvertI64U | f32DemoteF64
  | f64ConvertI32S | f64ConvertI32U | f64ConvertI64S | f64ConvertI64U | f64PromoteF32
  | i32ReinterpretF32 | i64ReinterpretF64 | f32ReinterpretI32 | f64ReinterpretI64 | i32Extend8S
  | i32Extend16S | i64Extend8S | i64Extend16S | i64Extend32S
  deriving DecidableEq, Repr

namespace NumericOp

def mnemonic : NumericOp → String
  | i32Eqz => "i32.eqz"
  | i32Eq => "i32.eq"
  | i32Ne => "i32.ne"
  | i32LtS => "i32.lt_s"
  | i32LtU => "i32.lt_u"
  | i32GtS => "i32.gt_s"
  | i32GtU => "i32.gt_u"
  | i32LeS => "i32.le_s"
  | i32LeU => "i32.le_u"
  | i32GeS => "i32.ge_s"
  | i32GeU => "i32.ge_u"
  | i64Eqz => "i64.eqz"
  | i64Eq => "i64.eq"
  | i64Ne => "i64.ne"
  | i64LtS => "i64.lt_s"
  | i64LtU => "i64.lt_u"
  | i64GtS => "i64.gt_s"
  | i64GtU => "i64.gt_u"
  | i64LeS => "i64.le_s"
  | i64LeU => "i64.le_u"
  | i64GeS => "i64.ge_s"
  | i64GeU => "i64.ge_u"
  | f32Eq => "f32.eq"
  | f32Ne => "f32.ne"
  | f32Lt => "f32.lt"
  | f32Gt => "f32.gt"
  | f32Le => "f32.le"
  | f32Ge => "f32.ge"
  | f64Eq => "f64.eq"
  | f64Ne => "f64.ne"
  | f64Lt => "f64.lt"
  | f64Gt => "f64.gt"
  | f64Le => "f64.le"
  | f64Ge => "f64.ge"
  | i32Clz => "i32.clz"
  | i32Ctz => "i32.ctz"
  | i32Popcnt => "i32.popcnt"
  | i32Add => "i32.add"
  | i32Sub => "i32.sub"
  | i32Mul => "i32.mul"
  | i32DivS => "i32.div_s"
  | i32DivU => "i32.div_u"
  | i32RemS => "i32.rem_s"
  | i32RemU => "i32.rem_u"
  | i32And => "i32.and"
  | i32Or => "i32.or"
  | i32Xor => "i32.xor"
  | i32Shl => "i32.shl"
  | i32ShrS => "i32.shr_s"
  | i32ShrU => "i32.shr_u"
  | i32Rotl => "i32.rotl"
  | i32Rotr => "i32.rotr"
  | i64Clz => "i64.clz"
  | i64Ctz => "i64.ctz"
  | i64Popcnt => "i64.popcnt"
  | i64Add => "i64.add"
  | i64Sub => "i64.sub"
  | i64Mul => "i64.mul"
  | i64DivS => "i64.div_s"
  | i64DivU => "i64.div_u"
  | i64RemS => "i64.rem_s"
  | i64RemU => "i64.rem_u"
  | i64And => "i64.and"
  | i64Or => "i64.or"
  | i64Xor => "i64.xor"
  | i64Shl => "i64.shl"
  | i64ShrS => "i64.shr_s"
  | i64ShrU => "i64.shr_u"
  | i64Rotl => "i64.rotl"
  | i64Rotr => "i64.rotr"
  | f32Abs => "f32.abs"
  | f32Neg => "f32.neg"
  | f32Ceil => "f32.ceil"
  | f32Floor => "f32.floor"
  | f32Trunc => "f32.trunc"
  | f32Nearest => "f32.nearest"
  | f32Sqrt => "f32.sqrt"
  | f32Add => "f32.add"
  | f32Sub => "f32.sub"
  | f32Mul => "f32.mul"
  | f32Div => "f32.div"
  | f32Min => "f32.min"
  | f32Max => "f32.max"
  | f32Copysign => "f32.copysign"
  | f64Abs => "f64.abs"
  | f64Neg => "f64.neg"
  | f64Ceil => "f64.ceil"
  | f64Floor => "f64.floor"
  | f64Trunc => "f64.trunc"
  | f64Nearest => "f64.nearest"
  | f64Sqrt => "f64.sqrt"
  | f64Add => "f64.add"
  | f64Sub => "f64.sub"
  | f64Mul => "f64.mul"
  | f64Div => "f64.div"
  | f64Min => "f64.min"
  | f64Max => "f64.max"
  | f64Copysign => "f64.copysign"
  | i32WrapI64 => "i32.wrap_i64"
  | i32TruncF32S => "i32.trunc_f32_s"
  | i32TruncF32U => "i32.trunc_f32_u"
  | i32TruncF64S => "i32.trunc_f64_s"
  | i32TruncF64U => "i32.trunc_f64_u"
  | i64ExtendI32S => "i64.extend_i32_s"
  | i64ExtendI32U => "i64.extend_i32_u"
  | i64TruncF32S => "i64.trunc_f32_s"
  | i64TruncF32U => "i64.trunc_f32_u"
  | i64TruncF64S => "i64.trunc_f64_s"
  | i64TruncF64U => "i64.trunc_f64_u"
  | f32ConvertI32S => "f32.convert_i32_s"
  | f32ConvertI32U => "f32.convert_i32_u"
  | f32ConvertI64S => "f32.convert_i64_s"
  | f32ConvertI64U => "f32.convert_i64_u"
  | f32DemoteF64 => "f32.demote_f64"
  | f64ConvertI32S => "f64.convert_i32_s"
  | f64ConvertI32U => "f64.convert_i32_u"
  | f64ConvertI64S => "f64.convert_i64_s"
  | f64ConvertI64U => "f64.convert_i64_u"
  | f64PromoteF32 => "f64.promote_f32"
  | i32ReinterpretF32 => "i32.reinterpret_f32"
  | i64ReinterpretF64 => "i64.reinterpret_f64"
  | f32ReinterpretI32 => "f32.reinterpret_i32"
  | f64ReinterpretI64 => "f64.reinterpret_i64"
  | i32Extend8S => "i32.extend8_s"
  | i32Extend16S => "i32.extend16_s"
  | i64Extend8S => "i64.extend8_s"
  | i64Extend16S => "i64.extend16_s"
  | i64Extend32S => "i64.extend32_s"

def toByte (op : NumericOp) : UInt8 := UInt8.ofNat (0x45 + op.ctorIdx)

def ofByte? (b : UInt8) : Option NumericOp :=
  if 0x45 ≤ b ∧ b ≤ 0xC4 then some (NumericOp.ofNat (b.toNat - 0x45)) else none

@[simp] theorem ofByte?_toByte (op : NumericOp) : ofByte? op.toByte = some op := by
  cases op <;> rfl

end NumericOp

/-- Saturating truncations; their numbers follow the lead byte of the extended codes. -/
inductive TruncSatOp where
  | i32TruncSatF32S | i32TruncSatF32U | i32TruncSatF64S | i32TruncSatF64U | i64TruncSatF32S
  | i64TruncSatF32U | i64TruncSatF64S | i64TruncSatF64U
  deriving DecidableEq, Repr

namespace TruncSatOp

def mnemonic : TruncSatOp → String
  | i32TruncSatF32S => "i32.trunc_sat_f32_s"
  | i32TruncSatF32U => "i32.trunc_sat_f32_u"
  | i32TruncSatF64S => "i32.trunc_sat_f64_s"
  | i32TruncSatF64U => "i32.trunc_sat_f64_u"
  | i64TruncSatF32S => "i64.trunc_sat_f32_s"
  | i64TruncSatF32U => "i64.trunc_sat_f32_u"
  | i64TruncSatF64S => "i64.trunc_sat_f64_s"
  | i64TruncSatF64U => "i64.trunc_sat_f64_u"

def toNumber (op : TruncSatOp) : UInt32 := UInt32.ofNat op.ctorIdx

def ofNumber? (n : UInt32) : Option TruncSatOp :=
  if n ≤ 7 then some (TruncSatOp.ofNat n.toNat) else none

@[simp] theorem ofNumber?_toNumber (op : TruncSatOp) : ofNumber? op.toNumber = some op := by
  cases op <;> rfl

end TruncSatOp

end WasmStream
