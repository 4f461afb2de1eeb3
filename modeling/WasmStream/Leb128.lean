import WasmStream.Reader

/-! LEB128: a number in groups of seven bits, lowest group first, every byte but the last with its
high bit set. `bits` is the width that the number has to fit in; the written form may be padded up
to the longest form of that width. -/
namespace WasmStream
namespace Leb128

inductive Scan (α : Type) where
  | value (value : α) (length : Nat)
  | incomplete
  | overflow
  deriving DecidableEq, Repr

/-- Put one more byte in front of what was scanned. -/
def Scan.push {α : Type} (f : α → α) : Scan α → Scan α
  | value v length => value (f v) (length + 1)
  | incomplete => incomplete
  | overflow => overflow

/-- The seven value bits of `b` as a two's complement number. -/
def signedGroup (b : UInt8) : Int :=
  if b.toNat % 128 < 64 then (b.toNat % 128 : Nat) else (b.toNat % 128 : Nat) - 128

/-- The number at the start of the bytes, below `2 ^ bits`. -/
def scanUnsigned (bits : Nat) : List UInt8 → Scan Nat
  | [] => .incomplete
  | b :: rest =>
    if bits = 0 then .incomplete
    else if bits ≤ 7 then
      if b.toNat < 1 <<< bits then .value b.toNat 1 else .overflow
    else if b.toNat < 128 then .value b.toNat 1
    else (scanUnsigned (bits - 7) rest).push fun v => b.toNat % 128 + 128 * v

/-- The two's complement number at the start of the bytes, from `-2 ^ (bits - 1)` to below
`2 ^ (bits - 1)`. -/
def scanSigned (bits : Nat) : List UInt8 → Scan Int
  | [] => .incomplete
  | b :: rest =>
    if bits = 0 then .incomplete
    else if bits ≤ 7 then
      let v := signedGroup b
      let half : Nat := 1 <<< (bits - 1)
      if b.toNat < 128 ∧ -(half : Int) ≤ v ∧ v < half then .value v 1 else .overflow
    else if b.toNat < 128 then .value (signedGroup b) 1
    else (scanSigned (bits - 7) rest).push fun v => (b.toNat % 128 : Nat) + 128 * v

/-- The shortest form of `n`. -/
def ofNat (n : Nat) : List UInt8 :=
  if n < 128 then [UInt8.ofNat n] else UInt8.ofNat (n % 128 + 128) :: ofNat (n / 128)
termination_by n
decreasing_by omega

/-- The shortest form of `n` in two's complement: the top bit of the last group is the sign. -/
def ofInt (n : Int) : List UInt8 :=
  if -64 ≤ n ∧ n < 64 then [UInt8.ofNat (n % 128).toNat]
  else UInt8.ofNat ((n % 128).toNat + 128) :: ofInt (n / 128)
termination_by n.natAbs
decreasing_by omega

end Leb128

namespace Reader
open Leb128

/-- What a scan of the bytes ahead comes to for a reader. -/
def ofScan {α : Type} (signed : Bool) (bits offset : Nat) : Scan α → Outcome α
  | .value v length => .done v length
  | .incomplete => .needMore
  | .overflow => .fail (.integerTooLarge signed bits offset)

def unsigned (bits : Nat) : Reader Nat := fun c =>
  ofScan false bits c.offset (scanUnsigned bits c.rest)

def signed (bits : Nat) : Reader Int := fun c => ofScan true bits c.offset (scanSigned bits c.rest)

def u32 : Reader UInt32 := do return UInt32.ofNat (← unsigned 32)
def u64 : Reader UInt64 := do return UInt64.ofNat (← unsigned 64)
def i32 : Reader Int32 := do return Int32.ofInt (← signed 32)
def i64 : Reader Int64 := do return Int64.ofInt (← signed 64)

end Reader
end WasmStream
