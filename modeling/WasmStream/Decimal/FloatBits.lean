import WasmStream.Decimal.Shortest

/-! Floating point numbers as bits, and their decimal text. -/
namespace WasmStream

/-- A binary format by the widths of its fields; the sign is the bit above them. -/
structure FloatFormat where
  exponentBits : Nat
  fractionBits : Nat
  deriving DecidableEq, Repr

namespace FloatFormat

def single : FloatFormat := ⟨8, 23⟩

def double : FloatFormat := ⟨11, 52⟩

def fraction (f : FloatFormat) (bits : Nat) : Nat := bits % (1 <<< f.fractionBits)

def exponent (f : FloatFormat) (bits : Nat) : Nat :=
  (bits >>> f.fractionBits) % (1 <<< f.exponentBits)

def negative (f : FloatFormat) (bits : Nat) : Bool :=
  bits.testBit (f.fractionBits + f.exponentBits)

/-- The exponent field of infinities and NaNs. -/
def top (f : FloatFormat) : Nat := (1 <<< f.exponentBits) - 1

/-- What is subtracted from an exponent field to get the power of two of the last place. -/
def bias (f : FloatFormat) : Nat := (1 <<< (f.exponentBits - 1)) - 1 + f.fractionBits

/-- The magnitude in units of a quarter of the last place, and the reals around it that round to it.
Below a power of two the next number is only half as far away. -/
def interval (f : FloatFormat) (bits : Nat) : Decimal.Interval :=
  let fraction := f.fraction bits
  let exponent := f.exponent bits
  let significand := if exponent = 0 then fraction else fraction + (1 <<< f.fractionBits)
  let gap := if fraction = 0 ∧ 1 < exponent then 1 else 2
  let shift : Int := (max exponent 1 : Nat) - (f.bias + 2 : Nat)
  let unit := 1 <<< shift.toNat
  ⟨(4 * significand - gap) * unit, 4 * significand * unit, (4 * significand + 2) * unit,
    1 <<< (-shift).toNat, significand % 2 == 0⟩

/-- The fewest digits that read back, without an exponent. -/
def text (f : FloatFormat) (bits : Nat) : String :=
  let sign := if f.negative bits then "-" else ""
  if f.exponent bits = f.top then if f.fraction bits = 0 then sign ++ "inf" else "NaN"
  else if f.exponent bits = 0 ∧ f.fraction bits = 0 then sign ++ "0"
  else sign ++ (f.interval bits).shortest.positional

end FloatFormat
end WasmStream
