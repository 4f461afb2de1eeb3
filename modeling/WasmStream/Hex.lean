/-! Hexadecimal text, in lower case. -/
namespace WasmStream

/-- The digits of `n`, without leading zeros. -/
def hex (n : Nat) : String := String.ofList (Nat.toDigits 16 n)

/-- The digits of `n`, filled up with zeros on the left to `width` places. -/
def hexPadded (width n : Nat) : String :=
  let digits := Nat.toDigits 16 n
  String.ofList (List.replicate (width - digits.length) '0' ++ digits)

def hexByte (b : UInt8) : String := hexPadded 2 b.toNat

def hexBytes (bytes : List UInt8) : String := String.join (bytes.map hexByte)

/-- Bytes as a bracketed list, two digits each. -/
def hexList (bytes : List UInt8) : String :=
  "[" ++ String.intercalate ", " (bytes.map hexByte) ++ "]"

end WasmStream
