import WasmStream.Word

/-! UTF-16 with little-endian units. A scalar value beyond the basic plane is a high surrogate and a
low one. -/
namespace WasmStream
namespace Utf16

def isHigh (u : UInt16) : Bool := 0xD800 ≤ u && u < 0xDC00

def isLow (u : UInt16) : Bool := 0xDC00 ≤ u && u < 0xE000

/-- The scalar value of a surrogate pair. -/
def pair (high low : UInt16) : Nat :=
  0x10000 + (high.toNat - 0xD800) * 0x400 + (low.toNat - 0xDC00)

def encodeChar (c : Char) : List UInt16 :=
  let n := c.toNat
  if n < 0x10000 then [UInt16.ofNat n]
  else [UInt16.ofNat (0xD800 + (n - 0x10000) / 0x400), UInt16.ofNat (0xDC00 + (n - 0x10000) % 0x400)]

def encode (text : List Char) : List UInt8 :=
  (text.flatMap encodeChar).flatMap fun u => toLittleEndian 2 u.toNat

/-- The characters of the units, or the first unit that is an unpaired surrogate. -/
def decodeUnits : List UInt16 → Except UInt16 (List Char)
  | [] => .ok []
  | u :: rest =>
    if isLow u then .error u
    else if isHigh u then
      match rest with
      | low :: rest =>
        if isLow low then (decodeUnits rest).map (Char.ofNat (pair u low) :: ·) else .error u
      | [] => .error u
    else (decodeUnits rest).map (Char.ofNat u.toNat :: ·)

/-- The units of the bytes; `none` if half a unit is left over. -/
def units? : List UInt8 → Option (List UInt16)
  | [] => some []
  | [_] => none
  | a :: b :: rest => (units? rest).map (UInt16.ofNat (ofLittleEndian [a, b]) :: ·)

end Utf16
end WasmStream
