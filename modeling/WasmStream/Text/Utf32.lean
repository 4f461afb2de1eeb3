import WasmStream.Word

/-! UTF-32, little-endian. -/
namespace WasmStream
namespace Utf32

def encode (text : List Char) : List UInt8 := text.flatMap fun c => toLittleEndian 4 c.toNat

/-- The four byte numbers of the bytes; `none` if a part of one is left over. -/
def units? : List UInt8 → Option (List UInt32)
  | [] => some []
  | a :: b :: c :: d :: rest =>
    (units? rest).map (UInt32.ofNat (ofLittleEndian [a, b, c, d]) :: ·)
  | _ => none

/-- The characters of the numbers, or the first that is no scalar value. -/
def decodeUnits : List UInt32 → Except UInt32 (List Char)
  | [] => .ok []
  | u :: rest =>
    if u.toNat.isValidChar then (decodeUnits rest).map (Char.ofNat u.toNat :: ·) else .error u

end Utf32
end WasmStream
