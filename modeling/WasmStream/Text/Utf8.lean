import WasmStream.Error

/-! UTF-8. A sequence is a lead byte and the continuation bytes that it announces; the range of the
first of them rules out overlong forms, surrogates and values above `0x10FFFF`. -/
namespace WasmStream
namespace Utf8

def encode (text : List Char) : List UInt8 := text.flatMap String.utf8EncodeChar

/-- The value bits of a lead byte and the number of continuation bytes after it. -/
def lead? (b : UInt8) : Option (Nat × Nat) :=
  if b < 0x80 then some (b.toNat, 0)
  else if b < 0xC2 then none
  else if b < 0xE0 then some (b.toNat % 32, 1)
  else if b < 0xF0 then some (b.toNat % 16, 2)
  else if b < 0xF5 then some (b.toNat % 8, 3)
  else none

/-- The lowest and highest byte that may come second after the lead byte `b`. -/
def secondRange (b : UInt8) : UInt8 × UInt8 :=
  if b = 0xE0 then (0xA0, 0xBF)
  else if b = 0xED then (0x80, 0x9F)
  else if b = 0xF0 then (0x90, 0xBF)
  else if b = 0xF4 then (0x80, 0x8F)
  else (0x80, 0xBF)

inductive Tail where
  | complete (value : Nat)
  | broken (seen : Nat)
  | ended
  deriving DecidableEq, Repr

/-- Read `missing` continuation bytes, the next one from `range`, onto the bits in `value`. A tail is
broken by the first byte that is out of range; `seen` counts those before it. -/
def tail : (missing value seen : Nat) → (range : UInt8 × UInt8) → List UInt8 → Tail
  | 0, value, _, _, _ => .complete value
  | _ + 1, _, _, _, [] => .ended
  | missing + 1, value, seen, range, b :: rest =>
    if range.1 ≤ b ∧ b ≤ range.2 then
      tail missing (value * 64 + b.toNat % 64) (seen + 1) (0x80, 0xBF) rest
    else .broken seen

/-- The characters of `bytes`, of which `start` valid bytes stand in front. -/
def decodeFrom (start : Nat) (bytes : List UInt8) : Except Utf8Fault (List Char) :=
  match bytes with
  | [] => .ok []
  | b :: rest =>
    match lead? b with
    | none => .error (.invalid 1 start)
    | some (value, missing) =>
      match tail missing value 0 (secondRange b) rest with
      | .complete scalar =>
        (decodeFrom (start + (missing + 1)) (rest.drop missing)).map (Char.ofNat scalar :: ·)
      | .broken seen => .error (.invalid (seen + 1) start)
      | .ended => .error (.incomplete start)
termination_by bytes.length
decreasing_by all_goals simp; try omega

def decode (bytes : List UInt8) : Except Utf8Fault (List Char) := decodeFrom 0 bytes

end Utf8
end WasmStream
