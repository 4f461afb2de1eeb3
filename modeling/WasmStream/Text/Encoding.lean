import WasmStream.Text.Utf8
import WasmStream.Text.Utf16
import WasmStream.Text.Utf32

/-! The three encodings in which a module may keep a string. -/
namespace WasmStream

/-- ASCII letters in lower case, every other character as it is. -/
def asciiLower (text : String) : String := String.ofList (text.toList.map Char.toLower)

inductive StringEncoding where
  | utf8 | utf16 | utf32
  deriving DecidableEq, Repr

namespace StringEncoding

def name : StringEncoding → String
  | utf8 => "utf8"
  | utf16 => "utf16"
  | utf32 => "utf32"

/-- The encoding with exactly this name. -/
def ofName? (text : String) : Option StringEncoding :=
  if text = "utf8" then some utf8 else if text = "utf16" then some utf16
  else if text = "utf32" then some utf32 else none

/-- A name in any case, with or without a hyphen before the number. -/
def parse (text : String) : Except Error StringEncoding :=
  let lower := asciiLower text
  if lower = "utf8" ∨ lower = "utf-8" then .ok utf8
  else if lower = "utf16" ∨ lower = "utf-16" then .ok utf16
  else if lower = "utf32" ∨ lower = "utf-32" then .ok utf32
  else .error (.invalidConfiguration ("unknown string encoding `" ++ lower ++ "`"))

def encode : StringEncoding → List Char → List UInt8
  | utf8 => Utf8.encode
  | utf16 => Utf16.encode
  | utf32 => Utf32.encode

def decode (e : StringEncoding) (bytes : List UInt8) : Except Error (List Char) :=
  match e with
  | utf8 => (Utf8.decode bytes).mapError fun fault => .invalidEncoding e.name fault.message
  | utf16 =>
    match Utf16.units? bytes with
    | none => .error (.invalidEncoding e.name "odd byte length")
    | some units =>
      (Utf16.decodeUnits units).mapError fun u =>
        .invalidEncoding e.name s!"unpaired surrogate found: {hex u.toNat}"
  | utf32 =>
    match Utf32.units? bytes with
    | none => .error (.invalidEncoding e.name "byte length not a multiple of 4")
    | some units =>
      (Utf32.decodeUnits units).mapError fun u =>
        .invalidEncoding e.name s!"invalid code point 0x{hex u.toNat}"

end StringEncoding
end WasmStream
