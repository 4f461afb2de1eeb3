import WasmStream.Decoder.Advance

/-! Decoding a whole module, and decoding chunk by chunk. -/
namespace WasmStream

def decodeModule (limits : DecoderLimits) (bytes : List UInt8) : Except Error Module :=
  match (Decoder.new limits).advance (Slice.ofBytes bytes 0) with
  | (.ok _, d, s) => d.finish s
  | (.error error, _, _) => .error error

/-- The bytes in pieces of `n`; the last may be shorter. -/
def chunksOf (n : Nat) (bytes : List UInt8) : List (List UInt8) :=
  if bytes = [] ∨ n = 0 then [] else bytes.take n :: chunksOf n (bytes.drop n)
termination_by bytes.length
decreasing_by
  rename_i h
  have := List.length_pos_iff.2 (not_or.1 h).1
  simp only [List.length_drop]
  omega

structure StreamingDecoder where
  stream : ChunkStream
  decoder : Decoder
  deriving DecidableEq, Repr

namespace StreamingDecoder

def new (limits : DecoderLimits) : StreamingDecoder := ⟨.empty, .new limits⟩

/-- Add a chunk and decode as far as possible. -/
def feed (d : StreamingDecoder) (chunk : List UInt8) : Except Error Status × StreamingDecoder :=
  let (result, decoder, stream) := d.decoder.advance (d.stream.push chunk)
  (result, ⟨stream, decoder⟩)

def received (d : StreamingDecoder) : Nat := d.stream.received

def finish (d : StreamingDecoder) : Except Error Module := d.decoder.finish d.stream

/-- Feed the chunks in order, up to the first that fails. -/
def feedAll (d : StreamingDecoder) : List (List UInt8) → Except Error StreamingDecoder
  | [] => .ok d
  | chunk :: rest =>
    match d.feed chunk with
    | (.ok _, d) => feedAll d rest
    | (.error error, _) => .error error

end StreamingDecoder
end WasmStream
