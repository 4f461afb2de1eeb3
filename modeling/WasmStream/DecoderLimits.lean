/-! Bounds on the sizes that a module may claim. -/
namespace WasmStream

/-- `maxBlockDepth` bounds the nesting of blocks, `maxLocals` the local slots of one function and
`maxPayloadSize` every field that is written with its length. -/
structure DecoderLimits where
  maxBlockDepth : UInt32 := 1024
  maxLocals : UInt32 := 50000
  maxPayloadSize : UInt32 := 67108864
  deriving DecidableEq, Repr

end WasmStream
