import WasmStream.Instruction.Text
import WasmStream.Module.Query
import WasmStream.Text.Encoding
import WasmStream.Decoder.Streaming
import WasmStream.ConstantExpression
import WasmStream.Instance
import WasmStream.Binding
import WasmStream.Main
import WasmStream.Proofs.Stability
import WasmStream.Proofs.ExpressionScan
import WasmStream.Proofs.EntryResumption
import WasmStream.Proofs.Continuation
import WasmStream.Proofs.RunContinuation
import WasmStream.Proofs.Chunking
import WasmStream.Proofs.Grammar.Basic
import WasmStream.Proofs.Grammar.Leb128
import WasmStream.Proofs.Grammar.Types
import WasmStream.Proofs.Grammar.Instruction
import WasmStream.Proofs.Grammar.Expression
import WasmStream.Proofs.Grammar.Shortest
import WasmStream.Proofs.Grammar.Builders
import WasmStream.Proofs.Grammar.EntryReaders
import WasmStream.Proofs.Grammar.Entries
import WasmStream.Proofs.Grammar.Code
import WasmStream.Proofs.Grammar.Sections
import WasmStream.Proofs.Grammar.Module
import WasmStream.Proofs.Relocation.Readers
import WasmStream.Proofs.Relocation.Builders
import WasmStream.Proofs.Relocation.Decoder
import WasmStream.Proofs.Composition
import WasmStream.Proofs.Truncation
import WasmStream.Proofs.Soundness
import WasmStream.Proofs.Rejection.Builders
import WasmStream.Proofs.Rejection.Decoder
import WasmStream.Proofs.Rejection.Sites
import WasmStream.Proofs.Rejection.Recovery
import WasmStream.Proofs.SectionBounds
import WasmStream.Proofs.Memory.Accounting
import WasmStream.Proofs.Instantiation
import WasmStream.Proofs.Restriction.Builders
import WasmStream.Proofs.Restriction.Decoder
import WasmStream.Proofs.Restriction.Module
import WasmStream.Proofs.ExportResolution
import WasmStream.Proofs.Memory.ByteMap
import WasmStream.Proofs.StreamRefinement
import WasmStream.Proofs.TransitionBound
import WasmStream.Proofs.Atomicity
import WasmStream.Proofs.BuilderCompletion
import WasmStream.Proofs.BuilderSchedule
import WasmStream.Proofs.PrefixStability
import WasmStream.Proofs.Leb128Exactness
import WasmStream.Proofs.Leb128Writers
import WasmStream.Proofs.Leb128Words
import WasmStream.Proofs.ConstantTree
import WasmStream.Proofs.GlobalEnvironment
import WasmStream.Proofs.BodyContents
import WasmStream.Proofs.WideText
import WasmStream.Proofs.TextExchange
import WasmStream.Proofs.IndexSpaces
import WasmStream.Proofs.TypedHandles
import WasmStream.Proofs.Weight
import WasmStream.Proofs.Accumulation
import WasmStream.Proofs.ByteStore
import WasmStream.Proofs.Branches
import WasmStream.Proofs.FieldSequence
