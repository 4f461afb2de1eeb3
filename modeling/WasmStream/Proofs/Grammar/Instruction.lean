import WasmStream.Proofs.Grammar.Types
import WasmStream.Proofs.Word

/-! The written forms of instructions: an opcode and its immediates, or a block with its body. The
opcode tables are inverse to the look-ups of the reader, so that a form names one instruction. -/
namespace WasmStream
open Reader Grammar Leb128

theorem LoadOp.toByte_of_ofByte? {b : UInt8} {op : LoadOp} (h : ofByte? b = some op) :
    op.toByte = b := by
  unfold ofByte? at h
  split at h
  · next hb =>
    cases h
    simp only [UInt8.le_iff_toNat_le, UInt8.reduceToNat] at hb
    have key : ∀ k : Fin 14, (LoadOp.ofNat k).ctorIdx = k := by decide
    have hk := key ⟨b.toNat - 0x28, by omega⟩
    apply UInt8.toNat.inj
    simp only [toByte, hk, UInt8.toNat_ofNat']
    omega
  · cases h

theorem StoreOp.toByte_of_ofByte? {b : UInt8} {op : StoreOp} (h : ofByte? b = some op) :
    op.toByte = b := by
  unfold ofByte? at h
  split at h
  · next hb =>
    cases h
    simp only [UInt8.le_iff_toNat_le, UInt8.reduceToNat] at hb
    have key : ∀ k : Fin 9, (StoreOp.ofNat k).ctorIdx = k := by decide
    have hk := key ⟨b.toNat - 0x36, by omega⟩
    apply UInt8.toNat.inj
    simp only [toByte, hk, UInt8.toNat_ofNat']
    omega
  · cases h

theorem NumericOp.toByte_of_ofByte? {b : UInt8} {op : NumericOp} (h : ofByte? b = some op) :
    op.toByte = b := by
  unfold ofByte? at h
  split at h
  · next hb =>
    cases h
    simp only [UInt8.le_iff_toNat_le, UInt8.reduceToNat] at hb
    have key : ∀ k : Fin 128, (NumericOp.ofNat k).ctorIdx = k := by decide +kernel
    have hk := key ⟨b.toNat - 0x45, by omega⟩
    apply UInt8.toNat.inj
    simp only [toByte, hk, UInt8.toNat_ofNat']
    omega
  · cases h

theorem TruncSatOp.toNumber_of_ofNumber? {n : UInt32} {op : TruncSatOp} (h : ofNumber? n = some op) :
    op.toNumber = n := by
  unfold ofNumber? at h
  split at h
  · next hn =>
    cases h
    simp only [UInt32.le_iff_toNat_le, UInt32.reduceToNat] at hn
    have key : ∀ k : Fin 8, (TruncSatOp.ofNat k).ctorIdx = k := by decide
    have hk := key ⟨n.toNat, by omega⟩
    simp only [toNumber, hk, UInt32.ofNat_toNat]
  · cases h

theorem PlainOp.opcode_of_ofOpcode? {code : Opcode} {op : PlainOp} (h : ofOpcode? code = some op) :
    op.opcode = code := by simpa using List.find?_some h

theorem IndexOp.opcode_of_ofOpcode? {code : Opcode} {op : IndexOp} (h : ofOpcode? code = some op) :
    op.opcode = code := by simpa using List.find?_some h

theorem PairOp.opcode_of_ofOpcode? {code : Opcode} {op : PairOp} (h : ofOpcode? code = some op) :
    op.opcode = code := by simpa using List.find?_some h

namespace Operator

theorem opcode_of_ofByte? {b : UInt8} {op : Operator} (h : ofByte? b = some op) :
    op.opcode = .short b := by
  unfold ofByte? at h
  repeat' split at h
  case isFalse =>
    simp only [Option.orElse_eq_orElse, Option.orElse_eq_or, Option.or_eq_some_iff,
      Option.map_eq_some_iff] at h
    rcases h with ⟨op', hop, rfl⟩ | ⟨-, ⟨op', hop, rfl⟩ | ⟨-, op', hop, rfl⟩⟩
    · rw [opcode, LoadOp.toByte_of_ofByte? hop]
    · rw [opcode, StoreOp.toByte_of_ofByte? hop]
    · rw [opcode, NumericOp.toByte_of_ofByte? hop]
  all_goals
    next hb => cases h; rw [hb]; rfl

theorem opcode_of_ofOpcode? {code : Opcode} {op : Operator} (h : ofOpcode? code = some op) :
    op.opcode = code := by
  simp only [ofOpcode?, Option.orElse_eq_orElse, Option.orElse_eq_or, Option.or_eq_some_iff,
    Option.map_eq_some_iff] at h
  rcases h with ⟨op', hop, rfl⟩ | ⟨-, ⟨op', hop, rfl⟩ | ⟨-, ⟨op', hop, rfl⟩ | ⟨-, h⟩⟩⟩
  · exact PlainOp.opcode_of_ofOpcode? hop
  · exact IndexOp.opcode_of_ofOpcode? hop
  · exact PairOp.opcode_of_ofOpcode? hop
  · cases code with
    | short b => exact opcode_of_ofByte? h
    | extended n =>
      obtain ⟨op', hop, rfl⟩ := Option.map_eq_some_iff.mp h
      rw [opcode, TruncSatOp.toNumber_of_ofNumber? hop]

theorem ofOpcode?_eq_some_iff {code : Opcode} {op : Operator} :
    ofOpcode? code = some op ↔ op.opcode = code := by
  constructor
  · exact opcode_of_ofOpcode?
  · rintro rfl
    exact ofOpcode?_opcode op

end Operator

/-- One byte, or the lead byte and a number that may be padded. -/
inductive Opcode.Form : Grammar Opcode
  | short {b : UInt8} : b ≠ lead → Form (.short b) [b]
  | extended {n : UInt32} {w : List UInt8} : U32 n w → Form (.extended n) (lead :: w)

theorem Opcode.reads_reader (b : UInt8) : Reads (reader b) fun code w => Form code (b :: w) := by
  refine ((reads_u32.image Opcode.extended).ite (p := b = lead)
    (reads_pure (.short b))).of_iff fun code w => ?_
  constructor
  · rintro (⟨rfl, n, rfl, hn⟩ | ⟨hb, rfl, rfl⟩)
    · exact .extended hn
    · exact .short hb
  · intro h
    cases h with
    | short hb => exact .inr ⟨hb, rfl, rfl⟩
    | extended hn => exact .inl ⟨rfl, _, rfl, hn⟩

def MemArg.Form : Grammar MemArg := fun arg w =>
  ∃ u v, U32 arg.align u ∧ U32 arg.offset v ∧ w = u ++ v

theorem MemArg.reads_reader : Reads reader Form := by
  refine (reads_u32.bind fun align => reads_u32.bind fun offset =>
    reads_pure (MemArg.mk align offset)).of_iff fun arg w => ?_
  constructor
  · rintro ⟨align, u, v, halign, ⟨offset, u', v', hoffset, ⟨rfl, rfl⟩, rfl⟩, rfl⟩
    exact ⟨u, u', halign, hoffset, by simp⟩
  · rintro ⟨u, v, halign, hoffset, rfl⟩
    exact ⟨_, u, _, halign, ⟨_, v, [], hoffset, ⟨rfl, rfl⟩, rfl⟩, by simp⟩

namespace Operator

/-- The immediates of an operator and the instruction that they make of it. Float constants are
written as their bits. -/
inductive Immediates : Operator → Grammar Instruction
  | plain (op : PlainOp) : Immediates (.plain op) (.plain op) []
  | indexed {op : IndexOp} {index : UInt32} {w : List UInt8} : U32 index w →
      Immediates (.indexed op) (.indexed op index) w
  | paired {op : PairOp} {first second : UInt32} {u v : List UInt8} : U32 first u → U32 second v →
      Immediates (.paired op) (.paired op first second) (u ++ v)
  | load {op : LoadOp} {arg : MemArg} {w : List UInt8} : arg.Form w →
      Immediates (.load op) (.load op arg) w
  | store {op : StoreOp} {arg : MemArg} {w : List UInt8} : arg.Form w →
      Immediates (.store op) (.store op arg) w
  | numeric (op : NumericOp) : Immediates (.numeric op) (.numeric op) []
  | truncSat (op : TruncSatOp) : Immediates (.truncSat op) (.truncSat op) []
  | brTable {targets : List UInt32} {default : UInt32} {u v : List UInt8} : Counted U32 targets u →
      U32 default v → Immediates .brTable (.brTable targets default) (u ++ v)
  | selectTyped {types : List ValueType} {w : List UInt8} : Counted ValueType.Form types w →
      Immediates .selectTyped (.selectTyped types) w
  | i32Const {value : Int32} {w : List UInt8} : I32 value w → Immediates .i32Const (.i32Const value) w
  | i64Const {value : Int64} {w : List UInt8} : I64 value w → Immediates .i64Const (.i64Const value) w
  | f32Const (bits : UInt32) :
      Immediates .f32Const (.f32Const bits) (toLittleEndian 4 bits.toNat)
  | f64Const (bits : UInt64) :
      Immediates .f64Const (.f64Const bits) (toLittleEndian 8 bits.toNat)
  | refNull (t : ValueType) : Immediates .refNull (.refNull t) [t.toByte]

end Operator

namespace Instruction

/-- The form of an instruction. A block ends where its body does, and the body is a row of forms. -/
inductive Form : Grammar Instruction
  | operator {op : Operator} {i : Instruction} {u v : List UInt8} : op.opcode.Form u →
      op.Immediates i v → Form i (u ++ v)
  | block {kind : BlockKind} {type : BlockType} {body : List Instruction} {u v : List UInt8} :
      type.Form u → Many Form body v →
      Form (.block kind type body) (kind.toByte :: (u ++ (v ++ [endByte])))
  | elseMark : Form .elseMark [elseByte]

/-- What an instruction may be where it stands: an `else` marker is directly inside an `if`, at most
one, and a null reference has a reference type. -/
def Proper : Instruction → Prop
  | block kind _ body => body.countP isElse ≤ if kind = .conditional then 1 else 0
  | refNull t => t.isReference = true
  | _ => True

end Instruction

namespace Reader

theorem reads_f32Bits : Reads f32Bits fun bits w => w = toLittleEndian 4 bits.toNat := by
  refine (reads_bytes 4).map fun bits w => ?_
  have hbits : bits.toNat < 256 ^ 4 := bits.toNat_lt
  rw [eq_toLittleEndian_iff hbits]
  constructor
  · rintro ⟨hlen, hw⟩
    exact ⟨w, by rw [hw, UInt32.ofNat_toNat], hlen, rfl⟩
  · rintro ⟨found, rfl, hlen, rfl⟩
    have hlt := ofLittleEndian_lt w
    rw [hlen] at hlt
    exact ⟨hlen, (UInt32.toNat_ofNat_of_lt' hlt).symm⟩

theorem reads_f64Bits : Reads f64Bits fun bits w => w = toLittleEndian 8 bits.toNat := by
  refine (reads_bytes 8).map fun bits w => ?_
  have hbits : bits.toNat < 256 ^ 8 := bits.toNat_lt
  rw [eq_toLittleEndian_iff hbits]
  constructor
  · rintro ⟨hlen, hw⟩
    exact ⟨w, by rw [hw, UInt64.ofNat_toNat], hlen, rfl⟩
  · rintro ⟨found, rfl, hlen, rfl⟩
    have hlt := ofLittleEndian_lt w
    rw [hlen] at hlt
    exact ⟨hlen, (UInt64.toNat_ofNat_of_lt' hlt).symm⟩

end Reader

namespace Operator

theorem reads_immediates (op : Operator) :
    Reads op.immediates fun i w => op.Immediates i w ∧ i.Proper := by
  cases op with
  | plain op =>
    refine (reads_pure _).of_iff fun i w => ⟨?_, ?_⟩
    · rintro ⟨rfl, rfl⟩
      exact ⟨.plain op, trivial⟩
    · rintro ⟨⟨⟩, -⟩
      exact ⟨rfl, rfl⟩
  | indexed op =>
    refine reads_u32.map fun i w => ⟨?_, ?_⟩
    · rintro ⟨⟨⟩, -⟩
      exact ⟨_, rfl, ‹_›⟩
    · rintro ⟨index, rfl, h⟩
      exact ⟨.indexed h, trivial⟩
  | paired op =>
    refine (reads_u32.bind fun first => reads_u32.image (Instruction.paired op first)).of_iff
      fun i w => ⟨?_, ?_⟩
    · rintro ⟨first, u, v, hfirst, ⟨second, rfl, hsecond⟩, rfl⟩
      exact ⟨.paired hfirst hsecond, trivial⟩
    · rintro ⟨⟨⟩, -⟩
      exact ⟨_, _, _, ‹_›, ⟨_, rfl, ‹_›⟩, rfl⟩
  | load op =>
    refine MemArg.reads_reader.map fun i w => ⟨?_, ?_⟩
    · rintro ⟨⟨⟩, -⟩
      exact ⟨_, rfl, ‹_›⟩
    · rintro ⟨arg, rfl, h⟩
      exact ⟨.load h, trivial⟩
  | store op =>
    refine MemArg.reads_reader.map fun i w => ⟨?_, ?_⟩
    · rintro ⟨⟨⟩, -⟩
      exact ⟨_, rfl, ‹_›⟩
    · rintro ⟨arg, rfl, h⟩
      exact ⟨.store h, trivial⟩
  | numeric op =>
    refine (reads_pure _).of_iff fun i w => ⟨?_, ?_⟩
    · rintro ⟨rfl, rfl⟩
      exact ⟨.numeric op, trivial⟩
    · rintro ⟨⟨⟩, -⟩
      exact ⟨rfl, rfl⟩
  | truncSat op =>
    refine (reads_pure _).of_iff fun i w => ⟨?_, ?_⟩
    · rintro ⟨rfl, rfl⟩
      exact ⟨.truncSat op, trivial⟩
    · rintro ⟨⟨⟩, -⟩
      exact ⟨rfl, rfl⟩
  | brTable =>
    refine (reads_u32.bind fun count => (reads_u32.times count.toNat).bind fun targets =>
      reads_u32.image (Instruction.brTable targets)).of_iff fun i w => ⟨?_, ?_⟩
    · rintro ⟨count, u, v, hcount, ⟨targets, u', v', ⟨hlen, htargets⟩, ⟨default, rfl, hdefault⟩, rfl⟩,
        rfl⟩
      rw [← List.append_assoc]
      exact ⟨.brTable ⟨count, u, u', hcount, hlen.symm, htargets, rfl⟩ hdefault, trivial⟩
    · rintro ⟨h, -⟩
      cases h with
      | brTable htargets hdefault =>
        obtain ⟨count, u, u', hcount, hlen, htargets, rfl⟩ := htargets
        exact ⟨count, u, _, hcount, ⟨_, u', _, ⟨hlen.symm, htargets⟩, ⟨_, rfl, hdefault⟩, rfl⟩,
          List.append_assoc _ _ _⟩
  | selectTyped =>
    refine ValueType.reads_listReader.map fun i w => ⟨?_, ?_⟩
    · rintro ⟨⟨⟩, -⟩
      exact ⟨_, rfl, ‹_›⟩
    · rintro ⟨types, rfl, h⟩
      exact ⟨.selectTyped h, trivial⟩
  | i32Const =>
    refine reads_i32.map fun i w => ⟨?_, ?_⟩
    · rintro ⟨⟨⟩, -⟩
      exact ⟨_, rfl, ‹_›⟩
    · rintro ⟨value, rfl, h⟩
      exact ⟨.i32Const h, trivial⟩
  | i64Const =>
    refine reads_i64.map fun i w => ⟨?_, ?_⟩
    · rintro ⟨⟨⟩, -⟩
      exact ⟨_, rfl, ‹_›⟩
    · rintro ⟨value, rfl, h⟩
      exact ⟨.i64Const h, trivial⟩
  | f32Const =>
    refine reads_f32Bits.map fun i w => ⟨?_, ?_⟩
    · rintro ⟨⟨⟩, -⟩
      exact ⟨_, rfl, rfl⟩
    · rintro ⟨bits, rfl, rfl⟩
      exact ⟨.f32Const bits, trivial⟩
  | f64Const =>
    refine reads_f64Bits.map fun i w => ⟨?_, ?_⟩
    · rintro ⟨⟨⟩, -⟩
      exact ⟨_, rfl, rfl⟩
    · rintro ⟨bits, rfl, rfl⟩
      exact ⟨.f64Const bits, trivial⟩
  | refNull =>
    refine ValueType.reads_referenceReader.map fun i w => ⟨?_, ?_⟩
    · rintro ⟨⟨⟩, hproper⟩
      exact ⟨_, rfl, rfl, hproper⟩
    · rintro ⟨t, rfl, rfl, href⟩
      exact ⟨.refNull t, href⟩

/-- What begins with the byte `b`, seen from behind that byte. -/
theorem reads_reader (b : UInt8) (start : Nat) : Reads (reader b start) fun i w =>
    i.Proper ∧ ∃ (op : Operator) (u v : _), op.opcode.Form (b :: u) ∧ op.Immediates i v ∧ w = u ++ v := by
  refine ((Opcode.reads_reader b).bind (K := fun code i w => ∃ op, ofOpcode? code = some op ∧
    op.Immediates i w ∧ i.Proper) fun code => ?_).of_iff fun i w => ?_
  · cases hcode : ofOpcode? code with
    | some op => exact op.reads_immediates.of_iff fun i w => by simp
    | none => exact (reads_fail _).of_iff fun i w => by simp
  · constructor
    · rintro ⟨code, u, v, hcode, ⟨op, hop, himmediates, hproper⟩, rfl⟩
      rw [ofOpcode?_eq_some_iff] at hop
      exact ⟨hproper, op, u, v, by rwa [hop], himmediates, rfl⟩
    · rintro ⟨hproper, op, u, v, hcode, himmediates, rfl⟩
      exact ⟨op.opcode, u, v, hcode, ⟨op, ofOpcode?_opcode op, himmediates, hproper⟩, rfl⟩

/-- No opcode begins like a marker or like a block. -/
theorem first_of_form {op : Operator} {u : List UInt8} (h : op.opcode.Form u) :
    ∃ b rest, u = b :: rest ∧ b ≠ Instruction.endByte ∧ b ≠ Instruction.elseByte ∧
      BlockKind.ofByte? b = none := by
  have hknown := ofOpcode?_opcode op
  generalize op.opcode = code at h hknown
  cases h with
  | @short b hb =>
    refine ⟨b, [], rfl, ?_, ?_, ?_⟩
    · rintro rfl
      cases hknown
    · rintro rfl
      cases hknown
    · apply Option.eq_none_iff_forall_ne_some.mpr
      intro kind hkind
      rw [← BlockKind.toByte_of_ofByte? hkind] at hknown
      cases kind <;> cases hknown
  | @extended n w hn => exact ⟨Opcode.lead, w, rfl, by decide, by decide, by decide⟩

end Operator
end WasmStream
