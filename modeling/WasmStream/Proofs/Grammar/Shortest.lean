import WasmStream.Proofs.Grammar.Expression

/-! The shortest written form of an expression. It is one of the forms, so that reading it back gives
the expression again. -/
namespace WasmStream
open Reader Grammar Leb128

namespace Instruction

/-- A list that is written with its count has a count of 32 bits; a longer one cannot be written. -/
def Countable : Instruction → Prop
  | brTable targets _ => targets.length < 2 ^ 32
  | selectTyped types => types.length < 2 ^ 32
  | _ => True

/-- The count and the items. -/
def encodeList {α : Type} (item : α → List UInt8) (l : List α) : List UInt8 :=
  ofNat l.length ++ l.flatMap item

mutual

def encode : Instruction → List UInt8
  | plain op => (Operator.plain op).opcode.encode
  | block kind type body => kind.toByte :: (type.encode ++ (encodeAll body ++ [endByte]))
  | elseMark => [elseByte]
  | indexed op index => (Operator.indexed op).opcode.encode ++ ofNat index.toNat
  | paired op first second =>
    (Operator.paired op).opcode.encode ++ (ofNat first.toNat ++ ofNat second.toNat)
  | brTable targets default =>
    Operator.brTable.opcode.encode ++
      (encodeList (fun target => ofNat target.toNat) targets ++ ofNat default.toNat)
  | selectTyped types =>
    Operator.selectTyped.opcode.encode ++ encodeList (fun type => [type.toByte]) types
  | load op arg =>
    (Operator.load op).opcode.encode ++ (ofNat arg.align.toNat ++ ofNat arg.offset.toNat)
  | store op arg =>
    (Operator.store op).opcode.encode ++ (ofNat arg.align.toNat ++ ofNat arg.offset.toNat)
  | i32Const value => Operator.i32Const.opcode.encode ++ ofInt value.toInt
  | i64Const value => Operator.i64Const.opcode.encode ++ ofInt value.toInt
  | f32Const bits => Operator.f32Const.opcode.encode ++ toLittleEndian 4 bits.toNat
  | f64Const bits => Operator.f64Const.opcode.encode ++ toLittleEndian 8 bits.toNat
  | numeric op => (Operator.numeric op).opcode.encode
  | truncSat op => (Operator.truncSat op).opcode.encode
  | refNull type => Operator.refNull.opcode.encode ++ [type.toByte]

def encodeAll : List Instruction → List UInt8
  | [] => []
  | i :: rest => i.encode ++ encodeAll rest

end

theorem countable_of_immediates {op : Operator} {i : Instruction} {w : List UInt8}
    (h : op.Immediates i w) : i.Countable := by
  cases h with
  | brTable htargets hdefault => exact htargets.length_lt
  | selectTyped htypes => exact htypes.length_lt
  | _ => exact trivial

mutual

theorem everywhere_countable (i : Instruction) {w : List UInt8} (h : Form i w) :
    i.Everywhere Countable := by
  cases h with
  | operator hcode himmediates =>
    rw [(simple_of_immediates himmediates).1]
    exact countable_of_immediates himmediates
  | block htype hbody => exact ⟨trivial, everywhereAll_countable _ hbody⟩
  | elseMark => exact trivial

/-- What has a form at all can be counted. -/
theorem everywhereAll_countable (l : List Instruction) {w : List UInt8} (h : Many Form l w) :
    EverywhereAll Countable l := by
  cases h with
  | nil => exact trivial
  | cons hi hrest => exact ⟨everywhere_countable _ hi, everywhereAll_countable _ hrest⟩

end

theorem counted_encodeList {α : Type} {G : Grammar α} {item : α → List UInt8} {l : List α}
    (hl : l.length < 2 ^ 32) (hitem : ∀ a, G a (item a)) : Counted G l (encodeList item l) := by
  have hcount : (UInt32.ofNat l.length).toNat = l.length := UInt32.toNat_ofNat_of_lt' hl
  refine ⟨UInt32.ofNat l.length, ofNat l.length, l.flatMap item, ?_, hcount,
    many_flatMap fun a _ => hitem a, rfl⟩
  have h := u32_ofNat (UInt32.ofNat l.length)
  rwa [hcount] at h

theorem Operator.form_encode (op : Operator) : op.opcode.Form op.opcode.encode := by
  have hknown := Operator.ofOpcode?_opcode op
  generalize op.opcode = code at hknown ⊢
  cases code with
  | short b =>
    refine .short ?_
    rintro rfl
    cases hknown
  | extended n => exact .extended (u32_ofNat n)

/-- An operator without immediates has its opcode alone for a form. -/
theorem form_opcode {op : Operator} {i : Instruction} (h : op.Immediates i []) :
    Form i op.opcode.encode := by
  have hform := Form.operator (Operator.form_encode op) h
  rwa [List.append_nil] at hform

mutual

theorem form_encode (i : Instruction) (h : i.Everywhere Countable) : Form i i.encode := by
  match i with
  | plain op => exact form_opcode (.plain op)
  | block kind type body => exact .block (BlockType.form_encode type) (forms_encodeAll body h.2)
  | elseMark => exact .elseMark
  | indexed op index => exact .operator (Operator.form_encode _) (.indexed (u32_ofNat index))
  | paired op first second =>
    exact .operator (Operator.form_encode _) (.paired (u32_ofNat first) (u32_ofNat second))
  | brTable targets default =>
    exact .operator (Operator.form_encode _)
      (.brTable (counted_encodeList h u32_ofNat) (u32_ofNat default))
  | selectTyped types =>
    exact .operator (Operator.form_encode _) (.selectTyped (counted_encodeList h fun _ => rfl))
  | load op arg =>
    exact .operator (Operator.form_encode _)
      (.load ⟨_, _, u32_ofNat arg.align, u32_ofNat arg.offset, rfl⟩)
  | store op arg =>
    exact .operator (Operator.form_encode _)
      (.store ⟨_, _, u32_ofNat arg.align, u32_ofNat arg.offset, rfl⟩)
  | i32Const value => exact .operator (Operator.form_encode _) (.i32Const (i32_ofInt value))
  | i64Const value => exact .operator (Operator.form_encode _) (.i64Const (i64_ofInt value))
  | f32Const bits => exact .operator (Operator.form_encode _) (.f32Const bits)
  | f64Const bits => exact .operator (Operator.form_encode _) (.f64Const bits)
  | numeric op => exact form_opcode (.numeric op)
  | truncSat op => exact form_opcode (.truncSat op)
  | refNull type => exact .operator (Operator.form_encode _) (.refNull type)

theorem forms_encodeAll (l : List Instruction) (h : EverywhereAll Countable l) :
    Many Form l (encodeAll l) := by
  match l with
  | [] => exact .nil
  | i :: rest => exact .cons (form_encode i h.1) (forms_encodeAll rest h.2)

end

end Instruction

namespace Expression
open Instruction

def encode (e : Expression) : List UInt8 := encodeAll e ++ [endByte]

theorem encoding_encode {e : Expression} (h : EverywhereAll Countable e) : e.Encoding e.encode :=
  ⟨encodeAll e, forms_encodeAll e h, rfl⟩

/-- The reader finds an expression if and only if the bytes begin with an encoding of it and it is well
formed and within the limits. If its lists can be counted, its shortest encoding is read back, whatever
stands behind it. -/
theorem reader_exact (limits : DecoderLimits) :
    (∀ base bytes e n, reader limits ⟨base, bytes⟩ = .done e n ↔
      n ≤ bytes.length ∧ e.Encoding (bytes.take n) ∧ e.WellFormed ∧
        depthAll e ≤ limits.maxBlockDepth.toNat) ∧
      ∀ base rest (e : Expression), e.WellFormed → EverywhereAll Countable e →
        depthAll e ≤ limits.maxBlockDepth.toNat →
        reader limits ⟨base, e.encode ++ rest⟩ = .done e e.encode.length := by
  constructor
  · intro base bytes e n
    exact reads_reader limits ⟨base, bytes⟩ e n
  · intro base rest e hformed hcountable hdepth
    exact (reads_reader limits).complete ⟨encoding_encode hcountable, hformed, hdepth⟩ base

theorem reader_exact_conditional :
    reader {} ⟨0, [0x04, 0x7F, 0x41, 0x01, 0x05, 0x41, 0x7F, 0x0B, 0x1A, 0x0B] ++ [0xFF]⟩ =
      .done [.block .conditional (.value .i32) [.i32Const 1, .elseMark, .i32Const (-1)],
        .plain .drop] 10 := by
  have hencode : encode [.block .conditional (.value .i32) [.i32Const 1, .elseMark, .i32Const (-1)],
      .plain .drop] = [0x04, 0x7F, 0x41, 0x01, 0x05, 0x41, 0x7F, 0x0B, 0x1A, 0x0B] := by
    have hone : Leb128.ofInt (1 : Int32).toInt = [0x01] := by rw [Leb128.ofInt]; rfl
    have hminus : Leb128.ofInt (-1 : Int32).toInt = [0x7F] := by rw [Leb128.ofInt]; rfl
    simp only [encode, encodeAll, Instruction.encode, hone, hminus]
    rfl
  have h := (reader_exact {}).2 0 [0xFF]
    [.block .conditional (.value .i32) [.i32Const 1, .elseMark, .i32Const (-1)], .plain .drop]
    ⟨rfl, ⟨Nat.le_refl 1, trivial, trivial, trivial, trivial⟩, trivial, trivial⟩
    ⟨⟨trivial, trivial, trivial, trivial, trivial⟩, trivial, trivial⟩ (by decide)
  rwa [hencode] at h

/-- The count of `2 ^ 32` targets has a fifth byte that is too large for a count. -/
theorem reader_brTable_of_length {targets : List UInt32} (h : targets.length = 2 ^ 32)
    (default : UInt32) (limits : DecoderLimits) (rest : List UInt8) :
    reader limits ⟨0, encode [.brTable targets default] ++ rest⟩ =
      .fail (.integerTooLarge false 32 1) := by
  have hcount : ofNat (2 ^ 32) = [0x80, 0x80, 0x80, 0x80, 0x10] := by cbv
  have hfail : reader limits ⟨0, [0x0E, 0x80, 0x80, 0x80, 0x80, 0x10]⟩ =
      .fail (.integerTooLarge false 32 1) := by
    rw [reader, scan_cons limits [] [] false 0 rfl]
    rfl
  have hencode : encode [.brTable targets default] ++ rest =
      [0x0E, 0x80, 0x80, 0x80, 0x80, 0x10] ++
        (targets.flatMap (fun target => ofNat target.toNat) ++ ofNat default.toNat ++ [endByte] ++
          rest) := by
    simp only [encode, encodeAll, Instruction.encode, encodeList, h, hcount, List.append_assoc,
      List.append_nil]
    rfl
  rw [hencode]
  exact (stable_reader limits).fail hfail _

theorem countable_of_done {limits : DecoderLimits} {c : Cursor} {e : Expression} {n : Nat}
    (h : reader limits c = .done e n) : EverywhereAll Countable e := by
  obtain ⟨-, hencoding, -⟩ := (reads_reader limits c e n).mp h
  obtain ⟨u, hforms, -⟩ := hencoding
  exact everywhereAll_countable e hforms

/-- A table of `2 ^ 32` targets is well formed and nests no block, and yet its shortest encoding is not
read back, since the count does not fit; no other bytes are read as this table either. -/
theorem reader_brTable_uncountable :
    WellFormed [.brTable (List.replicate (2 ^ 32) 0) 0] ∧
      depthAll [.brTable (List.replicate (2 ^ 32) 0) 0] ≤ ({} : DecoderLimits).maxBlockDepth.toNat ∧
      reader {} ⟨0, encode [.brTable (List.replicate (2 ^ 32) 0) 0] ++ []⟩ =
        .fail (.integerTooLarge false 32 1) ∧
      ∀ base bytes n, reader {} ⟨base, bytes⟩ ≠ .done [.brTable (List.replicate (2 ^ 32) 0) 0] n := by
  refine ⟨⟨rfl, trivial, trivial⟩, Nat.zero_le _, ?_, fun base bytes n h => ?_⟩
  · exact reader_brTable_of_length List.length_replicate 0 {} []
  · have hlength : (List.replicate (2 ^ 32) (0 : UInt32)).length < 2 ^ 32 := (countable_of_done h).1
    rw [List.length_replicate] at hlength
    exact Nat.lt_irrefl _ hlength

end Expression
end WasmStream
