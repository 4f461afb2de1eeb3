import WasmStream.Proofs.Grammar.Expression
import WasmStream.Proofs.Leb128Exactness

/-! How much input a decoding needs. Whatever it decodes, from a number in LEB128 to a whole expression,
there is one byte with which the answer is there: every shorter prefix leaves the decoding waiting, and
nothing that follows changes the answer. -/
namespace WasmStream

namespace Reader
variable {α : Type} {r : Reader α} {c : Cursor} {a : α} {n : Nat}

/-- The bytes that a value was found in are enough to find it. -/
theorem Reads.done_take {G : Grammar α} (h : Reads r G) (hdone : r c = .done a n) :
    r ⟨c.offset, c.rest.take n⟩ = .done a n := by
  obtain ⟨hn, hform⟩ := (h c a n).mp hdone
  refine (h _ a n).mpr ⟨?_, ?_⟩
  · simp only [List.length_take_of_le hn, Nat.le_refl]
  · rwa [List.take_take, Nat.min_self]

/-- With fewer bytes there is neither a value, which would have been found with fewer, nor an error,
which would have lasted. -/
theorem Stable.needMore_of_lt (h : Stable r) (hdone : r c = .done a n) {k : Nat} (hk : k < n) :
    r ⟨c.offset, c.rest.take k⟩ = .needMore := by
  have hwhole : (Cursor.mk c.offset (c.rest.take k)).append (c.rest.drop k) = c := by
    simp [Cursor.append]
  cases hr : r ⟨c.offset, c.rest.take k⟩ with
  | needMore => rfl
  | done b m =>
    obtain ⟨hm, hmore⟩ := h.done hr
    have hlater := hmore (c.rest.drop k)
    rw [hwhole, hdone] at hlater
    cases hlater
    rw [List.length_take] at hm
    omega
  | fail e =>
    have hlater := h.fail hr (c.rest.drop k)
    rw [hwhole, hdone] at hlater
    cases hlater

end Reader
open Reader

/-- What can be decoded in one piece, with the values that it gives. -/
inductive Decoding : Type → Type
  | unsigned (bits : Nat) : Decoding Nat
  | signed (bits : Nat) : Decoding Int
  | u64 : Decoding UInt64
  | u32 : Decoding UInt32
  | i64 : Decoding Int64
  | i32 : Decoding Int32
  | valueType : Decoding ValueType
  | blockType : Decoding BlockType
  | limits : Decoding Limits
  | funcType : Decoding FuncType
  | tableType : Decoding TableType
  | globalType : Decoding GlobalType
  | expression (bounds : DecoderLimits) : Decoding Expression

namespace Decoding
variable {α : Type}

def reader : Decoding α → Reader α
  | unsigned bits => Reader.unsigned bits
  | signed bits => Reader.signed bits
  | u64 => Reader.u64
  | u32 => Reader.u32
  | i64 => Reader.i64
  | i32 => Reader.i32
  | valueType => ValueType.reader
  | blockType => BlockType.reader
  | limits => Limits.reader
  | funcType => FuncType.reader
  | tableType => TableType.reader
  | globalType => GlobalType.reader
  | expression bounds => Expression.reader bounds

theorem stable_reader (d : Decoding α) : Stable d.reader := by
  cases d with
  | unsigned bits => exact stable_unsigned bits
  | signed bits => exact stable_signed bits
  | u64 => exact (stable_unsigned 64).bind fun _ => stable_pure _
  | u32 => exact stable_u32
  | i64 => exact stable_i64
  | i32 => exact stable_i32
  | valueType => exact ValueType.stable_reader
  | blockType => exact BlockType.stable_reader
  | limits => exact Limits.stable_reader
  | funcType => exact FuncType.stable_reader
  | tableType => exact TableType.stable_reader
  | globalType => exact GlobalType.stable_reader
  | expression bounds => exact Expression.stable_reader bounds

theorem exists_reads (d : Decoding α) : ∃ G, Reads d.reader G := by
  cases d with
  | unsigned bits => exact ⟨_, Leb128.reads_unsigned bits⟩
  | signed bits => exact ⟨_, Leb128.reads_signed bits⟩
  | u64 => exact ⟨_, Leb128.reads_u64⟩
  | u32 => exact ⟨_, Grammar.reads_u32⟩
  | i64 => exact ⟨_, Grammar.reads_i64⟩
  | i32 => exact ⟨_, Grammar.reads_i32⟩
  | valueType => exact ⟨_, ValueType.reads_reader⟩
  | blockType => exact ⟨_, BlockType.reads_reader⟩
  | limits => exact ⟨_, Limits.reads_reader⟩
  | funcType => exact ⟨_, FuncType.reads_reader⟩
  | tableType => exact ⟨_, TableType.reads_reader⟩
  | globalType => exact ⟨_, GlobalType.reads_reader⟩
  | expression bounds => exact ⟨_, Expression.reads_reader bounds⟩

/-- Bytes behind those that are there change neither a value nor an error. A value is found with the
last of its bytes and not before. -/
theorem reader_settled (d : Decoding α) (offset : Nat) (bytes more : List UInt8) :
    (∀ a n, d.reader ⟨offset, bytes⟩ = .done a n →
      d.reader ⟨offset, bytes ++ more⟩ = .done a n) ∧
    (∀ e, d.reader ⟨offset, bytes⟩ = .fail e → d.reader ⟨offset, bytes ++ more⟩ = .fail e) ∧
    ∀ a n, d.reader ⟨offset, bytes⟩ = .done a n →
      n ≤ bytes.length ∧ d.reader ⟨offset, bytes.take n⟩ = .done a n ∧
        ∀ k < n, d.reader ⟨offset, bytes.take k⟩ = .needMore := by
  obtain ⟨G, hreads⟩ := d.exists_reads
  refine ⟨?_, ?_, ?_⟩
  · intro a n hdone
    exact (d.stable_reader.done hdone).2 more
  · intro e hfail
    exact d.stable_reader.fail hfail more
  · intro a n hdone
    refine ⟨(d.stable_reader.done hdone).1, hreads.done_take hdone, ?_⟩
    intro k hk
    exact d.stable_reader.needMore_of_lt hdone hk

/-- A signature whose count of parameters is padded, cut behind its only parameter, and with bytes that
are no longer its own. -/
theorem reader_settled_padded :
    funcType.reader ⟨7, [0x60, 0x81, 0x00, 0x7C, 0x01, 0x7E]⟩ = .done ⟨[.f64], [.i64]⟩ 6 ∧
    funcType.reader ⟨7, [0x60, 0x81, 0x00, 0x7C, 0x01, 0x7E] ++ [0x7F, 0x60]⟩ =
      .done ⟨[.f64], [.i64]⟩ 6 ∧
    funcType.reader ⟨7, [0x60, 0x81, 0x00, 0x7C]⟩ = .needMore := by
  have hdone : funcType.reader ⟨7, [0x60, 0x81, 0x00, 0x7C, 0x01, 0x7E]⟩ =
      .done ⟨[.f64], [.i64]⟩ 6 := rfl
  obtain ⟨hlater, -, hshorter⟩ := reader_settled funcType 7
    [0x60, 0x81, 0x00, 0x7C, 0x01, 0x7E] [0x7F, 0x60]
  exact ⟨hdone, hlater _ _ hdone, (hshorter _ _ hdone).2.2 4 (by decide)⟩

end Decoding
end WasmStream
