import WasmStream.Instruction.Reader
import WasmStream.Builder.Entries

/-! What a reader has answered stays its answer when more input arrives. A value or an error found in
the bytes that are there does not depend on the bytes behind them; only a wish for more input can be
answered differently later. -/
namespace WasmStream

namespace Cursor

theorem append_nil (c : Cursor) : c.append [] = c := by simp [append]

theorem append_append (c : Cursor) (first second : List UInt8) :
    (c.append first).append second = c.append (first ++ second) := by
  simp only [append, List.append_assoc]

theorem drop_append {c : Cursor} {n : Nat} (h : n ≤ c.rest.length) (more : List UInt8) :
    (c.append more).drop n = (c.drop n).append more := by
  simp [append, drop, List.drop_append_of_le_length h]

theorem append_cons {c : Cursor} {b : UInt8} {rest : List UInt8} (h : c.rest = b :: rest)
    (more : List UInt8) : (c.append more).rest = b :: (rest ++ more) := by simp [h]

end Cursor

namespace Outcome
variable {α : Type}

theorem after_zero (o : Outcome α) : o.after 0 = o := by cases o <;> simp [after]

theorem after_after (m n : Nat) (o : Outcome α) : (o.after n).after m = o.after (m + n) := by
  cases o <;> simp [after, Nat.add_assoc]

end Outcome

namespace Reader
variable {α β : Type}

structure Stable (r : Reader α) : Prop where
  done : ∀ {c a n}, r c = .done a n → n ≤ c.rest.length ∧ ∀ more, r (c.append more) = .done a n
  fail : ∀ {c e}, r c = .fail e → ∀ more, r (c.append more) = .fail e

theorem stable_pure (a : α) : Stable (pure a : Reader α) where
  done h := by
    simp only [pure_run] at h
    cases h
    exact ⟨Nat.zero_le _, fun _ => rfl⟩
  fail h := by cases h

theorem stable_fail (error : Error) : Stable (fail error : Reader α) where
  done h := by cases h
  fail h := by
    cases h
    exact fun _ => rfl

theorem stable_offset : Stable offset where
  done h := by
    cases h
    exact ⟨Nat.zero_le _, fun _ => rfl⟩
  fail h := by cases h

theorem stable_peek : Stable peek where
  done {c a n} h := by
    unfold peek at h
    split at h
    · cases h
    · next b rest hc =>
      cases h
      exact ⟨Nat.zero_le _, fun _ => by simp [peek, hc]⟩
  fail {c e} h := by
    unfold peek at h
    split at h <;> cases h

theorem stable_byte : Stable byte where
  done {c a n} h := by
    unfold byte at h
    split at h
    · cases h
    · next b rest hc =>
      cases h
      exact ⟨by simp [hc], fun _ => by simp [byte, hc]⟩
  fail {c e} h := by
    unfold byte at h
    split at h <;> cases h

theorem stable_bytes (n : Nat) : Stable (bytes n) where
  done {c a k} h := by
    simp only [bytes] at h
    split at h
    · next hl =>
      cases h
      have hk : n ≤ c.rest.length := by simp at hl; omega
      refine ⟨hk, fun more => ?_⟩
      simp [bytes, List.take_append_of_le_length hk, hk]
    · cases h
  fail {c e} h := by
    simp only [bytes] at h
    split at h <;> cases h

theorem bind_eq_done {r : Reader α} {f : α → Reader β} {c : Cursor} {b : β} {k : Nat} :
    (r >>= f) c = .done b k ↔
      ∃ a n m, r c = .done a n ∧ f a (c.drop n) = .done b m ∧ k = n + m := by
  rw [bind_run]
  cases r c with
  | done a n => cases hf : f a (c.drop n) <;> grind [Outcome.after]
  | needMore => grind
  | fail error => grind

theorem bind_eq_fail {r : Reader α} {f : α → Reader β} {c : Cursor} {e : Error} :
    (r >>= f) c = .fail e ↔
      r c = .fail e ∨ ∃ a n, r c = .done a n ∧ f a (c.drop n) = .fail e := by
  rw [bind_run]
  cases r c with
  | done a n => cases hf : f a (c.drop n) <;> grind [Outcome.after]
  | needMore => grind
  | fail error => grind

/-- The second reader sees the bytes that the first one has left. -/
theorem Stable.bind {r : Reader α} {f : α → Reader β} (hr : Stable r) (hf : ∀ a, Stable (f a)) :
    Stable (r >>= f) where
  done {c b k} h := by
    obtain ⟨a, n, m, ha, hb, rfl⟩ := bind_eq_done.mp h
    obtain ⟨hn, hmore⟩ := hr.done ha
    obtain ⟨hm, hmore'⟩ := (hf a).done hb
    simp only [Cursor.drop_rest, List.length_drop] at hm
    refine ⟨by omega, fun more => bind_eq_done.mpr ⟨a, n, m, hmore more, ?_, rfl⟩⟩
    rw [Cursor.drop_append hn]
    exact hmore' more
  fail {c e} h more := by
    rcases bind_eq_fail.mp h with he | ⟨a, n, ha, he⟩
    · exact bind_eq_fail.mpr (.inl (hr.fail he more))
    · obtain ⟨hn, hmore⟩ := hr.done ha
      refine bind_eq_fail.mpr (.inr ⟨a, n, hmore more, ?_⟩)
      rw [Cursor.drop_append hn]
      exact (hf a).fail he more

theorem stable_skip (n : Nat) : Stable (skip n) := (stable_bytes n).bind fun _ => stable_pure ()

theorem Stable.times {r : Reader α} (hr : Stable r) (n : Nat) : Stable (times r n) := by
  induction n with
  | zero => exact stable_pure []
  | succ n ih => exact hr.bind fun _ => ih.bind fun _ => stable_pure _

theorem stable_f32Bits : Stable f32Bits := (stable_bytes 4).bind fun _ => stable_pure _

theorem stable_f64Bits : Stable f64Bits := (stable_bytes 8).bind fun _ => stable_pure _

end Reader

namespace Leb128
variable {α : Type}

structure StableScan (scan : List UInt8 → Scan α) : Prop where
  value : ∀ {bytes v n}, scan bytes = .value v n →
    n ≤ bytes.length ∧ ∀ more, scan (bytes ++ more) = .value v n
  overflow : ∀ {bytes}, scan bytes = .overflow → ∀ more, scan (bytes ++ more) = .overflow

/-- The first byte decides alone, or it leaves the answer to a scan of the bytes behind it. -/
theorem StableScan.of_first {scan : List UInt8 → Scan α} (hnil : scan [] = .incomplete)
    (hcons : ∀ b, (∃ s, (∀ v n, s = .value v n → n = 1) ∧ ∀ rest, scan (b :: rest) = s) ∨
      ∃ scan' f, StableScan scan' ∧ ∀ rest, scan (b :: rest) = (scan' rest).push f) :
    StableScan scan where
  value {bytes v n} h := by
    cases bytes with
    | nil => rw [hnil] at h; cases h
    | cons b rest =>
      rcases hcons b with ⟨s, hs, hall⟩ | ⟨scan', f, hscan, hall⟩
      · rw [hall] at h
        obtain rfl := hs v n h
        exact ⟨by simp, fun more => by rw [List.cons_append, hall, h]⟩
      · rw [hall] at h
        cases hr : scan' rest with
        | value w m =>
          obtain ⟨hm, hmore⟩ := hscan.value hr
          rw [hr] at h
          cases h
          refine ⟨by simpa using hm, fun more => ?_⟩
          rw [List.cons_append, hall, hmore more, Scan.push]
        | incomplete => rw [hr] at h; cases h
        | overflow => rw [hr] at h; cases h
  overflow {bytes} h more := by
    cases bytes with
    | nil => rw [hnil] at h; cases h
    | cons b rest =>
      rcases hcons b with ⟨s, hs, hall⟩ | ⟨scan', f, hscan, hall⟩
      · rw [hall] at h
        rw [List.cons_append, hall, h]
      · rw [hall] at h
        cases hr : scan' rest with
        | value w m => rw [hr] at h; cases h
        | incomplete => rw [hr] at h; cases h
        | overflow => rw [List.cons_append, hall, hscan.overflow hr more, Scan.push]

theorem stable_scanUnsigned (bits : Nat) : StableScan (scanUnsigned bits) := by
  induction bits using Nat.strongRecOn with
  | ind bits ih =>
    refine .of_first rfl fun b => ?_
    by_cases h0 : bits = 0
    · exact .inl ⟨.incomplete, by simp, fun rest => by simp [scanUnsigned, h0]⟩
    by_cases h7 : bits ≤ 7
    · refine .inl ⟨if b.toNat < 1 <<< bits then .value b.toNat 1 else .overflow, ?_, fun rest => ?_⟩
      · intro v n h
        split at h <;> cases h
        rfl
      · simp only [scanUnsigned, h0, h7, if_true, if_false]
    by_cases hb : b.toNat < 128
    · exact .inl ⟨.value b.toNat 1, by simp_all, fun rest => by simp [scanUnsigned, h0, h7, hb]⟩
    · refine .inr ⟨scanUnsigned (bits - 7), fun v => b.toNat % 128 + 128 * v,
        ih (bits - 7) (by omega), fun rest => ?_⟩
      simp only [scanUnsigned, h0, h7, hb, if_false]

theorem stable_scanSigned (bits : Nat) : StableScan (scanSigned bits) := by
  induction bits using Nat.strongRecOn with
  | ind bits ih =>
    refine .of_first rfl fun b => ?_
    by_cases h0 : bits = 0
    · exact .inl ⟨.incomplete, by simp, fun rest => by simp [scanSigned, h0]⟩
    by_cases h7 : bits ≤ 7
    · refine .inl ⟨scanSigned bits [b], ?_, fun rest => ?_⟩
      · intro v n h
        simp only [scanSigned, h0, h7, if_true, if_false] at h
        split at h <;> cases h
        rfl
      · simp only [scanSigned, h0, h7, if_true, if_false]
    by_cases hb : b.toNat < 128
    · refine .inl ⟨.value (signedGroup b) 1, by simp_all, fun rest => ?_⟩
      simp only [scanSigned, h0, h7, hb, if_true, if_false]
    · refine .inr ⟨scanSigned (bits - 7), fun v => (b.toNat % 128 : Nat) + 128 * v,
        ih (bits - 7) (by omega), fun rest => ?_⟩
      simp only [scanSigned, h0, h7, hb, if_false]

end Leb128

namespace Reader
open Leb128

theorem Stable.ofScan {α : Type} {sign : Bool} {bits : Nat} {scan : List UInt8 → Scan α}
    (h : StableScan scan) : Stable fun c => ofScan sign bits c.offset (scan c.rest) where
  done {c v n} hd := by
    cases hs : scan c.rest with
    | value w m =>
      rw [hs] at hd
      cases hd
      obtain ⟨hn, hmore⟩ := h.value hs
      exact ⟨hn, fun more => by simp only [Cursor.append_rest, hmore more, Reader.ofScan]⟩
    | incomplete => rw [hs] at hd; cases hd
    | overflow => rw [hs] at hd; cases hd
  fail {c e} hf more := by
    cases hs : scan c.rest with
    | value w m => rw [hs] at hf; cases hf
    | incomplete => rw [hs] at hf; cases hf
    | overflow =>
      rw [hs] at hf
      cases hf
      simp only [Cursor.append_rest, h.overflow hs more, Reader.ofScan, Cursor.append_offset]

theorem stable_unsigned (bits : Nat) : Stable (unsigned bits) := .ofScan (stable_scanUnsigned bits)
theorem stable_signed (bits : Nat) : Stable (signed bits) := .ofScan (stable_scanSigned bits)
theorem stable_u32 : Stable u32 := (stable_unsigned 32).bind fun _ => stable_pure _
theorem stable_i32 : Stable i32 := (stable_signed 32).bind fun _ => stable_pure _
theorem stable_i64 : Stable i64 := (stable_signed 64).bind fun _ => stable_pure _

end Reader
open Reader

theorem ValueType.stable_reader : Stable reader := by
  refine stable_offset.bind fun start => stable_byte.bind fun b => ?_
  cases ofByte? b with
  | some t => exact stable_pure t
  | none => exact stable_fail _

theorem ValueType.stable_referenceReader : Stable referenceReader := by
  refine stable_offset.bind fun start => stable_reader.bind fun t => ?_
  split
  · exact stable_pure t
  · exact stable_fail _

theorem ValueType.stable_listReader : Stable listReader :=
  stable_u32.bind fun count => stable_reader.times count.toNat

theorem BlockType.stable_reader : Stable reader := by
  refine stable_offset.bind fun start => stable_peek.bind fun b => ?_
  split
  · exact (stable_skip 1).bind fun _ => stable_pure _
  · cases ValueType.ofByte? b with
    | some t => exact (stable_skip 1).bind fun _ => stable_pure _
    | none =>
      refine (stable_signed 33).bind fun index => ?_
      split
      · exact stable_fail _
      · exact stable_pure _

theorem Limits.stable_reader : Stable reader := by
  refine stable_offset.bind fun start => stable_byte.bind fun flag => stable_u32.bind fun min => ?_
  split
  · exact stable_pure _
  · split
    · exact stable_u32.bind fun max => stable_pure _
    · exact stable_fail _

theorem FuncType.stable_reader : Stable reader := by
  refine stable_offset.bind fun start => stable_byte.bind fun lead => ?_
  split
  · exact ValueType.stable_listReader.bind fun params =>
      ValueType.stable_listReader.bind fun results => stable_pure _
  · exact stable_fail _

theorem TableType.stable_reader : Stable reader :=
  ValueType.stable_referenceReader.bind fun _ => Limits.stable_reader.bind fun _ => stable_pure _

theorem GlobalType.stable_reader : Stable reader := by
  refine ValueType.stable_reader.bind fun type =>
    stable_offset.bind fun start => stable_byte.bind fun flag => ?_
  split
  · exact stable_pure _
  · split
    · exact stable_pure _
    · exact stable_fail _

theorem ImportDesc.stable_reader : Stable reader := by
  refine stable_offset.bind fun start => stable_byte.bind fun b => ?_
  cases ExternalKind.ofByte b start with
  | error e => exact stable_fail _
  | ok kind =>
    cases kind with
    | function => exact stable_u32.bind fun _ => stable_pure _
    | table => exact TableType.stable_reader.bind fun _ => stable_pure _
    | memory => exact Limits.stable_reader.bind fun _ => stable_pure _
    | global => exact GlobalType.stable_reader.bind fun _ => stable_pure _
    | tag => exact stable_byte.bind fun _ => stable_u32.bind fun _ => stable_pure _

theorem Export.stable_targetReader : Stable targetReader := by
  refine stable_offset.bind fun start => stable_byte.bind fun b => ?_
  cases ExternalKind.ofByte b start with
  | error e => exact stable_fail e
  | ok kind => exact stable_u32.bind fun _ => stable_pure _

theorem MemArg.stable_reader : Stable reader :=
  stable_u32.bind fun _ => stable_u32.bind fun _ => stable_pure _

theorem Operator.stable_immediates (op : Operator) : Stable op.immediates := by
  cases op with
  | plain op => exact stable_pure _
  | indexed op => exact stable_u32.bind fun _ => stable_pure _
  | paired op => exact stable_u32.bind fun _ => stable_u32.bind fun _ => stable_pure _
  | load op => exact MemArg.stable_reader.bind fun _ => stable_pure _
  | store op => exact MemArg.stable_reader.bind fun _ => stable_pure _
  | numeric op => exact stable_pure _
  | truncSat op => exact stable_pure _
  | brTable =>
    exact stable_u32.bind fun count => (stable_u32.times count.toNat).bind fun _ =>
      stable_u32.bind fun _ => stable_pure _
  | selectTyped => exact ValueType.stable_listReader.bind fun _ => stable_pure _
  | i32Const => exact stable_i32.bind fun _ => stable_pure _
  | i64Const => exact stable_i64.bind fun _ => stable_pure _
  | f32Const => exact stable_f32Bits.bind fun _ => stable_pure _
  | f64Const => exact stable_f64Bits.bind fun _ => stable_pure _
  | refNull => exact ValueType.stable_referenceReader.bind fun _ => stable_pure _

theorem Opcode.stable_reader (b : UInt8) : Stable (reader b) := by
  unfold reader
  split
  · exact stable_u32.bind fun _ => stable_pure _
  · exact stable_pure _

theorem Operator.stable_reader (b : UInt8) (start : Nat) : Stable (reader b start) := by
  refine (Opcode.stable_reader b).bind fun code => ?_
  cases ofOpcode? code with
  | some op => exact stable_immediates op
  | none => exact stable_fail _

end WasmStream
