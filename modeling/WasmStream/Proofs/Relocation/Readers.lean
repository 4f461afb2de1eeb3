import WasmStream.Proofs.ExpressionScan

/-! Readers at another place. The same bytes are read in the same way wherever they stand; an error
names its place, but it is a parse error everywhere and has the same code. -/
namespace WasmStream

/-- Two parse errors with one code. -/
def Error.Alike (e e' : Error) : Prop :=
  e.category = .parse ∧ e'.category = .parse ∧ e.code = e'.code

namespace Cursor

/-- The same bytes, `k` bytes further back in their module. -/
def moved (k : Nat) (c : Cursor) : Cursor := ⟨c.offset + k, c.rest⟩

@[simp] theorem moved_offset (k : Nat) (c : Cursor) : (c.moved k).offset = c.offset + k := rfl
@[simp] theorem moved_rest (k : Nat) (c : Cursor) : (c.moved k).rest = c.rest := rfl
@[simp] theorem moved_zero (c : Cursor) : c.moved 0 = c := rfl

theorem drop_moved (k n : Nat) (c : Cursor) : (c.moved k).drop n = (c.drop n).moved k := by
  simp only [moved, drop, Nat.add_right_comm]

end Cursor

namespace Outcome
variable {α : Type}

inductive Alike : Outcome α → Outcome α → Prop
  | done (a : α) (n : Nat) : Alike (done a n) (done a n)
  | needMore : Alike needMore needMore
  | fail {e e' : Error} (h : e.Alike e') : Alike (fail e) (fail e')

theorem Alike.after {o o' : Outcome α} (h : o.Alike o') (n : Nat) : (o.after n).Alike (o'.after n) := by
  cases h with
  | done a m => exact .done a (n + m)
  | needMore => exact .needMore
  | fail h => exact .fail h

end Outcome

namespace Reader
variable {α β : Type} {k : Nat} {r r' : Reader α}

/-- What `r` reads somewhere, `r'` reads `k` bytes further back. -/
def Alike (k : Nat) (r r' : Reader α) : Prop := ∀ c : Cursor, (r c).Alike (r' (c.moved k))

theorem alike_pure (a : α) : Alike k (pure a) (pure a) := fun _ => .done a 0

theorem alike_fail {e e' : Error} (h : e.Alike e') : Alike k (fail e : Reader α) (fail e') :=
  fun _ => .fail h

theorem Alike.bind {f f' : α → Reader β} (hr : Alike k r r') (hf : ∀ a, Alike k (f a) (f' a)) :
    Alike k (r >>= f) (r' >>= f') := by
  intro c
  have h := hr c
  rw [bind_run, bind_run]
  generalize r c = o at h ⊢
  generalize r' (c.moved k) = o' at h ⊢
  cases h with
  | done a n =>
    have hrest := hf a (c.drop n)
    rw [← Cursor.drop_moved] at hrest
    exact hrest.after n
  | needMore => exact .needMore
  | fail h => exact .fail h

/-- Only the place itself is another one. -/
theorem alike_offset_bind {f f' : Nat → Reader β}
    (hf : ∀ start, Alike k (f start) (f' (start + k))) :
    Alike k (offset >>= f) (offset >>= f') := by
  intro c
  have h := (hf c.offset c).after 0
  exact h

theorem alike_peek : Alike k peek peek := by
  intro c
  unfold peek
  rw [Cursor.moved_rest]
  cases c.rest with
  | nil => exact .needMore
  | cons b rest => exact .done b 0

theorem alike_byte : Alike k byte byte := by
  intro c
  unfold byte
  rw [Cursor.moved_rest]
  cases c.rest with
  | nil => exact .needMore
  | cons b rest => exact .done b 1

theorem alike_bytes (n : Nat) : Alike k (bytes n) (bytes n) := by
  intro c
  unfold bytes
  rw [Cursor.moved_rest]
  by_cases h : (c.rest.take n).length = n
  · simp only [if_pos h]
    exact .done _ n
  · simp only [if_neg h]
    exact .needMore

theorem alike_skip (n : Nat) : Alike k (skip n) (skip n) :=
  (alike_bytes n).bind fun _ => alike_pure ()

theorem Alike.times (hr : Alike k r r') (n : Nat) : Alike k (times r n) (times r' n) := by
  induction n with
  | zero => exact alike_pure []
  | succ n ih => exact hr.bind fun _ => ih.bind fun _ => alike_pure _

theorem Alike.ite {q q' : Reader α} {b : Prop} [Decidable b] (hr : Alike k r r')
    (hq : Alike k q q') : Alike k (if b then r else q) (if b then r' else q') := by
  by_cases h : b
  · simpa only [if_pos h] using hr
  · simpa only [if_neg h] using hq

theorem alike_ofScan (sign : Bool) (bits : Nat) (scan : List UInt8 → Leb128.Scan α) :
    Alike k (fun c => ofScan sign bits c.offset (scan c.rest))
      (fun c => ofScan sign bits c.offset (scan c.rest)) := by
  intro c
  simp only [Cursor.moved_rest]
  cases scan c.rest with
  | value v n => exact .done v n
  | incomplete => exact .needMore
  | overflow => exact .fail ⟨rfl, rfl, rfl⟩

theorem alike_unsigned (bits : Nat) : Alike k (unsigned bits) (unsigned bits) :=
  alike_ofScan false bits _
theorem alike_signed (bits : Nat) : Alike k (signed bits) (signed bits) := alike_ofScan true bits _
theorem alike_u32 : Alike k u32 u32 := (alike_unsigned 32).bind fun _ => alike_pure _
theorem alike_i32 : Alike k i32 i32 := (alike_signed 32).bind fun _ => alike_pure _
theorem alike_i64 : Alike k i64 i64 := (alike_signed 64).bind fun _ => alike_pure _
theorem alike_f32Bits : Alike k f32Bits f32Bits := (alike_bytes 4).bind fun _ => alike_pure _
theorem alike_f64Bits : Alike k f64Bits f64Bits := (alike_bytes 8).bind fun _ => alike_pure _

end Reader
open Reader

section Types
variable {k : Nat}

theorem ValueType.alike_reader : Alike k reader reader := by
  apply alike_offset_bind
  intro start
  apply alike_byte.bind
  intro b
  cases ofByte? b with
  | some t => exact alike_pure t
  | none => exact alike_fail ⟨rfl, rfl, rfl⟩

theorem ValueType.alike_referenceReader : Alike k referenceReader referenceReader := by
  apply alike_offset_bind
  intro start
  apply ValueType.alike_reader.bind
  intro t
  exact (alike_pure t).ite (alike_fail ⟨rfl, rfl, rfl⟩)

theorem ValueType.alike_listReader : Alike k listReader listReader :=
  alike_u32.bind fun count => ValueType.alike_reader.times count.toNat

theorem BlockType.alike_reader : Alike k reader reader := by
  apply alike_offset_bind
  intro start
  apply alike_peek.bind
  intro b
  apply Alike.ite
  · exact (alike_skip 1).bind fun _ => alike_pure _
  · cases ValueType.ofByte? b with
    | some t => exact (alike_skip 1).bind fun _ => alike_pure _
    | none =>
      apply (alike_signed 33).bind
      intro index
      apply Alike.ite
      · exact alike_fail ⟨rfl, rfl, rfl⟩
      · exact alike_pure _

theorem Limits.alike_reader : Alike k reader reader := by
  apply alike_offset_bind
  intro start
  apply alike_byte.bind
  intro flag
  apply alike_u32.bind
  intro min
  apply (alike_pure _).ite
  exact (alike_u32.bind fun max => alike_pure _).ite (alike_fail ⟨rfl, rfl, rfl⟩)

theorem FuncType.alike_reader : Alike k reader reader := by
  apply alike_offset_bind
  intro start
  apply alike_byte.bind
  intro lead
  apply Alike.ite
  · exact ValueType.alike_listReader.bind fun params =>
      ValueType.alike_listReader.bind fun results => alike_pure _
  · exact alike_fail ⟨rfl, rfl, rfl⟩

theorem TableType.alike_reader : Alike k reader reader :=
  ValueType.alike_referenceReader.bind fun _ => Limits.alike_reader.bind fun _ => alike_pure _

theorem GlobalType.alike_reader : Alike k reader reader := by
  apply ValueType.alike_reader.bind
  intro type
  apply alike_offset_bind
  intro start
  apply alike_byte.bind
  intro flag
  exact (alike_pure _).ite ((alike_pure _).ite (alike_fail ⟨rfl, rfl, rfl⟩))

/-- Whether a byte is the kind of something external does not hang on where it stands. -/
theorem ExternalKind.ofByte_cases (b : UInt8) (start start' : Nat) :
    (∃ kind, ofByte b start = .ok kind ∧ ofByte b start' = .ok kind) ∨
      ∃ e e', ofByte b start = .error e ∧ ofByte b start' = .error e' ∧ e.Alike e' := by
  unfold ofByte
  cases all[b.toNat]? with
  | some kind => exact .inl ⟨kind, rfl, rfl⟩
  | none => exact .inr ⟨_, _, rfl, rfl, rfl, rfl, rfl⟩

theorem ImportDesc.alike_reader : Alike k reader reader := by
  apply alike_offset_bind
  intro start
  apply alike_byte.bind
  intro b
  obtain ⟨kind, h, h'⟩ | ⟨e, e', h, h', -⟩ := ExternalKind.ofByte_cases b start (start + k)
  · rw [h, h']
    cases kind with
    | function => exact alike_u32.bind fun _ => alike_pure _
    | table => exact TableType.alike_reader.bind fun _ => alike_pure _
    | memory => exact Limits.alike_reader.bind fun _ => alike_pure _
    | global => exact GlobalType.alike_reader.bind fun _ => alike_pure _
    | tag => exact alike_byte.bind fun _ => alike_u32.bind fun _ => alike_pure _
  · rw [h, h']
    exact alike_fail ⟨rfl, rfl, rfl⟩

theorem Export.alike_targetReader : Alike k targetReader targetReader := by
  apply alike_offset_bind
  intro start
  apply alike_byte.bind
  intro b
  obtain ⟨kind, h, h'⟩ | ⟨e, e', h, h', halike⟩ := ExternalKind.ofByte_cases b start (start + k)
  · rw [h, h']
    exact alike_u32.bind fun _ => alike_pure _
  · rw [h, h']
    exact alike_fail halike

theorem MemArg.alike_reader : Alike k reader reader :=
  alike_u32.bind fun _ => alike_u32.bind fun _ => alike_pure _

end Types

section Instructions
variable {k : Nat}

theorem Operator.alike_immediates (op : Operator) : Alike k op.immediates op.immediates := by
  cases op with
  | plain op => exact alike_pure _
  | indexed op => exact alike_u32.bind fun _ => alike_pure _
  | paired op => exact alike_u32.bind fun _ => alike_u32.bind fun _ => alike_pure _
  | load op => exact MemArg.alike_reader.bind fun _ => alike_pure _
  | store op => exact MemArg.alike_reader.bind fun _ => alike_pure _
  | numeric op => exact alike_pure _
  | truncSat op => exact alike_pure _
  | brTable =>
    exact alike_u32.bind fun count => (alike_u32.times count.toNat).bind fun _ =>
      alike_u32.bind fun _ => alike_pure _
  | selectTyped => exact ValueType.alike_listReader.bind fun _ => alike_pure _
  | i32Const => exact alike_i32.bind fun _ => alike_pure _
  | i64Const => exact alike_i64.bind fun _ => alike_pure _
  | f32Const => exact alike_f32Bits.bind fun _ => alike_pure _
  | f64Const => exact alike_f64Bits.bind fun _ => alike_pure _
  | refNull => exact ValueType.alike_referenceReader.bind fun _ => alike_pure _

theorem Opcode.alike_reader (b : UInt8) : Alike k (reader b) (reader b) :=
  (alike_u32.bind fun _ => alike_pure _).ite (alike_pure _)

theorem Opcode.alike_unknown (code : Opcode) (start start' : Nat) :
    (code.unknown start).Alike (code.unknown start') := by
  cases code <;> exact ⟨rfl, rfl, rfl⟩

theorem Operator.alike_reader (b : UInt8) (start start' : Nat) :
    Alike k (reader b start) (reader b start') := by
  apply (Opcode.alike_reader b).bind
  intro code
  cases ofOpcode? code with
  | some op => exact alike_immediates op
  | none => exact alike_fail (code.alike_unknown start start')

/-- A scan goes the same steps over the same bytes. -/
theorem Instruction.alike_scan (limits : DecoderLimits) (opened : List OpenBlock)
    (body : List Instruction) (elseSeen : Bool) (used : Nat) (c : Cursor) :
    (scan limits opened body elseSeen used c).Alike
      (scan limits opened body elseSeen used (c.moved k)) := by
  cases hc : c.rest with
  | nil =>
    have hnil (c' : Cursor) (h : c'.rest = []) :
        scan limits opened body elseSeen used c' = .needMore := by
      rw [scan.eq_def]
      split <;> simp_all
    rw [hnil c hc, hnil (c.moved k) hc]
    exact .needMore
  | cons b rest =>
    have hlt (n : Nat) : (c.drop (1 + n)).rest.length < c.rest.length := Cursor.length_drop_lt hc n
    rw [scan_cons limits opened body elseSeen used hc,
      scan_cons limits opened body elseSeen used (c := c.moved k) hc]
    simp only [Cursor.drop_moved, Cursor.moved_offset]
    by_cases hend : b = endByte
    · simp only [if_pos hend]
      cases opened with
      | nil => exact .done _ _
      | cons inner outer => exact alike_scan limits outer _ _ _ (c.drop 1)
    simp only [if_neg hend]
    by_cases helse : b = elseByte
    · simp only [if_pos helse]
      by_cases htakes : (takesElse opened && !elseSeen) = true
      · simp only [if_pos htakes]
        exact alike_scan limits opened _ _ _ (c.drop 1)
      · simp only [if_neg htakes]
        exact .fail ⟨rfl, rfl, rfl⟩
    simp only [if_neg helse]
    cases BlockKind.ofByte? b with
    | some kind =>
      by_cases hdepth : opened.length < limits.maxBlockDepth.toNat
      · simp only [if_pos hdepth]
        have htype := BlockType.alike_reader (k := k) (c.drop 1)
        generalize BlockType.reader (c.drop 1) = o at htype ⊢
        generalize BlockType.reader ((c.drop 1).moved k) = o' at htype ⊢
        cases htype with
        | done type n => exact alike_scan limits _ _ _ _ (c.drop (1 + n))
        | needMore => exact .needMore
        | fail h => exact .fail h
      · simp only [if_neg hdepth]
        exact .fail ⟨rfl, rfl, rfl⟩
    | none =>
      have hop := Operator.alike_reader (k := k) b c.offset (c.offset + k) (c.drop 1)
      generalize Operator.reader b c.offset (c.drop 1) = o at hop ⊢
      generalize Operator.reader b (c.offset + k) ((c.drop 1).moved k) = o' at hop ⊢
      cases hop with
      | done instruction n => exact alike_scan limits _ _ _ _ (c.drop (1 + n))
      | needMore => exact .needMore
      | fail h => exact .fail h
termination_by c.rest.length
decreasing_by
  · exact hlt 0
  · exact hlt 0
  · exact hlt _
  · exact hlt _

theorem Expression.alike_reader (limits : DecoderLimits) :
    Alike k (reader limits) (reader limits) :=
  Instruction.alike_scan limits [] [] false 0

end Instructions
end WasmStream
