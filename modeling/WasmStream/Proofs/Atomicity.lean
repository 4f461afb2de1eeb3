import WasmStream.Proofs.Script

/-! Reads that leave no trace when they do not succeed. A decoder of several fields is an attempt at
the reads of its fields: if one of them comes to nothing the source stands where it stood, however many
had succeeded before. A decoder of one field takes nothing until it has judged what it has seen. -/
namespace WasmStream

/-- The fields of limits, as reads of a lookahead. -/
def Limits.script : Script Limits := do
  let start ← Script.offset
  let flag ← Script.get .byte
  let min ← Script.get .u32
  if flag = 0 then return ⟨min, none⟩
  else if flag = 1 then return ⟨min, some (← Script.get .u32)⟩
  else Script.fail (.unexpectedElement "limits flag" start)

def ValueType.listScript : Script (List ValueType) := do
  Script.times (Script.get .valueType) (← Script.get .u32).toNat

def FuncType.script : Script FuncType := do
  let start ← Script.offset
  let lead ← Script.get .byte
  if lead = form then
    let params ← ValueType.listScript
    let results ← ValueType.listScript
    return ⟨params, results⟩
  else Script.fail (.unexpectedElement "function type form" start)

def ValueType.referenceScript : Script ValueType := do
  let start ← Script.offset
  let t ← Script.get .valueType
  if t.isReference then return t else Script.fail (.invalidValueType t.toByte start)

def TableType.script : Script TableType := do
  let element ← ValueType.referenceScript
  let limits ← Script.get .limits
  return ⟨element, limits⟩

def GlobalType.script : Script GlobalType := do
  let type ← Script.get .valueType
  let start ← Script.offset
  let flag ← Script.get .byte
  if flag = 0 then return ⟨type, false⟩
  else if flag = 1 then return ⟨type, true⟩
  else Script.fail (.unexpectedElement "mutability flag" start)

def MemArg.script : Script MemArg := do
  let align ← Script.get .u32
  let offset ← Script.get .u32
  return ⟨align, offset⟩

def Opcode.script (b : UInt8) : Script Opcode := do
  if b = lead then return extended (← Script.get .u32) else return short b

/-- The immediates of an operator, one read after another. -/
def Operator.immediatesScript : Operator → Script Instruction
  | plain op => return .plain op
  | indexed op => do return .indexed op (← Script.get .u32)
  | paired op => do
    let first ← Script.get .u32
    let second ← Script.get .u32
    return .paired op first second
  | load op => do return .load op (← MemArg.script)
  | store op => do return .store op (← MemArg.script)
  | numeric op => return .numeric op
  | truncSat op => return .truncSat op
  | brTable => do
    let count ← Script.get .u32
    let targets ← Script.times (Script.get .u32) count.toNat
    return .brTable targets (← Script.get .u32)
  | selectTyped => do return .selectTyped (← ValueType.listScript)
  | i32Const => do return .i32Const (← Script.get .i32)
  | i64Const => do return .i64Const (← Script.get .i64)
  | f32Const => do return .f32Const (← Script.get .f32Bits)
  | f64Const => do return .f64Const (← Script.get .f64Bits)
  | refNull => do return .refNull (← ValueType.referenceScript)

def Operator.script (b : UInt8) (start : Nat) : Script Instruction := do
  let code ← Opcode.script b
  match ofOpcode? code with
  | some op => op.immediatesScript
  | none => Script.fail (code.unknown start)

/-- The sequence inside `opened`, one instruction after another. Each has at least one byte, so that
`fuel` lasts if there are fewer bytes. -/
def Instruction.script (limits : DecoderLimits) : (fuel : Nat) → (opened : List OpenBlock) →
    (body : List Instruction) → (elseSeen : Bool) → Script Expression
  | 0, _, _, _ => .stop
  | fuel + 1, opened, body, elseSeen => do
    let start ← Script.offset
    let b ← Script.get .byte
    if b = endByte then
      match opened with
      | [] => return body.reverse
      | inner :: outer =>
        script limits fuel outer (.block inner.kind inner.type body.reverse :: inner.before)
          inner.elseSeen
    else if b = elseByte then
      if takesElse opened && !elseSeen then script limits fuel opened (.elseMark :: body) true
      else Script.fail (.unexpectedElement "else" start)
    else match BlockKind.ofByte? b with
      | some kind =>
        if opened.length < limits.maxBlockDepth.toNat then
          let type ← Script.get .blockType
          script limits fuel (⟨kind, type, body, elseSeen⟩ :: opened) [] false
        else Script.fail (.limitExceeded "block nesting" limits.maxBlockDepth.toNat start)
      | none =>
        let instruction ← Operator.script b start
        script limits fuel opened (instruction :: body) elseSeen

def Expression.script (limits : DecoderLimits) : Script Expression := .look fun c =>
  Instruction.script limits (c.rest.length + 1) [] [] false

/-- One byte, left where it is if it is no type. -/
def ValueType.script : Script ValueType := .look fun c =>
  match c.rest with
  | [] => .stop
  | b :: _ =>
    match ofByte b c.offset with
    | .ok t => .read (.skip 1) fun _ => .done t
    | .error error => .fail error

/-- The index is scanned in the bytes ahead and judged before it is taken. -/
def BlockType.script : Script BlockType := .look fun c =>
  match c.rest with
  | [] => .stop
  | b :: _ =>
    if b = emptyByte then .read (.skip 1) fun _ => .done empty
    else match ValueType.ofByte? b with
      | some t => .read (.skip 1) fun _ => .done (value t)
      | none =>
        match Leb128.scanSigned 33 c.rest with
        | .incomplete => .stop
        | .overflow => .fail (.integerTooLarge true 33 c.offset)
        | .value index length =>
          if index < 0 then .fail (.invalidBlockType b c.offset)
          else .read (.skip length) fun _ => .done (typeIndex (UInt32.ofNat index.toNat))

section
open Script
variable {σ : Type} [Source σ]

theorem Limits.reader_script : script.reader = reader := by
  simp only [script, reader, reader_bind, reader_offset, reader_get, apply_ite Script.reader,
    reader_pure, reader_fail, Read.reader]

theorem ValueType.reader_listScript : listScript.reader = listReader := by
  simp only [listScript, listReader, reader_bind, reader_get, reader_times, Read.reader]

theorem FuncType.reader_script : script.reader = reader := by
  simp only [script, reader, reader_bind, reader_offset, reader_get, apply_ite Script.reader,
    reader_pure, reader_fail, ValueType.reader_listScript, Read.reader]

theorem ValueType.reader_referenceScript : referenceScript.reader = referenceReader := by
  simp only [referenceScript, referenceReader, reader_bind, reader_offset, reader_get,
    apply_ite Script.reader, reader_pure, reader_fail, Read.reader]

theorem TableType.reader_script : script.reader = reader := by
  simp only [script, reader, reader_bind, reader_get, reader_pure,
    ValueType.reader_referenceScript, Read.reader]

theorem GlobalType.reader_script : script.reader = reader := by
  simp only [script, reader, reader_bind, reader_offset, reader_get, apply_ite Script.reader,
    reader_pure, reader_fail, Read.reader]

theorem MemArg.reader_script : script.reader = reader := by
  simp only [script, reader, reader_bind, reader_get, reader_pure, Read.reader]

theorem Opcode.reader_script (b : UInt8) : (script b).reader = reader b := by
  simp only [script, reader, apply_ite Script.reader, reader_bind, reader_get, reader_pure, Read.reader]

theorem Operator.reader_immediatesScript (op : Operator) :
    op.immediatesScript.reader = op.immediates := by
  cases op <;>
    simp only [immediatesScript, immediates, reader_bind, reader_get, reader_times, reader_pure,
      MemArg.reader_script, ValueType.reader_listScript, ValueType.reader_referenceScript, Read.reader]

theorem Operator.reader_script (b : UInt8) (start : Nat) :
    (script b start).reader = reader b start := by
  simp only [script, reader, reader_bind, Opcode.reader_script]
  refine congrArg _ (funext fun code => ?_)
  cases ofOpcode? code with
  | some op => exact reader_immediatesScript op
  | none => exact reader_fail _

theorem Reader.offset_byte_bind {α : Type} {c : Cursor} {b : UInt8} {rest : List UInt8}
    (hc : c.rest = b :: rest) (f : Nat → UInt8 → Reader α) :
    (Reader.offset >>= fun start => Reader.byte >>= f start) c =
      (f c.offset b (c.drop 1)).after 1 := by
  simp only [Reader.bind_run, Reader.offset, Cursor.drop_zero, Reader.byte, hc, Outcome.after_after]

theorem Reader.offset_byte_bind_nil {α : Type} {c : Cursor} (hc : c.rest = [])
    (f : Nat → UInt8 → Reader α) :
    (Reader.offset >>= fun start => Reader.byte >>= f start) c = .needMore := by
  simp only [Reader.bind_run, Reader.offset, Cursor.drop_zero, Reader.byte, hc, Outcome.after]

/-- A sequence behind a part of it. -/
theorem Reader.after_bind {α β : Type} (r : Reader α) (f : α → Reader β) (c : Cursor) (used : Nat) :
    ((r >>= f) c).after used = match r c with
      | .done a n => (f a (c.drop n)).after (used + n)
      | .needMore => .needMore
      | .fail e => .fail e := by
  rw [bind_run]
  cases r c <;> simp only [Outcome.after_after] <;> rfl

/-- With enough fuel the reads of a sequence come to what its scan comes to. -/
theorem Instruction.reader_script (limits : DecoderLimits) (fuel : Nat) (opened : List OpenBlock)
    (body : List Instruction) (elseSeen : Bool) (used : Nat) (c : Cursor)
    (hfuel : c.rest.length < fuel) :
    ((script limits fuel opened body elseSeen).reader c).after used =
      scan limits opened body elseSeen used c := by
  induction fuel generalizing opened body elseSeen used c with
  | zero => omega
  | succ fuel ih =>
    unfold script
    simp only [reader_bind, reader_offset, reader_get, Read.reader]
    cases hc : c.rest with
    | nil =>
      rw [Reader.offset_byte_bind_nil hc, scan_nil _ _ _ _ _ hc, Outcome.after]
    | cons b rest =>
      have hshort (n : Nat) : (c.drop (1 + n)).rest.length < fuel := by
        have hlt := Cursor.length_drop_lt hc n
        omega
      rw [Reader.offset_byte_bind hc, scan_cons _ _ _ _ _ hc, Outcome.after_after]
      by_cases hend : b = endByte
      · simp only [if_pos hend]
        cases opened with
        | nil => rfl
        | cons inner outer => exact ih _ _ _ _ _ (hshort 0)
      · by_cases helse : b = elseByte
        · simp only [if_neg hend, if_pos helse]
          by_cases htakes : (takesElse opened && !elseSeen) = true
          · simp only [if_pos htakes]
            exact ih _ _ _ _ _ (hshort 0)
          · simp only [if_neg htakes]
            rfl
        · simp only [if_neg hend, if_neg helse]
          cases hkind : BlockKind.ofByte? b with
          | some kind =>
            by_cases hdepth : opened.length < limits.maxBlockDepth.toNat
            · simp only [if_pos hdepth, reader_bind, reader_get, Read.reader, Reader.after_bind]
              cases BlockType.reader (c.drop 1) with
              | done type n =>
                simp only [Cursor.drop_drop, Nat.add_assoc]
                exact ih _ _ _ _ _ (hshort n)
              | needMore => rfl
              | fail e => rfl
            · simp only [if_neg hdepth]
              rfl
          | none =>
            simp only [reader_bind, Operator.reader_script, Reader.after_bind]
            cases Operator.reader b c.offset (c.drop 1) with
            | done instruction n =>
              simp only [Cursor.drop_drop, Nat.add_assoc]
              exact ih _ _ _ _ _ (hshort n)
            | needMore => rfl
            | fail e => rfl

theorem Expression.reader_script (limits : DecoderLimits) : (script limits).reader = reader limits := by
  funext c
  have hscan := Instruction.reader_script limits (c.rest.length + 1) [] [] false 0 c
    (Nat.lt_succ_self c.rest.length)
  rw [Outcome.after_zero] at hscan
  rw [script, reader_look]
  exact hscan

theorem ValueType.script_eq : script = peek reader := by
  refine congrArg look (funext fun c => ?_)
  cases hc : c.rest with
  | nil =>
    simp only [reader, Reader.bind_run, Reader.offset, Cursor.drop_zero, Reader.byte, hc, Outcome.after]
  | cons b rest =>
    cases ht : ofByte? b <;>
      simp only [reader, Reader.bind_run, Reader.offset, Cursor.drop_zero, Reader.byte, hc, ofByte, ht,
        Reader.pure_run, Reader.fail, Outcome.after]

theorem BlockType.script_eq : script = peek reader := by
  refine congrArg look (funext fun c => ?_)
  cases hc : c.rest with
  | nil =>
    simp only [reader, Reader.bind_run, Reader.offset, Cursor.drop_zero, Reader.peek, hc, Outcome.after]
  | cons b rest =>
    have hskip : Reader.skip 1 c = .done () 1 := by
      have hone : (List.take 1 (b :: rest)).length = 1 := rfl
      simp only [Reader.skip, Reader.bind_run, Reader.bytes, hc, if_pos hone, Reader.pure_run,
        Outcome.after, Nat.add_zero]
    by_cases hb : b = emptyByte
    · simp only [reader, Reader.bind_run, Reader.offset, Cursor.drop_zero, Reader.peek, hc, if_pos hb,
        hskip, Reader.pure_run, Outcome.after, Nat.add_zero, Nat.zero_add]
    · cases ht : ValueType.ofByte? b with
      | some t =>
        simp only [reader, Reader.bind_run, Reader.offset, Cursor.drop_zero, Reader.peek, hc, if_neg hb,
          ht, hskip, Reader.pure_run, Outcome.after, Nat.add_zero, Nat.zero_add]
      | none =>
        cases hscan : Leb128.scanSigned 33 (b :: rest) with
        | incomplete =>
          simp only [reader, Reader.bind_run, Reader.offset, Cursor.drop_zero, Reader.peek, hc, if_neg hb,
            ht, Reader.signed, hscan, Reader.ofScan, Outcome.after]
        | overflow =>
          simp only [reader, Reader.bind_run, Reader.offset, Cursor.drop_zero, Reader.peek, hc, if_neg hb,
            ht, Reader.signed, hscan, Reader.ofScan, Outcome.after]
        | value index length =>
          by_cases hindex : index < 0
          · simp only [reader, Reader.bind_run, Reader.offset, Cursor.drop_zero, Reader.peek, hc,
              if_neg hb, ht, Reader.signed, hscan, Reader.ofScan, Outcome.after, if_pos hindex,
              Reader.fail]
          · simp only [reader, Reader.bind_run, Reader.offset, Cursor.drop_zero, Reader.peek, hc,
              if_neg hb, ht, Reader.signed, hscan, Reader.ofScan, Outcome.after, if_neg hindex,
              Reader.pure_run, Nat.add_zero, Nat.zero_add]

end

/-- The reads that a decoder of several fields attempts. -/
def Read.fields? {α : Type} : Read α → Option (Script α)
  | limits => some Limits.script
  | funcType => some FuncType.script
  | tableType => some TableType.script
  | globalType => some GlobalType.script
  | expression bounds => some (Expression.script bounds)
  | _ => none

/-- The program of a decoder that attempts nothing, since it takes nothing before it has judged. -/
def Read.judged? {α : Type} : Read α → Option (Script α)
  | valueType => some ValueType.script
  | blockType => some BlockType.script
  | _ => none

namespace Source
variable {σ : Type} [Source σ]

/-- A read of `s` has left the source as it was, or has taken some bytes from the front and succeeded. -/
structure AllOrNothing {α : Type} (s : σ) (outcome : Except Error (Option α) × σ) : Prop where
  waiting : outcome.1 = .ok none → outcome.2 = s
  failed : ∀ e, outcome.1 = .error e → outcome.2 = s
  taken : ∀ a, outcome.1 = .ok (some a) → ∃ k, k ≤ available s ∧
    offset outcome.2 = offset s + k ∧ peek outcome.2 = (peek s).drop k

/-- Every read of `s` is made as a whole or not at all. An attempt answers what its reads answer when
they are made directly, with the same offsets in its errors, and takes what they take if they succeed. -/
structure Atomic (s : σ) : Prop where
  read : ∀ {α : Type} (r : Read α), AllOrNothing s (read r.reader s)
  skip : ∀ n, (Source.read (Reader.skip? n) s).1 = .ok (some false) →
    (Source.read (Reader.skip? n) s).2 = s
  attempt : ∀ {α : Type} (script : Script α), AllOrNothing s (attempt script s)
  answer : ∀ {α : Type} (script : Script α), (Source.attempt script s).1 = (script.run s).1
  direct : ∀ {α : Type} (script : Script α) (a : α), (script.run s).1 = .ok (some a) →
    Source.attempt script s = script.run s
  fields : ∀ {α : Type} (r : Read α) (script : Script α), r.fields? = some script →
    Source.read r.reader s = Source.attempt script s
  judged : ∀ {α : Type} (r : Read α) (script : Script α), r.judged? = some script →
    Source.read r.reader s = script.run s

theorem read_of_fields {α : Type} {r : Read α} {script : Script α} (h : r.fields? = some script)
    (s : σ) : read r.reader s = attempt script s := by
  suffices hreader : script.reader = r.reader by rw [attempt, hreader]
  cases r with
  | limits => cases h; exact Limits.reader_script
  | funcType => cases h; exact FuncType.reader_script
  | tableType => cases h; exact TableType.reader_script
  | globalType => cases h; exact GlobalType.reader_script
  | expression bounds => cases h; exact Expression.reader_script bounds
  | _ => cases h

theorem read_of_judged {α : Type} {r : Read α} {script : Script α} (h : r.judged? = some script)
    (s : σ) : read r.reader s = script.run s := by
  suffices hpeek : script = .peek r.reader by rw [hpeek, Script.run_peek r.confined_reader]
  cases r with
  | valueType => cases h; exact ValueType.script_eq
  | blockType => cases h; exact BlockType.script_eq
  | _ => cases h

variable [PlainSource σ]

theorem allOrNothing_read {α : Type} {r : Reader α} (hr : Reader.Confined r) (s : σ) :
    AllOrNothing s (read r s) := by
  cases h : r (ahead s) with
  | done a n =>
    rw [read_of_done h]
    refine ⟨fun hwaiting => ?_, fun _ hfailed => ?_, fun _ _ => ⟨n, hr _ _ _ h, ?_, ?_⟩⟩
    · cases hwaiting
    · cases hfailed
    · rw [offset, LawfulSource.ahead_consume]
      rfl
    · rw [peek, LawfulSource.ahead_consume]
      rfl
  | needMore =>
    rw [read_of_needMore h]
    refine ⟨fun _ => rfl, fun _ _ => rfl, fun _ htaken => ?_⟩
    cases htaken
  | fail e =>
    rw [read_of_fail h]
    refine ⟨fun _ => rfl, fun _ _ => rfl, fun _ htaken => ?_⟩
    cases htaken

/-- There is one way in which `skip` gives `false`, and it uses no byte. -/
theorem read_skip_of_false {n : Nat} {s : σ} (h : (read (Reader.skip? n) s).1 = .ok (some false)) :
    (read (Reader.skip? n) s).2 = s := by
  cases hskip : Reader.skip n (ahead s) with
  | done a k =>
    have hdone : Reader.skip? n (ahead s) = .done true k := by rw [Reader.skip?, hskip]
    rw [read_of_done hdone] at h
    cases h
  | needMore =>
    have hdone : Reader.skip? n (ahead s) = .done false 0 := by rw [Reader.skip?, hskip]
    rw [read_of_done hdone, PlainSource.consume_zero]
  | fail e =>
    have hfail : Reader.skip? n (ahead s) = .fail e := by rw [Reader.skip?, hskip]
    rw [read_of_fail hfail]

theorem atomic_of_plain (s : σ) : Atomic s where
  read r := allOrNothing_read r.confined_reader s
  skip _ := read_skip_of_false
  attempt script := allOrNothing_read script.confined_reader s
  answer script := by
    rw [attempt_eq]
    split <;> next h => rw [h]
  direct script a h := by
    rw [attempt_eq]
    split
    · next heq => rw [heq]
    · next hne heq =>
      rw [heq] at h
      exact (hne a h).elim
  fields _ _ h := read_of_fields h s
  judged _ _ h := read_of_judged h s

/-- Neither a buffer nor a stream of chunks loses a byte to a read that does not succeed. -/
theorem atomic : (∀ s : Slice, Atomic s) ∧ ∀ s : ChunkStream, Atomic s :=
  ⟨atomic_of_plain, atomic_of_plain⟩

end Source
end WasmStream
