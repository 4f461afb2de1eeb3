import WasmStream.Proofs.Grammar.Leb128

/-! The written forms of types. A block type shares its first byte with value types and the empty
signature, yet no byte string is a form of two block types. -/
namespace WasmStream
open Reader Grammar Leb128

namespace Reader
variable {α : Type} {r q : Reader α} {G H : Grammar α}

theorem Reads.ite {p : Prop} [Decidable p] (hr : Reads r G) (hq : Reads q H) :
    Reads (if p then r else q) fun a w => (p ∧ G a w) ∨ (¬p ∧ H a w) := by
  split
  · next hp => exact hr.of_iff fun a w => by simp [hp]
  · next hp => exact hq.of_iff fun a w => by simp [hp]

theorem offset_bind (f : Nat → Reader α) (c : Cursor) : (Reader.offset >>= f) c = f c.offset c := by
  rw [bind_run]
  simp only [Reader.offset, Cursor.drop_zero]
  cases f c.offset c <;> simp [Outcome.after]

theorem peek_bind {f : UInt8 → Reader α} {c : Cursor} {b : UInt8} {rest : List UInt8}
    (hc : c.rest = b :: rest) : (peek >>= f) c = f b c := by
  rw [bind_run]
  simp only [peek, hc, Cursor.drop_zero]
  cases f b c <;> simp [Outcome.after]

theorem skip_one_bind {f : Reader α} {c : Cursor} {b : UInt8} {rest : List UInt8}
    (hc : c.rest = b :: rest) : (skip 1 >>= fun _ => f) c = (f (c.drop 1)).after 1 := by
  rw [bind_run]
  have hskip : skip 1 c = .done () 1 := by
    simp [skip, bind_run, bytes, hc, pure_run, Outcome.after]
  rw [hskip]

end Reader

namespace ValueType

def Form : Grammar ValueType := fun t w => w = [t.toByte]

theorem reads_reader : Reads reader Form := by
  refine Reads.offset fun start => ?_
  refine (reads_byte.bind (K := fun b t w => ofByte? b = some t ∧ w = []) fun b => ?_).of_iff
    fun t w => ?_
  · cases hb : ofByte? b with
    | some t => exact (reads_pure t).of_iff fun t' w => by simp [eq_comm]
    | none => exact (reads_fail _).of_iff fun t w => by simp
  · constructor
    · rintro ⟨b, u, v, rfl, ⟨hb, rfl⟩, rfl⟩
      rw [Form, toByte_of_ofByte? hb]
      rfl
    · rintro rfl
      exact ⟨t.toByte, _, [], rfl, ⟨ofByte?_toByte t, rfl⟩, rfl⟩

/-- The form of a type that is a reference. -/
def ReferenceForm : Grammar ValueType := fun t w => Form t w ∧ t.isReference = true

theorem reads_referenceReader : Reads referenceReader ReferenceForm := by
  refine Reads.offset fun start => ?_
  refine (reads_reader.bind fun t => (reads_pure t).ite (p := t.isReference = true)
    (reads_fail (.invalidValueType t.toByte start))).of_iff fun t w => ?_
  constructor
  · rintro ⟨t', u, v, ht, ⟨href, rfl, rfl⟩ | ⟨-, hfalse⟩, rfl⟩
    · rw [List.append_nil]
      exact ⟨ht, href⟩
    · exact hfalse.elim
  · rintro ⟨ht, href⟩
    exact ⟨t, w, [], ht, .inl ⟨href, rfl, rfl⟩, (List.append_nil w).symm⟩

theorem reads_listReader : Reads listReader (Counted Form) := reads_counted reads_reader

/-- The bytes of value types are negative as signed numbers of one byte. -/
theorem toNat_of_ofByte? {b : UInt8} {t : ValueType} (h : ofByte? b = some t) :
    64 ≤ b.toNat ∧ b.toNat < 128 := by
  rw [← toByte_of_ofByte? h]
  cases t <;> decide

end ValueType

namespace BlockType

inductive Form : Grammar BlockType
  | empty : Form .empty [emptyByte]
  | value (t : ValueType) : Form (.value t) [t.toByte]
  | typeIndex {index : UInt32} {w : List UInt8} : Signed 33 index.toNat w → Form (.typeIndex index) w

/-- The shortest form. -/
def encode : BlockType → List UInt8
  | .empty => [emptyByte]
  | .value t => [t.toByte]
  | .typeIndex index => ofInt index.toNat

/-- A number that is not negative begins with no byte of a value type, nor with the one of the empty
signature. -/
theorem first_of_signed {bits v : Nat} {w : List UInt8} (h : Signed bits v w) :
    ∃ b rest, w = b :: rest ∧ b ≠ emptyByte ∧ ValueType.ofByte? b = none := by
  suffices hb : ∃ b rest, w = b :: rest ∧ (b.toNat < 64 ∨ 128 ≤ b.toNat) by
    obtain ⟨b, rest, rfl, hb⟩ := hb
    refine ⟨b, rest, rfl, ?_, ?_⟩
    · rintro rfl
      exact absurd hb (by decide)
    · apply Option.eq_none_iff_forall_ne_some.mpr
      intro t ht
      have := ValueType.toNat_of_ofByte? ht
      omega
  generalize hi : (v : Int) = i at h
  cases h with
  | @last _ b hbits hb hle hlt =>
    refine ⟨b, [], rfl, .inl ?_⟩
    unfold signedGroup at hi
    split at hi <;> omega
  | @more _ v' b w' hbits hb hrest => exact ⟨b, w', rfl, .inr hb⟩

theorem reader_cons (offset : Nat) (b : UInt8) (rest : List UInt8) :
    reader ⟨offset, b :: rest⟩ =
      if b = emptyByte then .done .empty 1
      else match ValueType.ofByte? b with
        | some t => .done (.value t) 1
        | none => match Reader.signed 33 ⟨offset, b :: rest⟩ with
          | .done index n =>
            if index < 0 then .fail (.invalidBlockType b offset)
            else .done (.typeIndex (UInt32.ofNat index.toNat)) n
          | .needMore => .needMore
          | .fail error => .fail error := by
  unfold reader
  rw [offset_bind, peek_bind rfl]
  split
  · rw [skip_one_bind rfl]
    rfl
  · cases ValueType.ofByte? b with
    | some t =>
      simp only
      rw [skip_one_bind rfl]
      rfl
    | none =>
      simp only [bind_run]
      cases Reader.signed 33 ⟨offset, b :: rest⟩ with
      | done index n =>
        simp only
        split <;> rfl
      | needMore => rfl
      | fail error => rfl

theorem reads_reader : Reads reader Form := by
  refine reads_of (fun {c type n} h => ?_) fun {type w} h offset rest => ?_
  · obtain ⟨offset, bytes⟩ := c
    cases bytes with
    | nil => cases h
    | cons b rest =>
      rw [reader_cons] at h
      split at h
      · next hb =>
        cases h
        exact ⟨by simp, by rw [hb]; exact .empty⟩
      · split at h
        · next t ht =>
          cases h
          refine ⟨by simp, ?_⟩
          rw [← ValueType.toByte_of_ofByte? ht]
          exact .value t
        · split at h
          · next index k hs =>
            split at h
            · cases h
            · next hindex =>
              cases h
              obtain ⟨hn, hform⟩ := (reads_signed 33 _ _ _).mp hs
              have hrange := hform.range
              have hnat : ((UInt32.ofNat index.toNat).toNat : Int) = index := by
                rw [UInt32.toNat_ofNat_of_lt' (by simp [UInt32.size]; omega)]
                omega
              exact ⟨hn, .typeIndex (by rwa [hnat])⟩
          · cases h
          · cases h
  · cases h with
    | empty => rfl
    | value t =>
      rw [List.singleton_append, reader_cons]
      cases t <;> rfl
    | @typeIndex index w hs =>
      have hscan : Reader.signed 33 ⟨offset, w ++ rest⟩ = .done index.toNat w.length :=
        (reads_signed 33).complete hs offset
      obtain ⟨b, w', rfl, hempty, hvalue⟩ := first_of_signed hs
      rw [List.cons_append] at hscan ⊢
      rw [reader_cons, if_neg hempty, hvalue, hscan]
      simp only [Int.toNat_natCast, UInt32.ofNat_toNat]
      rw [if_neg (by omega)]

theorem form_encode (type : BlockType) : Form type type.encode := by
  cases type with
  | empty => exact .empty
  | value t => exact .value t
  | typeIndex index =>
    have hindex := index.toNat_lt
    exact .typeIndex (signed_ofInt (by decide) (by omega) (by omega))

end BlockType

inductive Limits.Form : Grammar Limits
  | unbounded {min : UInt32} {u : List UInt8} : U32 min u → Form ⟨min, none⟩ (0 :: u)
  | bounded {min max : UInt32} {u v : List UInt8} : U32 min u → U32 max v →
      Form ⟨min, some max⟩ (1 :: (u ++ v))

theorem Limits.reads_reader : Reads reader Form := by
  refine Reads.offset fun start => ?_
  refine (reads_byte.bind fun flag => reads_u32.bind fun min =>
    (reads_pure (Limits.mk min none)).ite (p := flag = 0) ((reads_u32.bind fun max =>
      reads_pure (Limits.mk min (some max))).ite (p := flag = 1)
        (reads_fail (.unexpectedElement "limits flag" start)))).of_iff fun l w => ?_
  constructor
  · rintro ⟨flag, u, v, rfl, ⟨min, v, w', hmin, hcases, rfl⟩, rfl⟩
    rcases hcases with ⟨rfl, rfl, rfl⟩ | ⟨-, ⟨rfl, max, v', w'', hmax, ⟨rfl, rfl⟩, rfl⟩ | ⟨-, hno⟩⟩
    · simpa using Form.unbounded hmin
    · simpa using Form.bounded hmin hmax
    · exact hno.elim
  · intro h
    cases h with
    | unbounded hmin => exact ⟨0, [0], _, rfl, ⟨_, _, [], hmin, .inl ⟨rfl, rfl, rfl⟩, by simp⟩, rfl⟩
    | bounded hmin hmax =>
      exact ⟨1, [1], _, rfl, ⟨_, _, _, hmin, .inr ⟨by decide, .inl ⟨rfl, _, _, [], hmax, ⟨rfl, rfl⟩,
        rfl⟩⟩, by simp⟩, rfl⟩

/-- The lead byte, the parameters and the results. -/
def FuncType.Form : Grammar FuncType := fun t w =>
  ∃ u v, Counted ValueType.Form t.params u ∧ Counted ValueType.Form t.results v ∧
    w = form :: (u ++ v)

theorem FuncType.reads_reader : Reads reader Form := by
  refine Reads.offset fun start => ?_
  refine (reads_byte.bind fun lead => (ValueType.reads_listReader.bind fun params =>
    ValueType.reads_listReader.bind fun results => reads_pure (FuncType.mk params results)).ite
      (p := lead = form) (reads_fail (.unexpectedElement "function type form" start))).of_iff
        fun t w => ?_
  constructor
  · rintro ⟨lead, u, v, rfl, ⟨rfl, params, u', v', hparams, ⟨results, u₂, v₂, hresults, ⟨rfl, rfl⟩,
      rfl⟩, rfl⟩ | ⟨-, hno⟩, rfl⟩
    · exact ⟨u', u₂, hparams, hresults, by simp⟩
    · exact hno.elim
  · rintro ⟨u, v, hparams, hresults, rfl⟩
    exact ⟨form, [form], _, rfl, .inl ⟨rfl, _, u, _, hparams, ⟨_, v, [], hresults, ⟨rfl, rfl⟩, rfl⟩,
      rfl⟩, by simp⟩

/-- The element type, which is a reference, and the limits. -/
def TableType.Form : Grammar TableType := fun t w =>
  ∃ u v, ValueType.ReferenceForm t.element u ∧ Limits.Form t.limits v ∧ w = u ++ v

theorem TableType.reads_reader : Reads reader Form := by
  refine (ValueType.reads_referenceReader.bind fun element => Limits.reads_reader.bind fun limits =>
    reads_pure (TableType.mk element limits)).of_iff fun t w => ?_
  constructor
  · rintro ⟨element, u, v, helement, ⟨limits, u', v', hlimits, ⟨rfl, rfl⟩, rfl⟩, rfl⟩
    exact ⟨u, u', helement, hlimits, by simp⟩
  · rintro ⟨u, v, helement, hlimits, rfl⟩
    exact ⟨_, u, _, helement, ⟨_, v, [], hlimits, ⟨rfl, rfl⟩, rfl⟩, by simp⟩

/-- The value type and a byte that is one for a mutable global and zero for another. -/
def GlobalType.Form : Grammar GlobalType := fun t w =>
  w = [t.type.toByte, if t.isMutable then 1 else 0]

theorem GlobalType.reads_reader : Reads reader Form := by
  refine (ValueType.reads_reader.bind fun type => Reads.offset fun start => reads_byte.bind fun flag =>
    (reads_pure (GlobalType.mk type false)).ite (p := flag = 0)
      ((reads_pure (GlobalType.mk type true)).ite (p := flag = 1)
        (reads_fail (.unexpectedElement "mutability flag" start)))).of_iff fun t w => ?_
  constructor
  · rintro ⟨type, u, v, rfl, ⟨flag, u', v', rfl, hcases, rfl⟩, rfl⟩
    rcases hcases with ⟨rfl, rfl, rfl⟩ | ⟨-, ⟨rfl, rfl, rfl⟩ | ⟨-, hno⟩⟩
    · rfl
    · rfl
    · exact hno.elim
  · rintro rfl
    obtain ⟨type, isMutable⟩ := t
    cases isMutable with
    | false => exact ⟨type, _, _, rfl, ⟨0, [0], [], rfl, .inl ⟨rfl, rfl, rfl⟩, rfl⟩, rfl⟩
    | true =>
      exact ⟨type, _, _, rfl, ⟨1, [1], [], rfl, .inr ⟨by decide, .inl ⟨rfl, rfl, rfl⟩⟩, rfl⟩, rfl⟩

end WasmStream
