import WasmStream.Proofs.Grammar.Entries

/-! The written form of a code body: its size, the groups of locals and the instructions, in just as
many bytes as the size says. -/
namespace WasmStream
open Reader Grammar Builder

namespace LocalsBuilder
variable (limits : DecoderLimits)

/-- The number of slots, and their type. -/
def GroupForm : Grammar (UInt32 × ValueType) := fun g w => ∃ u, U32 g.1 u ∧ w = u ++ [g.2.toByte]

theorem reads_groupReader : Reads groupReader GroupForm := by
  refine (reads_u32.bind fun count => ValueType.reads_reader.image (Prod.mk count)).of_iff
    fun g w => ?_
  constructor
  · rintro ⟨count, u, _, hcount, ⟨type, rfl, rfl⟩, rfl⟩
    exact ⟨u, hcount, rfl⟩
  · rintro ⟨u, hcount, rfl⟩
    exact ⟨g.1, u, _, hcount, ⟨g.2, rfl, rfl⟩, rfl⟩

/-- The builder once the groups have been read. -/
def withGroups (b : LocalsBuilder) (groups : List (UInt32 × ValueType)) : LocalsBuilder :=
  { b with groups := b.groups ++ groups, total := b.total + (expand groups).length }

theorem withGroups_nil (b : LocalsBuilder) : b.withGroups [] = b := by
  simp [withGroups, expand]

theorem length_expand_cons (g : UInt32 × ValueType) (groups : List (UInt32 × ValueType)) :
    (expand (g :: groups)).length = g.1.toNat + (expand groups).length := by
  simp [expand]

theorem withGroups_cons (b : LocalsBuilder) (g : UInt32 × ValueType)
    (groups : List (UInt32 × ValueType)) :
    b.withGroups (g :: groups) = (b.withGroups [g]).withGroups groups := by
  simp [withGroups, expand, Nat.add_assoc]

theorem atOnce_group (b : LocalsBuilder) : atOnce (group limits) b = (do
    let start ← Reader.offset
    let g ← groupReader
    if limits.maxLocals.toNat < b.total + g.1.toNat then
      Reader.fail (.limitExceeded "local count" limits.maxLocals.toNat start)
    else return ((), b.withGroups [g])) := by
  unfold group
  simp only [atOnce_bind, atOnce_offset, atOnce_read, atOnce_modify, atOnce_get, atOnce_ite,
    atOnce_fail, bind_assoc, pure_bind]
  refine bind_congr fun start => bind_congr fun g => ?_
  split
  · simp only [Reader.fail_bind]
  · simp [withGroups, expand]

theorem reads_group {b : LocalsBuilder} : Reads (atOnce (group limits) b) fun x w =>
    ∃ g, GroupForm g w ∧ b.total + g.1.toNat ≤ limits.maxLocals.toNat ∧ x.2 = b.withGroups [g] := by
  rw [atOnce_group]
  refine Reads.offset fun start => ?_
  refine (reads_groupReader.bind fun g => (reads_fail (.limitExceeded "local count"
    limits.maxLocals.toNat start)).ite (p := limits.maxLocals.toNat < b.total + g.1.toNat)
      (reads_pure ((), b.withGroups [g]))).of_iff fun x w => ?_
  constructor
  · rintro ⟨g, u, v, hg, ⟨-, hno⟩ | ⟨hle, rfl, rfl⟩, rfl⟩
    · exact hno.elim
    · exact ⟨g, by rwa [List.append_nil], Nat.le_of_not_lt hle, rfl⟩
  · rintro ⟨g, hg, hle, hx⟩
    exact ⟨g, w, [], hg, .inr ⟨Nat.not_lt_of_le hle, Prod.ext rfl hx, rfl⟩, by simp⟩

/-- The groups are within the limit one after the other if and only if they are together. -/
theorem reads_groupsFrom (n : Nat) {b : LocalsBuilder} (hb : b.total ≤ limits.maxLocals.toNat) :
    Reads (atOnce (groupsFrom limits n) b) fun x w => ∃ groups, groups.length = n ∧
      Many GroupForm groups w ∧ b.total + (expand groups).length ≤ limits.maxLocals.toNat ∧
      x.2 = b.withGroups groups := by
  induction n generalizing b with
  | zero =>
    refine (reads_pure ((), b)).of_iff fun x w => ?_
    constructor
    · rintro ⟨rfl, rfl⟩
      exact ⟨[], rfl, .nil, by simpa [expand] using hb, (withGroups_nil b).symm⟩
    · rintro ⟨groups, hlen, hgroups, -, hx⟩
      obtain rfl := List.length_eq_zero_iff.mp hlen
      exact ⟨Prod.ext rfl (hx.trans (withGroups_nil b)), many_nil_iff.mp hgroups⟩
  | succ n ih =>
    rw [groupsFrom, atOnce_bind]
    refine ((reads_group limits).bind_of (K := fun x y w => ∃ groups, groups.length = n ∧
      Many GroupForm groups w ∧ x.2.total + (expand groups).length ≤ limits.maxLocals.toNat ∧
      y.2 = x.2.withGroups groups) fun x u hx => ih ?_).of_iff fun y w => ?_
    · obtain ⟨g, -, hle, hx⟩ := hx
      rw [hx]
      simpa [withGroups, expand] using hle
    · constructor
      · rintro ⟨x, u, v, ⟨g, hg, hle, hx⟩, ⟨groups, hlen, hgroups, htotal, hy⟩, rfl⟩
        rw [hx] at htotal hy
        refine ⟨g :: groups, by rw [List.length_cons, hlen], .cons hg hgroups, ?_, ?_⟩
        · rw [length_expand_cons]
          simpa [withGroups, expand, Nat.add_assoc] using htotal
        · rw [hy, withGroups_cons b g groups]
      · rintro ⟨groups, hlen, hgroups, htotal, hy⟩
        cases hgroups with
        | nil => cases hlen
        | @cons g groups u v hg hgroups =>
          rw [length_expand_cons] at htotal
          refine ⟨((), b.withGroups [g]), u, v, ⟨g, hg, by omega, rfl⟩,
            ⟨groups, Nat.succ.inj hlen, hgroups, ?_, ?_⟩, rfl⟩
          · simpa [withGroups, expand, Nat.add_assoc] using htotal
          · rw [hy, withGroups_cons]

/-- The groups, expanded, within the limit. -/
def Form : Grammar (List ValueType) := fun locals w => ∃ groups, Counted GroupForm groups w ∧
  locals = expand groups ∧ locals.length ≤ limits.maxLocals.toNat

/-- The builder when all groups have been read. -/
def complete (groups : List (UInt32 × ValueType)) : LocalsBuilder :=
  withGroups { groupCount := some (UInt32.ofNat groups.length) } groups

theorem freeze_complete {groups : List (UInt32 × ValueType)} (h : groups.length < 2 ^ 32) :
    (complete groups).freeze = .ok (expand groups) := by
  have hcount : (UInt32.ofNat groups.length).toNat = groups.length := UInt32.toNat_ofNat_of_lt' h
  simp [complete, withGroups, freeze, hcount]

theorem reads_builder : Reads (atOnce (builder limits) {}) fun x w => ∃ groups,
    Counted GroupForm groups w ∧ (expand groups).length ≤ limits.maxLocals.toNat ∧
      x.2 = complete groups := by
  have hbuilder : atOnce (builder limits) {} = Reader.u32 >>= fun count =>
      atOnce (groupsFrom limits count.toNat) { groupCount := some count } := by
    unfold builder
    simp only [atOnce_bind, atOnce_remember, atOnce_read, atOnce_get, bind_assoc, pure_bind,
      List.length_nil, Nat.sub_zero]
  rw [hbuilder]
  refine (reads_u32.bind fun count => reads_groupsFrom limits count.toNat (Nat.zero_le _)).of_iff
    fun x w => ?_
  constructor
  · rintro ⟨count, u, v, hcount, ⟨groups, hlen, hgroups, htotal, hx⟩, rfl⟩
    refine ⟨groups, ⟨count, u, v, hcount, hlen.symm, hgroups, rfl⟩, by simpa using htotal, ?_⟩
    rw [hx, complete, hlen, UInt32.ofNat_toNat]
  · rintro ⟨groups, ⟨count, u, v, hcount, hlen, hgroups, rfl⟩, htotal, hx⟩
    refine ⟨count, u, v, hcount, ⟨groups, hlen.symm, hgroups, by simpa using htotal, ?_⟩, rfl⟩
    rw [hx, complete, ← hlen, UInt32.ofNat_toNat]

end LocalsBuilder

namespace CodeBody
variable (limits : DecoderLimits)

/-- Locals and instructions are found at the start of the bytes; the bytes behind them are too many. -/
theorem contents_of_forms {size : UInt32} {offset : Nat} {locals : List ValueType} {body : Expression}
    {u v : List UInt8} (hlocals : LocalsBuilder.Form limits locals u) (hbody : body.Form limits v)
    (more : List UInt8) :
    contents limits size ⟨offset, u ++ v ++ more⟩ =
      if (u ++ v).length < (u ++ v ++ more).length then
        .error (.sectionSizeMismatch 10 size (u ++ v).length)
      else .ok (locals, body) := by
  obtain ⟨groups, hgroups, rfl, hlen⟩ := hlocals
  have hb : LocalsBuilder.builder limits {} ⟨offset, u ++ (v ++ more)⟩ =
      .ready () (LocalsBuilder.complete groups) u.length :=
    ready_iff.mpr ((LocalsBuilder.reads_builder limits).complete ⟨groups, hgroups, hlen, rfl⟩ _)
  have hdrop : (Cursor.mk offset (u ++ (v ++ more))).drop u.length =
      ⟨offset + u.length, v ++ more⟩ := by simp [Cursor.drop]
  have hread : Expression.reader limits ⟨offset + u.length, v ++ more⟩ = .done body v.length :=
    (Expression.reads_reader limits).complete hbody _
  have hused : (u ++ v).length = u.length + v.length := List.length_append
  rw [List.append_assoc, hused, contents, hb]
  simp only [LocalsBuilder.freeze_complete hgroups.length_lt, bind, Except.bind, hdrop, hread]

/-- The contents are read out of the bytes of a body if and only if they fill them. -/
theorem contents_eq_ok_iff {size : UInt32} {c : Cursor} {locals : List ValueType}
    {body : Expression} :
    contents limits size c = .ok (locals, body) ↔ ∃ u v, LocalsBuilder.Form limits locals u ∧
      body.Form limits v ∧ c.rest = u ++ v := by
  constructor
  · intro h
    unfold contents at h
    split at h
    · cases h
    · cases h
    · next b n hb =>
      obtain ⟨hn, groups, hgroups, hlen, rfl⟩ :=
        (LocalsBuilder.reads_builder limits c _ _).mp (ready_iff.mp hb)
      rw [LocalsBuilder.freeze_complete hgroups.length_lt] at h
      simp only [bind, Except.bind] at h
      split at h
      · cases h
      · cases h
      · next body' m hbody =>
        split at h
        · cases h
        · next hall =>
          cases h
          obtain ⟨hm, hform⟩ := (Expression.reads_reader limits _ _ _).mp hbody
          simp only [Cursor.drop_rest, List.length_drop] at hm
          refine ⟨_, _, ⟨groups, hgroups, rfl, hlen⟩, hform, ?_⟩
          rw [Cursor.drop_rest, ← List.take_add, List.take_of_length_le (by omega)]
  · rintro ⟨u, v, hlocals, hbody, hrest⟩
    obtain ⟨offset, bytes⟩ := c
    obtain rfl : bytes = u ++ v := hrest
    have h : contents limits size ⟨offset, u ++ v ++ []⟩ = _ :=
      contents_of_forms limits hlocals hbody []
    rwa [List.append_nil, if_neg (Nat.lt_irrefl _)] at h

/-- The size and, in just as many bytes, the locals and the instructions. -/
def Form : Grammar CodeBody := fun b w => ∃ t u v, U32 b.size t ∧ b.size ≤ limits.maxPayloadSize ∧
  LocalsBuilder.Form limits b.locals u ∧ b.body.Form limits v ∧
  (u ++ v).length = b.size.toNat ∧ w = t ++ (u ++ v)

theorem reads_reader : Reads (reader limits) (Form limits) := by
  refine Reads.offset fun start => ?_
  have hbody (size : UInt32) : Reads (Reader.offset >>= fun bodyOffset =>
      Reader.bytes size.toNat >>= fun bytes =>
        Reader.ofExcept (contents limits size ⟨bodyOffset, bytes⟩) >>= fun decoded =>
          pure (⟨size, decoded.1, decoded.2⟩ : CodeBody)) fun b w => b.size = size ∧
            w.length = size.toNat ∧ ∃ u v, LocalsBuilder.Form limits b.locals u ∧
              b.body.Form limits v ∧ w = u ++ v := by
    refine Reads.offset fun bodyOffset => ?_
    refine ((reads_bytes _).bind fun bytes => (reads_ofExcept (contents limits size
      ⟨bodyOffset, bytes⟩)).image fun decoded => CodeBody.mk size decoded.1 decoded.2).of_iff
        fun b w => ?_
    constructor
    · rintro ⟨bytes, w, _, ⟨hlen, rfl⟩, ⟨decoded, rfl, hdecoded, rfl⟩, rfl⟩
      rw [List.append_nil]
      exact ⟨rfl, hlen, (contents_eq_ok_iff limits).mp hdecoded⟩
    · rintro ⟨rfl, hlen, hw⟩
      have hdecoded : contents limits b.size ⟨bodyOffset, w⟩ = .ok (b.locals, b.body) :=
        (contents_eq_ok_iff limits).mpr hw
      exact ⟨w, w, [], ⟨hlen, rfl⟩, ⟨(b.locals, b.body), rfl, hdecoded, rfl⟩, by simp⟩
  refine (reads_u32.bind fun size => (reads_fail (.limitExceeded "code body size"
    limits.maxPayloadSize.toNat start)).ite (p := limits.maxPayloadSize < size)
      (hbody size)).of_iff fun b w => ?_
  constructor
  · rintro ⟨size, t, w, hsize, ⟨-, hno⟩ | ⟨hle, rfl, hlen, u, v, hlocals, hbody, rfl⟩, rfl⟩
    · exact hno.elim
    · exact ⟨t, u, v, hsize, UInt32.not_lt.mp hle, hlocals, hbody, hlen, rfl⟩
  · rintro ⟨t, u, v, hsize, hle, hlocals, hbody, hlen, rfl⟩
    exact ⟨_, t, _, hsize, .inr ⟨UInt32.not_lt.mpr hle, rfl, hlen, u, v, hlocals, hbody, rfl⟩, rfl⟩

end CodeBody
end WasmStream
