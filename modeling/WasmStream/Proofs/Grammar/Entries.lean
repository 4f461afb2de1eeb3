import WasmStream.Proofs.Grammar.EntryReaders

/-! The written forms of section entries under given limits. The builder of an entry finds an entry if
and only if the bytes begin with a form of it, and is fresh again then. -/
namespace WasmStream
open Reader Grammar Builder

namespace Grammar

/-- A length that is within a bound, and a form of just that length. -/
def Sized {α : Type} (maxLength : UInt32) (G : Grammar α) : Grammar α := fun a w =>
  ∃ n u v, U32 n u ∧ n ≤ maxLength ∧ v.length = n.toNat ∧ G a v ∧ w = u ++ v

def Name (maxLength : UInt32) : Grammar String :=
  Sized maxLength fun name w => w = Utf8.encode name.toList

def Bytes (maxLength : UInt32) : Grammar (List UInt8) := Sized maxLength fun bytes w => w = bytes

end Grammar

theorem readName_eq_ok_iff {bytes : List UInt8} {name : String} :
    readName bytes = .ok name ↔ bytes = Utf8.encode name.toList := by
  unfold readName
  constructor
  · intro h
    cases hd : Utf8.decode bytes with
    | ok text =>
      rw [hd] at h
      cases h
      rw [String.toList_ofList]
      exact Utf8.decode_eq_ok_iff.mp hd
    | error fault => rw [hd] at h; cases h
  · intro h
    rw [Utf8.decode_eq_ok_iff.mpr h]
    exact congrArg Except.ok String.ofList_toList

theorem Pending.reads_fieldReader {α : Type} {freeze : List UInt8 → Except Error α} {G : Grammar α}
    (hfreeze : ∀ bytes a, freeze bytes = .ok a ↔ G a bytes) (maxLength : UInt32) :
    Reads (fieldReader freeze maxLength) (Sized maxLength G) := by
  refine Reads.offset fun start => ?_
  refine (reads_u32.bind fun length => (reads_fail (.limitExceeded "field length" maxLength.toNat
    start)).ite (p := maxLength < length) ((reads_bytes length.toNat).bind fun bytes =>
      reads_ofExcept (freeze bytes))).of_iff fun a w => ?_
  constructor
  · rintro ⟨n, u, v, hn, ⟨-, hno⟩ | ⟨hle, bytes, v, v', ⟨hlen, rfl⟩, ⟨ha, rfl⟩, rfl⟩, rfl⟩
    · exact hno.elim
    · exact ⟨n, u, v, hn, UInt32.not_lt.mp hle, hlen, (hfreeze v a).mp ha, by simp⟩
  · rintro ⟨n, u, v, hn, hle, hlen, hG, rfl⟩
    have ha := (hfreeze v a).mpr hG
    exact ⟨n, u, v, hn, .inr ⟨UInt32.not_lt.mpr hle, v, v, [], ⟨hlen, rfl⟩, ⟨ha, rfl⟩, by simp⟩, rfl⟩

theorem reads_name (maxLength : UInt32) :
    Reads (Pending.fieldReader readName maxLength) (Name maxLength) :=
  Pending.reads_fieldReader (fun _ _ => readName_eq_ok_iff) maxLength

theorem reads_fieldBytes (maxLength : UInt32) :
    Reads (Pending.fieldReader .ok maxLength) (Bytes maxLength) :=
  Pending.reads_fieldReader (fun bytes a => by simp) maxLength

namespace ExternalKind

theorem ofByte_eq_ok_iff {b : UInt8} {start : Nat} {kind : ExternalKind} :
    ofByte b start = .ok kind ↔ b = kind.toByte := by
  constructor
  · intro h
    unfold ofByte at h
    split at h
    · next kind' hkind =>
      cases h
      have hlt : b.toNat < 5 := (List.getElem?_eq_some_iff.mp hkind).1
      have key : ∀ k : Fin 5, ∀ kind, all[k.val]? = some kind → kind.toByte.toNat = k.val := by decide
      exact UInt8.toNat.inj (key ⟨b.toNat, hlt⟩ kind hkind).symm
    · cases h
  · rintro rfl
    cases kind <;> rfl

end ExternalKind

namespace ImportDesc

/-- What stands behind the kind; a tag has an attribute in front of its type, and any byte will do. -/
def Rest : ImportDesc → List UInt8 → Prop
  | function typeIndex, w => U32 typeIndex w
  | table type, w => type.Form w
  | memory pages, w => pages.Form w
  | global type, w => type.Form w
  | tag typeIndex, w => ∃ attr u, U32 typeIndex u ∧ w = attr :: u

def Form : Grammar ImportDesc := fun desc w => ∃ u, desc.Rest u ∧ w = desc.kind.toByte :: u

theorem reads_reader : Reads reader Form := by
  refine Reads.offset fun start => ?_
  refine (reads_byte.bind (K := fun b desc w => ExternalKind.ofByte b start = .ok desc.kind ∧
    desc.Rest w) fun b => ?_).of_iff fun desc w => ?_
  · cases hb : ExternalKind.ofByte b start with
    | error e => exact (reads_fail _).of_iff fun desc w => by simp
    | ok kind =>
      cases kind with
      | function =>
        refine reads_u32.map fun desc w => ?_
        cases desc <;> simp [ImportDesc.kind, Rest]
      | table =>
        refine TableType.reads_reader.map fun desc w => ?_
        cases desc <;> simp [ImportDesc.kind, Rest]
      | memory =>
        refine Limits.reads_reader.map fun desc w => ?_
        cases desc <;> simp [ImportDesc.kind, Rest]
      | global =>
        refine GlobalType.reads_reader.map fun desc w => ?_
        cases desc <;> simp [ImportDesc.kind, Rest]
      | tag =>
        refine (reads_byte.bind fun _ => reads_u32.image ImportDesc.tag).of_iff fun desc w => ?_
        constructor
        · rintro ⟨attr, u, v, rfl, ⟨typeIndex, rfl, h⟩, rfl⟩
          exact ⟨rfl, attr, v, h, rfl⟩
        · rintro ⟨hkind, h⟩
          cases desc with
          | tag typeIndex =>
            obtain ⟨attr, u, h, rfl⟩ := h
            exact ⟨attr, [attr], u, rfl, ⟨typeIndex, rfl, h⟩, rfl⟩
          | _ => cases hkind
  · constructor
    · rintro ⟨b, u, v, rfl, ⟨hkind, hrest⟩, rfl⟩
      rw [ExternalKind.ofByte_eq_ok_iff] at hkind
      exact ⟨v, hrest, by rw [hkind]; rfl⟩
    · rintro ⟨u, hrest, rfl⟩
      exact ⟨_, _, u, rfl, ⟨ExternalKind.ofByte_eq_ok_iff.mpr rfl, hrest⟩, rfl⟩

end ImportDesc

variable (limits : DecoderLimits)

/-- The names, and what is imported under them. -/
def Import.Form : Grammar Import := fun i w =>
  ∃ t u v, Name limits.maxPayloadSize i.moduleName t ∧ Name limits.maxPayloadSize i.name u ∧
    i.desc.Form v ∧ w = t ++ (u ++ v)

theorem Import.reads_reader : Reads (reader limits) (Form limits) := by
  refine ((reads_name _).bind fun moduleName => (reads_name _).bind fun name =>
    ImportDesc.reads_reader.image (Import.mk moduleName name)).of_iff fun i w => ?_
  constructor
  · rintro ⟨moduleName, t, _, hmodule, ⟨name, u, v, hname, ⟨desc, rfl, hdesc⟩, rfl⟩, rfl⟩
    exact ⟨t, u, v, hmodule, hname, hdesc, rfl⟩
  · rintro ⟨t, u, v, hmodule, hname, hdesc, rfl⟩
    exact ⟨i.moduleName, t, _, hmodule, ⟨i.name, u, v, hname, ⟨i.desc, rfl, hdesc⟩, rfl⟩, rfl⟩

/-- The name, and kind and index of what is exported under it. -/
def Export.Form : Grammar Export := fun e w =>
  ∃ u v, Name limits.maxPayloadSize e.name u ∧ U32 e.index v ∧ w = u ++ e.kind.toByte :: v

theorem Export.reads_targetReader : Reads targetReader fun target w =>
    ∃ v, U32 target.2 v ∧ w = target.1.toByte :: v := by
  refine Reads.offset fun start => ?_
  refine (reads_byte.bind (K := fun b target w => ExternalKind.ofByte b start = .ok target.1 ∧
    U32 target.2 w) fun b => ?_).of_iff fun target w => ?_
  · cases hb : ExternalKind.ofByte b start with
    | error e => exact (reads_fail _).of_iff fun target w => by simp
    | ok kind =>
      refine reads_u32.map fun target w => ?_
      constructor
      · rintro ⟨hkind, h⟩
        exact ⟨target.2, Prod.ext (Except.ok.inj hkind).symm rfl, h⟩
      · rintro ⟨index, rfl, h⟩
        exact ⟨rfl, h⟩
  · constructor
    · rintro ⟨b, u, v, rfl, ⟨hkind, hindex⟩, rfl⟩
      rw [ExternalKind.ofByte_eq_ok_iff] at hkind
      exact ⟨v, hindex, by rw [hkind]; rfl⟩
    · rintro ⟨v, hindex, rfl⟩
      exact ⟨_, _, v, rfl, ⟨ExternalKind.ofByte_eq_ok_iff.mpr rfl, hindex⟩, rfl⟩

theorem Export.reads_reader : Reads (reader limits) (Form limits) := by
  refine ((reads_name _).bind fun name => reads_targetReader.image
    fun target => Export.mk name target.1 target.2).of_iff fun e w => ?_
  constructor
  · rintro ⟨name, u, _, hname, ⟨target, rfl, v, hindex, rfl⟩, rfl⟩
    exact ⟨u, v, hname, hindex, rfl⟩
  · rintro ⟨u, v, hname, hindex, rfl⟩
    exact ⟨e.name, u, _, hname, ⟨(e.kind, e.index), rfl, v, hindex, rfl⟩, rfl⟩

/-- The type and the initial value. -/
def Global.Form : Grammar Global := fun g w =>
  ∃ u v, g.type.Form u ∧ g.init.Form limits v ∧ w = u ++ v

theorem Global.reads_reader : Reads (reader limits) (Form limits) := by
  refine (GlobalType.reads_reader.bind fun type =>
    (Expression.reads_reader limits).image (Global.mk type)).of_iff fun g w => ?_
  constructor
  · rintro ⟨type, u, v, htype, ⟨init, rfl, hinit⟩, rfl⟩
    exact ⟨u, v, htype, hinit, rfl⟩
  · rintro ⟨u, v, htype, hinit, rfl⟩
    exact ⟨g.type, u, v, htype, ⟨g.init, rfl, hinit⟩, rfl⟩

/-- An active segment of memory zero, a passive segment, and an active segment with the index of its
memory. -/
inductive DataSegment.Form : Grammar DataSegment
  | active {offset : Expression} {bytes t u v : List UInt8} : U32 0 t → offset.Form limits u →
      Bytes limits.maxPayloadSize bytes v → Form ⟨0, offset, bytes, false⟩ (t ++ (u ++ v))
  | passive {bytes t v : List UInt8} : U32 1 t → Bytes limits.maxPayloadSize bytes v →
      Form ⟨0, [], bytes, true⟩ (t ++ v)
  | indexed {memoryIndex : UInt32} {offset : Expression} {bytes t s u v : List UInt8} : U32 2 t →
      U32 memoryIndex s → offset.Form limits u → Bytes limits.maxPayloadSize bytes v →
      Form ⟨memoryIndex, offset, bytes, false⟩ (t ++ (s ++ (u ++ v)))

theorem DataSegment.flags_cases {flags : UInt32} (h : ¬2 < flags) :
    flags = 0 ∨ flags = 1 ∨ flags = 2 := by
  simp only [UInt32.lt_iff_toNat_lt, UInt32.reduceToNat, ← UInt32.toNat_inj] at h ⊢
  omega

theorem DataSegment.reads_reader : Reads (reader limits) (Form limits) := by
  refine Reads.offset fun start => ?_
  refine (reads_u32.bind fun flags => (reads_fail (.unexpectedElement "data segment flags" start)).ite
    (p := 2 < flags) ((reads_u32.ite (p := flags = 2) (reads_pure 0)).bind fun memoryIndex =>
      ((reads_pure []).ite (p := flags = 1) (Expression.reads_reader limits)).bind fun offset =>
        (reads_fieldBytes limits.maxPayloadSize).image
          fun bytes => DataSegment.mk memoryIndex offset bytes (flags == 1))).of_iff fun d w => ?_
  constructor
  · rintro ⟨flags, t, w', hflags, ⟨-, hno⟩ | ⟨hle, memoryIndex, s, w'', hindex, ⟨offset, u, v, hoffset,
      ⟨bytes, rfl, hbytes⟩, rfl⟩, rfl⟩, rfl⟩
    · exact hno.elim
    · rcases flags_cases hle with rfl | rfl | rfl
      · obtain ⟨-, rfl, rfl⟩ := hindex.resolve_left fun h => absurd h.1 (by decide)
        obtain ⟨-, hoffset⟩ := hoffset.resolve_left fun h => absurd h.1 (by decide)
        rw [List.nil_append]
        exact .active hflags hoffset hbytes
      · obtain ⟨-, rfl, rfl⟩ := hindex.resolve_left fun h => absurd h.1 (by decide)
        obtain ⟨-, rfl, rfl⟩ := hoffset.resolve_right fun h => absurd rfl h.1
        exact .passive hflags hbytes
      · obtain ⟨-, hindex⟩ := hindex.resolve_right fun h => absurd rfl h.1
        obtain ⟨-, hoffset⟩ := hoffset.resolve_left fun h => absurd h.1 (by decide)
        exact .indexed hflags hindex hoffset hbytes
  · intro h
    cases h with
    | active hflags hoffset hbytes =>
      exact ⟨0, _, _, hflags, .inr ⟨by decide, 0, [], _, .inr ⟨by decide, rfl, rfl⟩,
        ⟨_, _, _, .inr ⟨by decide, hoffset⟩, ⟨_, rfl, hbytes⟩, rfl⟩, rfl⟩, rfl⟩
    | passive hflags hbytes =>
      exact ⟨1, _, _, hflags, .inr ⟨by decide, 0, [], _, .inr ⟨by decide, rfl, rfl⟩,
        ⟨_, [], _, .inl ⟨rfl, rfl, rfl⟩, ⟨_, rfl, hbytes⟩, rfl⟩, rfl⟩, rfl⟩
    | indexed hflags hindex hoffset hbytes =>
      exact ⟨2, _, _, hflags, .inr ⟨by decide, _, _, _, .inl ⟨rfl, hindex⟩,
        ⟨_, _, _, .inr ⟨by decide, hoffset⟩, ⟨_, rfl, hbytes⟩, rfl⟩, rfl⟩, rfl⟩

/-- The name, and all that stands behind it. -/
def CustomSection.Form : Grammar CustomSection := fun s w =>
  ∃ u, Name limits.maxPayloadSize s.name u ∧
    s.payload.length ≤ limits.maxPayloadSize.toNat ∧ w = u ++ s.payload

/-- The payload that begins behind the name. -/
theorem CustomSection.payload_eq_done_iff {name : String} {sectionEnd n : Nat} {c : Cursor}
    {s : CustomSection} :
    (do
      let start ← Reader.offset
      if sectionEnd < start then Reader.fail (.customNamePastEnd name sectionEnd)
      else if limits.maxPayloadSize.toNat < sectionEnd - start then
        Reader.fail (.limitExceeded "custom section payload" limits.maxPayloadSize.toNat start)
      else do
        let payload ← Reader.bytes (sectionEnd - start)
        return ⟨name, payload⟩ : Reader CustomSection) c = .done s n ↔
      c.offset + n = sectionEnd ∧ n ≤ c.rest.length ∧ n ≤ limits.maxPayloadSize.toNat ∧
        s = ⟨name, c.rest.take n⟩ := by
  rw [Reader.offset_bind]
  have hbytes := (reads_bytes (sectionEnd - c.offset)).image (CustomSection.mk name)
  split
  · next hpast =>
    constructor
    · intro h
      cases h
    · rintro ⟨hend, -⟩
      omega
  · next hwithin =>
    split
    · next hlimit =>
      constructor
      · intro h
        cases h
      · rintro ⟨hend, -, hle, -⟩
        omega
    · next hlimit =>
      rw [hbytes c s n]
      constructor
      · rintro ⟨hn, payload, rfl, hlen, rfl⟩
        rw [List.length_take_of_le hn] at hlen
        exact ⟨by omega, hn, by omega, rfl⟩
      · rintro ⟨hend, hn, hle, rfl⟩
        exact ⟨hn, _, rfl, by rw [List.length_take_of_le hn]; omega, rfl⟩

/-- The reader of a custom section finds it if and only if its form reaches just to the end of the
section. -/
theorem CustomSection.reader_eq_done_iff {sectionEnd n : Nat} {c : Cursor} {s : CustomSection} :
    reader limits sectionEnd c = .done s n ↔
      c.offset + n = sectionEnd ∧ n ≤ c.rest.length ∧ Form limits s (c.rest.take n) := by
  unfold reader
  rw [bind_eq_done]
  constructor
  · rintro ⟨name, k, m, hname, hrest, rfl⟩
    obtain ⟨hk, hname⟩ := (reads_name _ c name k).mp hname
    obtain ⟨hend, hm, hle, rfl⟩ := (payload_eq_done_iff limits).mp hrest
    simp only [Cursor.drop_offset, Cursor.drop_rest, List.length_drop] at hend hm
    refine ⟨by omega, by omega, _, hname, ?_, List.take_add⟩
    simp only [Cursor.drop_rest, List.length_take, List.length_drop]
    omega
  · rintro ⟨hend, hn, u, hname, hle, hw⟩
    have hlen := congrArg List.length hw
    rw [List.length_take_of_le hn, List.length_append] at hlen
    have hu : c.rest.take u.length = u := by
      have htake := congrArg (List.take u.length) hw
      rwa [List.take_take, Nat.min_eq_left (by omega), List.take_left] at htake
    have hpayload : (c.rest.drop u.length).take s.payload.length = s.payload := by
      have hdrop := congrArg (List.drop u.length) hw
      rwa [List.drop_take, List.drop_left, hlen, Nat.add_sub_cancel_left] at hdrop
    refine ⟨s.name, u.length, s.payload.length, ?_, ?_, hlen⟩
    · exact (reads_name _ c _ _).mpr ⟨by omega, by rwa [hu]⟩
    · refine (payload_eq_done_iff limits).mpr ⟨?_, ?_, hle, ?_⟩
      · rw [Cursor.drop_offset]
        omega
      · rw [Cursor.drop_rest, List.length_drop]
        omega
      · rw [Cursor.drop_rest, hpayload]

end WasmStream
