import WasmStream.Proofs.Restriction.Decoder
import WasmStream.Proofs.Truncation

/-! The modules that limits let through. A written form under tighter limits is a form under wider ones
of something that is within the tighter limits; limits thus tell modules apart by what the modules hold,
and not by where the checks stand in the decoder. -/
namespace WasmStream
open Grammar

/-- The widest limits. -/
def DecoderLimits.unlimited : DecoderLimits := ⟨0xFFFFFFFF, 0xFFFFFFFF, 0xFFFFFFFF⟩

theorem DecoderLimits.le_unlimited (limits : DecoderLimits) : limits ≤ unlimited where
  depth := Nat.le_of_lt_succ limits.maxBlockDepth.toNat_lt
  locals := Nat.le_of_lt_succ limits.maxLocals.toNat_lt
  payload := Nat.le_of_lt_succ limits.maxPayloadSize.toNat_lt

section Within
variable (limits : DecoderLimits)

/-- The blocks are nested no deeper than allowed. -/
def Expression.Within (e : Expression) : Prop :=
  Instruction.depthAll e ≤ limits.maxBlockDepth.toNat

def Import.Within (i : Import) : Prop :=
  i.moduleName.utf8ByteSize ≤ limits.maxPayloadSize.toNat ∧
    i.name.utf8ByteSize ≤ limits.maxPayloadSize.toNat

def Export.Within (e : Export) : Prop := e.name.utf8ByteSize ≤ limits.maxPayloadSize.toNat

def Global.Within (g : Global) : Prop := g.init.Within limits

def DataSegment.Within (d : DataSegment) : Prop :=
  d.offset.Within limits ∧ d.bytes.length ≤ limits.maxPayloadSize.toNat

def CodeBody.Within (b : CodeBody) : Prop :=
  b.size.toNat ≤ limits.maxPayloadSize.toNat ∧ b.locals.length ≤ limits.maxLocals.toNat ∧
    b.body.Within limits

def CustomSection.Within (s : CustomSection) : Prop :=
  s.name.utf8ByteSize ≤ limits.maxPayloadSize.toNat ∧
    s.payload.length ≤ limits.maxPayloadSize.toNat

/-- Types and indices are never limited. -/
def Entry.Within : Entry → Prop
  | imports i => i.Within limits
  | exports e => e.Within limits
  | global g => g.Within limits
  | data d => d.Within limits
  | code b => b.Within limits
  | custom s => s.Within limits
  | _ => True

/-- Everything in the module is within the limits. -/
structure Module.Respects (m : Module) : Prop where
  imports : ∀ i ∈ m.imports, i.Within limits
  exports : ∀ e ∈ m.exports, e.Within limits
  globals : ∀ g ∈ m.globals, g.Within limits
  data : ∀ d ∈ m.data, d.Within limits
  code : ∀ b ∈ m.code, b.Within limits
  customSections : ∀ s ∈ m.customSections, s.Within limits

instance (e : Expression) : Decidable (e.Within limits) := inferInstanceAs (Decidable (_ ≤ _))
instance (i : Import) : Decidable (i.Within limits) := inferInstanceAs (Decidable (_ ∧ _))
instance (e : Export) : Decidable (e.Within limits) := inferInstanceAs (Decidable (_ ≤ _))
instance (g : Global) : Decidable (g.Within limits) :=
  inferInstanceAs (Decidable (g.init.Within limits))
instance (d : DataSegment) : Decidable (d.Within limits) :=
  inferInstanceAs (Decidable (d.offset.Within limits ∧ _))
instance (b : CodeBody) : Decidable (b.Within limits) :=
  inferInstanceAs (Decidable (_ ∧ _ ∧ b.body.Within limits))
instance (s : CustomSection) : Decidable (s.Within limits) := inferInstanceAs (Decidable (_ ∧ _))

instance (m : Module) : Decidable (m.Respects limits) :=
  decidable_of_iff
    ((∀ i ∈ m.imports, i.Within limits) ∧ (∀ e ∈ m.exports, e.Within limits) ∧
      (∀ g ∈ m.globals, g.Within limits) ∧ (∀ d ∈ m.data, d.Within limits) ∧
      (∀ b ∈ m.code, b.Within limits) ∧ ∀ s ∈ m.customSections, s.Within limits)
    ⟨fun ⟨hi, he, hg, hd, hb, hs⟩ => ⟨hi, he, hg, hd, hb, hs⟩,
      fun h => ⟨h.imports, h.exports, h.globals, h.data, h.code, h.customSections⟩⟩

end Within

theorem Module.respects_ofEntries {limits : DecoderLimits} {entries : List Entry} :
    (ofEntries entries).Respects limits ↔ ∀ e ∈ entries, e.Within limits := by
  constructor
  · intro h e he
    cases e with
    | imports i => exact h.imports i (List.mem_filterMap.mpr ⟨_, he, rfl⟩)
    | exports e => exact h.exports e (List.mem_filterMap.mpr ⟨_, he, rfl⟩)
    | global g => exact h.globals g (List.mem_filterMap.mpr ⟨_, he, rfl⟩)
    | data d => exact h.data d (List.mem_filterMap.mpr ⟨_, he, rfl⟩)
    | code b => exact h.code b (List.mem_filterMap.mpr ⟨_, he, rfl⟩)
    | custom s => exact h.customSections s (List.mem_filterMap.mpr ⟨_, he, rfl⟩)
    | _ => trivial
  · intro h
    have hfield {α : Type} {f : Entry → Option α} {P : α → Prop}
        (hP : ∀ e a, e.Within limits → f e = some a → P a) : ∀ a ∈ entries.filterMap f, P a := by
      intro a ha
      obtain ⟨e, he, hfound⟩ := List.mem_filterMap.mp ha
      exact hP e a (h e he) hfound
    constructor
    all_goals
      refine hfield fun e a hwithin hfound => ?_
      cases e <;> cases hfound
      exact hwithin

theorem Utf8.length_encode (name : String) : (encode name.toList).length = name.utf8ByteSize := by
  rw [encode, ← String.size_toByteArray, ← String.utf8Encode_toList, List.utf8Encode,
    List.size_toByteArray]

namespace Grammar
variable {α β : Type} {G G' : Grammar α} {P : α → Prop}

/-- `G` has the forms that `G'` has, of those values only of which `P` holds. -/
def Restricts (G G' : Grammar α) (P : α → Prop) : Prop := ∀ a w, G a w ↔ G' a w ∧ P a

theorem restricts_refl (h : ∀ a, P a) : Restricts G G P := fun a _ => (and_iff_left (h a)).symm

theorem Restricts.image {f : α → β} {Q : β → Prop} (h : Restricts G G' P)
    (hQ : ∀ a, Q (f a) ↔ P a) : Restricts (Image f G) (Image f G') Q := by
  intro b w
  constructor
  · rintro ⟨a, rfl, ha⟩
    obtain ⟨ha', hP⟩ := (h a w).mp ha
    exact ⟨⟨a, rfl, ha'⟩, (hQ a).mpr hP⟩
  · rintro ⟨⟨a, rfl, ha⟩, hb⟩
    exact ⟨a, rfl, (h a w).mpr ⟨ha, (hQ a).mp hb⟩⟩

theorem Restricts.many (h : Restricts G G' P) :
    Restricts (Many G) (Many G') fun l => ∀ a ∈ l, P a := by
  intro l
  induction l with
  | nil => simp [many_nil_iff]
  | cons a rest ih =>
    intro w
    simp only [many_cons_iff, List.forall_mem_cons]
    constructor
    · rintro ⟨u, v, ha, hrest, rfl⟩
      obtain ⟨ha', hP⟩ := (h a u).mp ha
      obtain ⟨hrest', hall⟩ := (ih v).mp hrest
      exact ⟨⟨u, v, ha', hrest', rfl⟩, hP, hall⟩
    · rintro ⟨⟨u, v, ha, hrest, rfl⟩, hP, hall⟩
      exact ⟨u, v, (h a u).mpr ⟨ha, hP⟩, (ih v).mpr ⟨hrest, hall⟩, rfl⟩

theorem Restricts.counted (h : Restricts G G' P) :
    Restricts (Counted G) (Counted G') fun l => ∀ a ∈ l, P a := by
  intro l w
  constructor
  · rintro ⟨n, u, v, hn, hlen, hl, rfl⟩
    obtain ⟨hl', hall⟩ := (h.many l v).mp hl
    exact ⟨⟨n, u, v, hn, hlen, hl', rfl⟩, hall⟩
  · rintro ⟨⟨n, u, v, hn, hlen, hl, rfl⟩, hall⟩
    exact ⟨n, u, v, hn, hlen, (h.many l v).mpr ⟨hl, hall⟩, rfl⟩

/-- The length that is written is the length of the form. -/
theorem restricts_sized {n n' : UInt32} (hle : n.toNat ≤ n'.toNat) {size : α → Nat}
    (hsize : ∀ a w, G a w → w.length = size a) :
    Restricts (Sized n G) (Sized n' G) fun a => size a ≤ n.toNat := by
  intro a w
  constructor
  · rintro ⟨k, u, v, hk, hkn, hlen, ha, rfl⟩
    have hbound : k.toNat ≤ n.toNat := UInt32.le_iff_toNat_le.mp hkn
    refine ⟨⟨k, u, v, hk, UInt32.le_iff_toNat_le.mpr (Nat.le_trans hbound hle), hlen, ha, rfl⟩, ?_⟩
    change size a ≤ n.toNat
    rwa [← hsize a v ha, hlen]
  · rintro ⟨⟨k, u, v, hk, -, hlen, ha, rfl⟩, hbound⟩
    rw [← hsize a v ha, hlen] at hbound
    exact ⟨k, u, v, hk, UInt32.le_iff_toNat_le.mpr hbound, hlen, ha, rfl⟩

end Grammar

section Restricted
variable {limits more : DecoderLimits} (h : limits ≤ more)
include h

theorem restricts_name : Restricts (Name limits.maxPayloadSize) (Name more.maxPayloadSize)
    fun name => name.utf8ByteSize ≤ limits.maxPayloadSize.toNat :=
  restricts_sized h.payload fun name w hw => by rw [hw, Utf8.length_encode]

theorem restricts_bytes : Restricts (Bytes limits.maxPayloadSize) (Bytes more.maxPayloadSize)
    fun bytes => bytes.length ≤ limits.maxPayloadSize.toNat :=
  restricts_sized h.payload fun bytes w hw => by rw [hw]

theorem Expression.restricts_form :
    Restricts (Form limits) (Form more) (Within limits) := by
  intro e w
  constructor
  · rintro ⟨hform, hwell, hdepth⟩
    exact ⟨⟨hform, hwell, Nat.le_trans hdepth h.depth⟩, hdepth⟩
  · rintro ⟨⟨hform, hwell, -⟩, hdepth⟩
    exact ⟨hform, hwell, hdepth⟩

theorem Import.restricts_form : Restricts (Form limits) (Form more) (Within limits) := by
  intro i w
  constructor
  · rintro ⟨t, u, v, hmodule, hname, hdesc, rfl⟩
    obtain ⟨hmodule', hmoduleSize⟩ := (restricts_name h _ _).mp hmodule
    obtain ⟨hname', hnameSize⟩ := (restricts_name h _ _).mp hname
    exact ⟨⟨t, u, v, hmodule', hname', hdesc, rfl⟩, hmoduleSize, hnameSize⟩
  · rintro ⟨⟨t, u, v, hmodule, hname, hdesc, rfl⟩, hmoduleSize, hnameSize⟩
    exact ⟨t, u, v, (restricts_name h _ _).mpr ⟨hmodule, hmoduleSize⟩,
      (restricts_name h _ _).mpr ⟨hname, hnameSize⟩, hdesc, rfl⟩

theorem Export.restricts_form : Restricts (Form limits) (Form more) (Within limits) := by
  intro e w
  constructor
  · rintro ⟨u, v, hname, hindex, rfl⟩
    obtain ⟨hname', hsize⟩ := (restricts_name h _ _).mp hname
    exact ⟨⟨u, v, hname', hindex, rfl⟩, hsize⟩
  · rintro ⟨⟨u, v, hname, hindex, rfl⟩, hsize⟩
    exact ⟨u, v, (restricts_name h _ _).mpr ⟨hname, hsize⟩, hindex, rfl⟩

theorem Global.restricts_form : Restricts (Form limits) (Form more) (Within limits) := by
  intro g w
  constructor
  · rintro ⟨u, v, htype, hinit, rfl⟩
    obtain ⟨hinit', hdepth⟩ := (Expression.restricts_form h _ _).mp hinit
    exact ⟨⟨u, v, htype, hinit', rfl⟩, hdepth⟩
  · rintro ⟨⟨u, v, htype, hinit, rfl⟩, hdepth⟩
    exact ⟨u, v, htype, (Expression.restricts_form h _ _).mpr ⟨hinit, hdepth⟩, rfl⟩

theorem DataSegment.restricts_form : Restricts (Form limits) (Form more) (Within limits) := by
  have hoffset := Expression.restricts_form h
  have hbytes := restricts_bytes h
  intro d w
  constructor
  · intro hd
    cases hd with
    | active hflags ho hb =>
      obtain ⟨ho', hdepth⟩ := (hoffset _ _).mp ho
      obtain ⟨hb', hsize⟩ := (hbytes _ _).mp hb
      exact ⟨.active hflags ho' hb', hdepth, hsize⟩
    | passive hflags hb =>
      obtain ⟨hb', hsize⟩ := (hbytes _ _).mp hb
      exact ⟨.passive hflags hb', Nat.zero_le _, hsize⟩
    | indexed hflags hindex ho hb =>
      obtain ⟨ho', hdepth⟩ := (hoffset _ _).mp ho
      obtain ⟨hb', hsize⟩ := (hbytes _ _).mp hb
      exact ⟨.indexed hflags hindex ho' hb', hdepth, hsize⟩
  · rintro ⟨hd, hdepth, hsize⟩
    cases hd with
    | active hflags ho hb =>
      exact .active hflags ((hoffset _ _).mpr ⟨ho, hdepth⟩) ((hbytes _ _).mpr ⟨hb, hsize⟩)
    | passive hflags hb => exact .passive hflags ((hbytes _ _).mpr ⟨hb, hsize⟩)
    | indexed hflags hindex ho hb =>
      exact .indexed hflags hindex ((hoffset _ _).mpr ⟨ho, hdepth⟩) ((hbytes _ _).mpr ⟨hb, hsize⟩)

theorem LocalsBuilder.restricts_form : Restricts (Form limits) (Form more)
    fun locals => locals.length ≤ limits.maxLocals.toNat := by
  intro locals w
  constructor
  · rintro ⟨groups, hgroups, hlocals, hlen⟩
    exact ⟨⟨groups, hgroups, hlocals, Nat.le_trans hlen h.locals⟩, hlen⟩
  · rintro ⟨⟨groups, hgroups, hlocals, -⟩, hlen⟩
    exact ⟨groups, hgroups, hlocals, hlen⟩

theorem CodeBody.restricts_form : Restricts (Form limits) (Form more) (Within limits) := by
  intro b w
  constructor
  · rintro ⟨t, u, v, hsize, hle, hlocals, hbody, hlen, rfl⟩
    have hbound : b.size.toNat ≤ limits.maxPayloadSize.toNat := UInt32.le_iff_toNat_le.mp hle
    have hwider : b.size ≤ more.maxPayloadSize :=
      UInt32.le_iff_toNat_le.mpr (Nat.le_trans hbound h.payload)
    obtain ⟨hlocals', hslots⟩ := (LocalsBuilder.restricts_form h _ _).mp hlocals
    obtain ⟨hbody', hdepth⟩ := (Expression.restricts_form h _ _).mp hbody
    exact ⟨⟨t, u, v, hsize, hwider, hlocals', hbody', hlen, rfl⟩, hbound, hslots, hdepth⟩
  · rintro ⟨⟨t, u, v, hsize, -, hlocals, hbody, hlen, rfl⟩, hbound, hslots, hdepth⟩
    exact ⟨t, u, v, hsize, UInt32.le_iff_toNat_le.mpr hbound,
      (LocalsBuilder.restricts_form h _ _).mpr ⟨hlocals, hslots⟩,
      (Expression.restricts_form h _ _).mpr ⟨hbody, hdepth⟩, hlen, rfl⟩

theorem CustomSection.restricts_form : Restricts (Form limits) (Form more) (Within limits) := by
  intro s w
  constructor
  · rintro ⟨u, hname, hle, rfl⟩
    obtain ⟨hname', hsize⟩ := (restricts_name h _ _).mp hname
    exact ⟨⟨u, hname', Nat.le_trans hle h.payload, rfl⟩, hsize, hle⟩
  · rintro ⟨⟨u, hname, -, rfl⟩, hsize, hle⟩
    exact ⟨u, (restricts_name h _ _).mpr ⟨hname, hsize⟩, hle, rfl⟩

theorem Entry.restricts_form (id : SectionId) :
    Restricts (Form limits id) (Form more id) (Within limits) := by
  have hfree {α : Type} {G : Grammar α} {entry : α → Entry}
      (hentry : ∀ a, (entry a).Within limits) :
      Restricts (Image entry G) (Image entry G) (Within limits) :=
    (restricts_refl fun _ => trivial).image fun a => iff_true_intro (hentry a)
  cases id with
  | custom => exact (CustomSection.restricts_form h).image fun _ => Iff.rfl
  | type => exact hfree fun _ => trivial
  | imports => exact (Import.restricts_form h).image fun _ => Iff.rfl
  | function => exact hfree fun _ => trivial
  | table => exact hfree fun _ => trivial
  | memory => exact hfree fun _ => trivial
  | global => exact (Global.restricts_form h).image fun _ => Iff.rfl
  | exports => exact (Export.restricts_form h).image fun _ => Iff.rfl
  | start => exact hfree fun _ => trivial
  | element => exact fun _ _ => iff_of_false id fun hno => hno.1
  | code => exact (CodeBody.restricts_form h).image fun _ => Iff.rfl
  | data => exact (DataSegment.restricts_form h).image fun _ => Iff.rfl
  | dataCount => exact hfree fun _ => trivial

theorem Section.restricts_payload (id : SectionId) : Restricts (Payload limits id)
    (Payload more id) fun entries => ∀ e ∈ entries, e.Within limits := by
  have hentry := Entry.restricts_form h id
  cases id with
  | custom | start | dataCount => exact hentry.image fun e => List.forall_mem_singleton
  | element =>
    intro entries w
    constructor
    · rintro rfl
      exact ⟨rfl, List.forall_mem_nil _⟩
    · exact fun hempty => hempty.1
  | _ => exact hentry.counted

theorem Section.restricts_form : Restricts (Form limits) (Form more)
    fun s => ∀ e ∈ s.entries, e.Within limits := by
  intro s w
  constructor
  · rintro ⟨payload, hframe, hpayload⟩
    obtain ⟨hpayload', hall⟩ := (restricts_payload h _ _ _).mp hpayload
    exact ⟨⟨payload, hframe, hpayload'⟩, hall⟩
  · rintro ⟨⟨payload, hframe, hpayload⟩, hall⟩
    exact ⟨payload, hframe, (restricts_payload h _ _ _).mpr ⟨hpayload, hall⟩⟩

/-- Sections that hold only what is within tighter limits can be taken for sections under these. -/
theorem WrittenSection.exists_restricted {l : List (WrittenSection more)}
    (hl : (moduleOf l).Respects limits) :
    ∃ l' : List (WrittenSection limits), moduleBytes l' = moduleBytes l ∧ moduleOf l' = moduleOf l := by
  have hall (x : WrittenSection more) (hx : x ∈ l) : ∀ e ∈ x.content.entries, e.Within limits :=
    fun e he => Module.respects_ofEntries.mp hl e (List.mem_flatMap.mpr ⟨x, hx, he⟩)
  have hmany : Many (Section.Form limits) (l.map content) (bytesOf l) := by
    refine ((Section.restricts_form h).many _ _).mpr ⟨many_contents l, ?_⟩
    exact List.forall_mem_map.mpr hall
  have hmodule {any : DecoderLimits} (l : List (WrittenSection any)) :
      moduleOf l = .ofEntries ((l.map content).flatMap Section.entries) := by
    rw [List.flatMap_map]
    rfl
  obtain ⟨l', hcontents, hbytes⟩ := exists_of_many hmany
  refine ⟨l', congrArg (header ++ ·) hbytes, ?_⟩
  rw [hmodule, hmodule, hcontents]

end Restricted

/-- What the sections hold is within the limits under which they can be taken for sections. -/
theorem WrittenSection.respects_moduleOf {limits : DecoderLimits} (l : List (WrittenSection limits)) :
    (moduleOf l).Respects limits := by
  refine Module.respects_ofEntries.mpr fun e he => ?_
  obtain ⟨x, -, hx⟩ := List.mem_flatMap.mp he
  have hself : limits ≤ limits := ⟨Nat.le_refl _, Nat.le_refl _, Nat.le_refl _⟩
  exact ((Section.restricts_form hself _ _).mp x.form).2 e hx

/-- Tighter limits let through what wider ones do if it is within them. -/
theorem decodeModule_eq_ok_iff_respects {limits more : DecoderLimits} (h : limits ≤ more)
    {bytes : List UInt8} {m : Module} :
    decodeModule limits bytes = .ok m ↔ decodeModule more bytes = .ok m ∧ m.Respects limits := by
  constructor
  · intro hm
    have hrespects : m.Respects limits := by
      obtain ⟨l, -, rfl⟩ := WrittenSection.decodeModule_eq_ok_iff_moduleBytes.mp hm
      exact WrittenSection.respects_moduleOf l
    obtain hsame | ⟨e, hfailed, -⟩ := stricter_decodeModule h bytes
    · exact ⟨hsame.symm.trans hm, hrespects⟩
    · cases hm.symm.trans hfailed
  · rintro ⟨hm, hrespects⟩
    obtain ⟨l, rfl, rfl⟩ := WrittenSection.decodeModule_eq_ok_iff_moduleBytes.mp hm
    obtain ⟨l', hbytes, hmodule⟩ := WrittenSection.exists_restricted h hrespects
    exact WrittenSection.decodeModule_eq_ok_iff_moduleBytes.mpr ⟨l', hbytes.symm, hmodule.symm⟩

/-- Limits let through the modules that respect them, and nothing else is different: a module that does
not respect them fails with a limit that is exceeded, and wider limits lose and change nothing. -/
theorem limits_filter (limits : DecoderLimits) (bytes : List UInt8) (m : Module) :
    (decodeModule limits bytes = .ok m ↔
      decodeModule .unlimited bytes = .ok m ∧ m.Respects limits) ∧
    (decodeModule .unlimited bytes = .ok m → ¬m.Respects limits →
      ∃ e, decodeModule limits bytes = .error e ∧ e.code = Code.limitExceeded) ∧
    ∀ more, limits ≤ more → decodeModule limits bytes = .ok m → decodeModule more bytes = .ok m := by
  have hfilter {more : DecoderLimits} (h : limits ≤ more) : decodeModule limits bytes = .ok m ↔
      decodeModule more bytes = .ok m ∧ m.Respects limits := decodeModule_eq_ok_iff_respects h
  refine ⟨hfilter limits.le_unlimited, ?_, fun more h hm => ((hfilter h).mp hm).1⟩
  intro hm hrespects
  obtain hsame | ⟨e, hfailed, what, limit, offset, rfl⟩ :=
    stricter_decodeModule limits.le_unlimited bytes
  · exact absurd ((hfilter limits.le_unlimited).mp (hsame.trans hm)).2 hrespects
  · exact ⟨_, hfailed, rfl⟩

/-- A passive segment of three bytes comes through where three bytes are allowed, and not where two
are. -/
theorem limits_filter_segment :
    let bytes := header ++ [11, 6, 1, 1, 3, 4, 5, 6]
    let m : Module := { data := [⟨0, [], [4, 5, 6], true⟩] }
    decodeModule { maxPayloadSize := 3 } bytes = .ok m ∧ decodeModule {} bytes = .ok m ∧
      ∃ e, decodeModule { maxPayloadSize := 2 } bytes = .error e ∧ e.code = Code.limitExceeded := by
  intro bytes m
  have hwidest : decodeModule .unlimited bytes = .ok m := by cbv
  have hthree : m.Respects { maxPayloadSize := 3 } := by decide
  have htwo : ¬m.Respects { maxPayloadSize := 2 } := by decide
  have hle : ({ maxPayloadSize := 3 } : DecoderLimits) ≤ {} := ⟨by decide, by decide, by decide⟩
  obtain ⟨hfilter, -, hwider⟩ := limits_filter { maxPayloadSize := 3 } bytes m
  have hm := hfilter.mpr ⟨hwidest, hthree⟩
  exact ⟨hm, hwider {} hle hm, (limits_filter { maxPayloadSize := 2 } bytes m).2.1 hwidest htwo⟩

end WasmStream
