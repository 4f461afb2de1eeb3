import WasmStream.Proofs.Leb128Exactness
import WasmStream.Proofs.Restriction.Module

/-! The weight of what is decoded. Everything that a module holds but for its locals stands in the input
with a byte of its own, so that no count in the input makes a module larger than the input. Locals are
written in groups, and their number is limited instead. -/
namespace WasmStream
open Grammar

namespace Instruction

mutual

/-- The targets and types that the instruction lists, those inside the block included. -/
def listed : Instruction → Nat
  | block _ _ body => listedAll body
  | brTable targets _ => targets.length + 1
  | selectTyped types => types.length
  | _ => 0

def listedAll : List Instruction → Nat
  | [] => 0
  | i :: rest => i.listed + listedAll rest

end

end Instruction

/-! ## Weights -/

/-- The instructions, nested ones included, and what they list. -/
def Expression.weight (e : Expression) : Nat := Instruction.countAll e + Instruction.listedAll e

/-! An entry weighs one, and in addition to that what it consists of. -/

def FuncType.weight (t : FuncType) : Nat := 1 + (t.params.length + t.results.length)

def Import.weight (i : Import) : Nat := 1 + (i.moduleName.utf8ByteSize + i.name.utf8ByteSize)

def Export.weight (e : Export) : Nat := 1 + e.name.utf8ByteSize

def Global.weight (g : Global) : Nat := 1 + g.init.weight

def DataSegment.weight (d : DataSegment) : Nat := 1 + (d.offset.weight + d.bytes.length)

/-- The locals are left out. -/
def CodeBody.weight (b : CodeBody) : Nat := 1 + b.body.weight

def CustomSection.weight (s : CustomSection) : Nat := 1 + (s.name.utf8ByteSize + s.payload.length)

def Entry.weight : Entry → Nat
  | type t => t.weight
  | imports i => i.weight
  | global g => g.weight
  | exports e => e.weight
  | data d => d.weight
  | code b => b.weight
  | custom s => s.weight
  | function _ | table _ | memory _ | start _ | dataCount _ => 1

namespace Module

/-- The entries of all lists with what they consist of, and the two single numbers. -/
def weight (m : Module) : Nat :=
  (m.types.map FuncType.weight).sum + (m.imports.map Import.weight).sum + m.functions.length +
    m.tables.length + m.memories.length + (m.globals.map Global.weight).sum +
    (m.exports.map Export.weight).sum + m.start.toList.length + m.dataCount.toList.length +
    (m.data.map DataSegment.weight).sum + (m.code.map CodeBody.weight).sum +
    (m.customSections.map CustomSection.weight).sum

theorem weight_add_le (m : Module) (e : Entry) : (m.add e).weight ≤ m.weight + e.weight := by
  cases e <;> simp [add, weight, Entry.weight] <;> omega

theorem weight_addAll_le (m : Module) (entries : List Entry) :
    (m.addAll entries).weight ≤ m.weight + (entries.map Entry.weight).sum := by
  induction entries generalizing m with
  | nil => simp [addAll]
  | cons e rest ih =>
    have hstep := weight_add_le m e
    have hrest := ih (m.add e)
    rw [addAll, List.foldl_cons, ← addAll, List.map_cons, List.sum_cons]
    omega

theorem weight_ofEntries_le (entries : List Entry) :
    (ofEntries entries).weight ≤ (entries.map Entry.weight).sum := by
  have h := weight_addAll_le empty entries
  rw [addAll_empty] at h
  simpa [empty, weight] using h

end Module

/-! ## Forms that outweigh their values -/

namespace Grammar
variable {α β : Type} {G : Grammar α} {weight : α → Nat}

/-- A form has a byte for every unit that its value weighs. -/
def Covers (G : Grammar α) (weight : α → Nat) : Prop := ∀ a w, G a w → weight a ≤ w.length

theorem Covers.le {a : α} {w : List UInt8} (h : Covers G weight) (ha : G a w) :
    weight a ≤ w.length := h a w ha

theorem Covers.image {f : α → β} {other : β → Nat} (h : Covers G weight)
    (hweight : ∀ a, other (f a) ≤ weight a) : Covers (Image f G) other := by
  rintro _ w ⟨a, rfl, ha⟩
  exact Nat.le_trans (hweight a) (h a w ha)

theorem Covers.many (h : Covers G weight) : Covers (Many G) fun l => (l.map weight).sum := by
  intro l w hl
  induction hl with
  | nil => exact Nat.le_refl 0
  | @cons a rest u v ha _ ih =>
    have hrest : (rest.map weight).sum ≤ v.length := ih
    simp only [List.map_cons, List.sum_cons, List.length_append]
    exact Nat.add_le_add (h.le ha) hrest

theorem covers_unsigned (bits : Nat) : Covers (Leb128.Unsigned bits) fun _ => 1 := by
  intro v w h
  cases h with
  | last => exact Nat.le_refl 1
  | more => exact Nat.le_add_left 1 _

theorem covers_u32 : Covers U32 fun _ => 1 := fun _ _ h => (covers_unsigned 32).le h

/-- The count has a byte as well. -/
theorem Covers.counted (h : Covers G weight) :
    Covers (Counted G) fun l => 1 + (l.map weight).sum := by
  rintro l w ⟨n, u, v, hn, -, hl, rfl⟩
  rw [List.length_append]
  exact Nat.add_le_add (covers_u32.le hn) (h.many.le hl)

theorem Covers.counted_length (h : Covers G fun _ => 1) : Covers (Counted G) fun l => 1 + l.length := by
  intro l w hl
  have hones := h.counted.le hl
  rwa [List.map_const', List.sum_replicate_nat, Nat.mul_one] at hones

theorem Covers.sized (h : Covers G weight) (maxLength : UInt32) :
    Covers (Sized maxLength G) fun a => 1 + weight a := by
  rintro a w ⟨n, u, v, hn, -, -, ha, rfl⟩
  rw [List.length_append]
  exact Nat.add_le_add (covers_u32.le hn) (h.le ha)

theorem covers_name (maxLength : UInt32) :
    Covers (Name maxLength) fun name => 1 + name.utf8ByteSize := by
  refine Covers.sized (fun name w hw => Nat.le_of_eq ?_) maxLength
  rw [hw, Utf8.length_encode]

theorem covers_bytes (maxLength : UInt32) : Covers (Bytes maxLength) fun bytes => 1 + bytes.length :=
  Covers.sized (fun _ _ hw => Nat.le_of_eq (congrArg List.length hw.symm)) maxLength

end Grammar

theorem ValueType.covers_form : Covers Form fun _ => 1 := by
  rintro t w rfl
  exact Nat.le_refl 1

/-! ## Expressions -/

theorem Opcode.covers_form : Covers Form fun _ => 1 := by
  intro code w h
  cases h with
  | short => exact Nat.le_refl 1
  | extended => exact Nat.le_add_left 1 _

/-- The opcode pays for the instruction, and its immediates for what it lists. -/
theorem Operator.covers_immediates {op : Operator} {i : Instruction} {w : List UInt8}
    (h : op.Immediates i w) : i.count = 1 ∧ i.listed ≤ w.length := by
  cases h with
  | @brTable targets default u v htargets hdefault =>
    have hcount := covers_u32.counted_length.le htargets
    have hlast := covers_u32.le hdefault
    refine ⟨rfl, ?_⟩
    simp only [Instruction.listed, List.length_append]
    omega
  | @selectTyped types w htypes =>
    have hcount := ValueType.covers_form.counted_length.le htypes
    refine ⟨rfl, ?_⟩
    simp only [Instruction.listed]
    omega
  | _ => exact ⟨rfl, Nat.zero_le _⟩

theorem Instruction.covers_forms (l : List Instruction) {w : List UInt8} (h : Many Form l w) :
    Expression.weight l ≤ w.length := by
  match l with
  | [] => exact Nat.zero_le _
  | i :: rest =>
    obtain ⟨u, v, hi, hrest, rfl⟩ := many_cons_iff.mp h
    have hbehind := covers_forms rest hrest
    have hfirst : i.count + i.listed ≤ u.length := by
      cases hi with
      | @operator op i u v hcode himmediates =>
        have hcode := Opcode.covers_form.le hcode
        obtain ⟨hone, hlisted⟩ := Operator.covers_immediates himmediates
        rw [List.length_append]
        omega
      | @block kind type body u v htype hbody =>
        have hinside := covers_forms body hbody
        simp only [Expression.weight] at hinside
        simp only [count, listed, List.length_cons, List.length_append]
        omega
      | elseMark => exact Nat.le_refl 1
    simp only [Expression.weight, countAll, listedAll, List.length_append] at hbehind ⊢
    omega
termination_by sizeOf l

/-- The byte of the `end` is left over. -/
theorem Expression.covers_form (limits : DecoderLimits) :
    Covers (Form limits) fun e => 1 + e.weight := by
  rintro e w ⟨⟨u, hforms, rfl⟩, -, -⟩
  have hinside := Instruction.covers_forms e hforms
  simp only [List.length_append, List.length_singleton]
  omega

/-! ## Entries and sections -/

theorem FuncType.covers_form : Covers Form weight := by
  rintro t w ⟨u, v, hparams, hresults, rfl⟩
  have hu := ValueType.covers_form.counted_length.le hparams
  have hv := ValueType.covers_form.counted_length.le hresults
  rw [weight, List.length_cons, List.length_append]
  omega

theorem TableType.covers_form : Covers Form fun _ => 1 := by
  rintro t w ⟨u, v, ⟨helement, -⟩, -, rfl⟩
  rw [List.length_append]
  exact Nat.le_trans (ValueType.covers_form.le helement) (Nat.le_add_right _ _)

theorem Limits.covers_form : Covers Form fun _ => 1 := by
  intro pages w h
  cases h with
  | unbounded => exact Nat.le_add_left 1 _
  | bounded => exact Nat.le_add_left 1 _

section
variable (limits : DecoderLimits)

theorem Import.covers_form : Covers (Form limits) weight := by
  rintro i w ⟨t, u, v, hmodule, hname, -, rfl⟩
  have ht := (covers_name _).le hmodule
  have hu := (covers_name _).le hname
  rw [weight, List.length_append, List.length_append]
  omega

theorem Export.covers_form : Covers (Form limits) weight := by
  rintro e w ⟨u, v, hname, -, rfl⟩
  have hu := (covers_name _).le hname
  rw [weight, List.length_append]
  omega

theorem Global.covers_form : Covers (Form limits) weight := by
  rintro g w ⟨u, v, -, hinit, rfl⟩
  have hv := (Expression.covers_form limits).le hinit
  rw [weight, List.length_append]
  omega

theorem DataSegment.covers_form : Covers (Form limits) weight := by
  intro d w h
  cases h with
  | active hflags hoffset hbytes =>
    have hu := (Expression.covers_form limits).le hoffset
    have hv := (covers_bytes _).le hbytes
    simp only [weight, List.length_append]
    omega
  | passive hflags hbytes =>
    have hv := (covers_bytes _).le hbytes
    simp only [weight, Expression.weight, Instruction.countAll, Instruction.listedAll,
      List.length_append]
    omega
  | indexed hflags hindex hoffset hbytes =>
    have hu := (Expression.covers_form limits).le hoffset
    have hv := (covers_bytes _).le hbytes
    simp only [weight, List.length_append]
    omega

theorem CodeBody.covers_form : Covers (Form limits) weight := by
  rintro b w ⟨t, u, v, hsize, -, -, hbody, -, rfl⟩
  have hv := (Expression.covers_form limits).le hbody
  simp only [weight, List.length_append]
  omega

theorem CustomSection.covers_form : Covers (Form limits) weight := by
  rintro s w ⟨u, hname, -, rfl⟩
  have hu := (covers_name _).le hname
  rw [weight, List.length_append]
  omega

theorem Entry.covers_form (id : SectionId) : Covers (Form limits id) weight := by
  cases id with
  | custom => exact (CustomSection.covers_form limits).image fun _ => Nat.le_refl _
  | type => exact FuncType.covers_form.image fun _ => Nat.le_refl _
  | imports => exact (Import.covers_form limits).image fun _ => Nat.le_refl _
  | function => exact covers_u32.image fun _ => Nat.le_refl _
  | table => exact TableType.covers_form.image fun _ => Nat.le_refl _
  | memory => exact Limits.covers_form.image fun _ => Nat.le_refl _
  | global => exact (Global.covers_form limits).image fun _ => Nat.le_refl _
  | exports => exact (Export.covers_form limits).image fun _ => Nat.le_refl _
  | start => exact covers_u32.image fun _ => Nat.le_refl _
  | element => exact fun _ _ hno => hno.elim
  | code => exact (CodeBody.covers_form limits).image fun _ => Nat.le_refl _
  | data => exact (DataSegment.covers_form limits).image fun _ => Nat.le_refl _
  | dataCount => exact covers_u32.image fun _ => Nat.le_refl _

theorem Section.covers_payload (id : SectionId) :
    Covers (Payload limits id) fun entries => (entries.map Entry.weight).sum := by
  have hentry := Entry.covers_form limits id
  cases id with
  | custom | start | dataCount => exact hentry.image fun e => by simp
  | element =>
    rintro entries w rfl
    exact Nat.zero_le _
  | _ => exact fun entries w hl => Nat.le_trans (Nat.le_add_left _ 1) (hentry.counted entries w hl)

theorem Section.covers_form : Covers (Form limits) fun s => (s.entries.map Entry.weight).sum := by
  rintro s w ⟨payload, ⟨size, u, -, -, rfl⟩, hpayload⟩
  have hentries := (covers_payload limits _).le hpayload
  rw [List.length_cons, List.length_append]
  dsimp only
  omega

end

namespace WrittenSection
variable {limits : DecoderLimits}

theorem weight_entries_le (l : List (WrittenSection limits)) :
    ((l.flatMap fun x => x.content.entries).map Entry.weight).sum ≤ (bytesOf l).length := by
  induction l with
  | nil => exact Nat.le_refl 0
  | cons x l ih =>
    have hx := (Section.covers_form limits).le x.form
    rw [List.flatMap_cons, List.map_append, List.sum_append_nat, bytesOf_cons, List.length_append]
    exact Nat.add_le_add hx ih

theorem weight_moduleOf_le (l : List (WrittenSection limits)) :
    (moduleOf l).weight ≤ (moduleBytes l).length := by
  have hentries := weight_entries_le l
  have hmodule := Module.weight_ofEntries_le (l.flatMap fun x => x.content.entries)
  rw [moduleOf, moduleBytes, List.length_append]
  omega

end WrittenSection

/-! ## Locals -/

theorem Grammar.u32_byte {n : UInt32} (h : n.toNat < 128) : U32 n [UInt8.ofNat n.toNat] := by
  have hn := u32_ofNat n
  rwa [Leb128.ofNat, if_pos h] at hn

theorem Grammar.length_u32_le {n : UInt32} {w : List UInt8} (h : U32 n w) : w.length ≤ 5 :=
  Leb128.Unsigned.length_le h

/-- One group is written in a few bytes, however many locals it stands for. -/
theorem LocalsBuilder.exists_form (limits : DecoderLimits) :
    ∃ w, Form limits (List.replicate limits.maxLocals.toNat .i32) w ∧ w.length ≤ 7 := by
  have hcount := u32_ofNat limits.maxLocals
  have hgroup : GroupForm (limits.maxLocals, .i32) _ := ⟨_, hcount, rfl⟩
  refine ⟨_, ⟨[(limits.maxLocals, .i32)], ⟨1, _, _, u32_byte (by decide), rfl, .cons hgroup .nil, rfl⟩,
    by simp [expand], by simp⟩, ?_⟩
  have hlength := length_u32_le hcount
  simp only [List.length_append, List.length_singleton, List.length_nil]
  omega

theorem exists_toNat_eq {n : Nat} (h : n < 128) : ∃ size : UInt32, size.toNat = n :=
  ⟨UInt32.ofNat n, UInt32.toNat_ofNat_of_lt' (Nat.lt_of_lt_of_le h (by decide))⟩

theorem CodeBody.exists_form {limits : DecoderLimits} (h : 8 ≤ limits.maxPayloadSize.toNat) :
    ∃ b w, Form limits b w ∧ w.length ≤ 9 ∧ b.locals.length = limits.maxLocals.toNat := by
  obtain ⟨u, hlocals, hlength⟩ := LocalsBuilder.exists_form limits
  have hbody : Expression.Form limits [] [Instruction.endByte] :=
    ⟨⟨[], .nil, rfl⟩, ⟨rfl, trivial⟩, Nat.zero_le _⟩
  obtain ⟨size, hsize⟩ := exists_toNat_eq (n := u.length + 1) (by omega)
  have hbytes : U32 size [UInt8.ofNat size.toNat] := u32_byte (by omega)
  have hle : size ≤ limits.maxPayloadSize := UInt32.le_iff_toNat_le.mpr (by omega)
  refine ⟨⟨size, _, []⟩, _, ⟨_, u, _, hbytes, hle, hlocals, hbody, ?_, rfl⟩, ?_, List.length_replicate⟩
  · rw [hsize, List.length_append, List.length_singleton]
  · simp only [List.length_append, List.length_singleton]
    omega

/-- A body can have all the locals that the limit allows, in a module of a few bytes. -/
theorem exists_locals_eq_limit {limits : DecoderLimits} (h : 8 ≤ limits.maxPayloadSize.toNat) :
    ∃ bytes m, decodeModule limits bytes = .ok m ∧ bytes.length ≤ 20 ∧
      ∃ b ∈ m.code, b.locals.length = limits.maxLocals.toNat := by
  obtain ⟨b, w, hbody, hlength, hlocals⟩ := CodeBody.exists_form h
  obtain ⟨size, hsize⟩ := exists_toNat_eq (n := w.length + 1) (by omega)
  have hpayload : Section.Payload limits .code [.code b] ([1] ++ (w ++ [])) :=
    ⟨1, [1], _, u32_byte (by decide), rfl, .cons ⟨b, rfl, hbody⟩ .nil, rfl⟩
  have hframe : Section.Form limits ⟨.code, [.code b]⟩
      (SectionId.code.toByte :: ([UInt8.ofNat size.toNat] ++ ([1] ++ (w ++ [])))) :=
    ⟨_, ⟨size, _, u32_byte (by omega), by simp [hsize], rfl⟩, hpayload⟩
  refine ⟨_, _, WrittenSection.decodeModule_eq_ok_iff_moduleBytes.mpr ⟨[⟨_, _, hframe⟩], rfl, rfl⟩, ?_,
    b, ?_, hlocals⟩
  · have hheader : header.length = 8 := rfl
    simp only [WrittenSection.moduleBytes, WrittenSection.bytesOf, List.flatMap_cons,
      List.flatMap_nil, List.length_append, List.length_cons, List.length_nil]
    omega
  · exact List.mem_singleton_self b

/-- No amplification: a module weighs no more than the input. Its locals are the exception, a few bytes
can stand for all that the limit allows, but no body has more than these. -/
theorem decodeModule_weight_le :
    (∀ limits bytes m, decodeModule limits bytes = .ok m →
      m.weight ≤ bytes.length ∧ ∀ b ∈ m.code, b.locals.length ≤ limits.maxLocals.toNat) ∧
    ∀ limits : DecoderLimits, 8 ≤ limits.maxPayloadSize.toNat → ∃ bytes m,
      decodeModule limits bytes = .ok m ∧ bytes.length ≤ 20 ∧
        ∃ b ∈ m.code, b.locals.length = limits.maxLocals.toNat := by
  refine ⟨fun limits bytes m h => ?_, fun _ => exists_locals_eq_limit⟩
  obtain ⟨l, rfl, rfl⟩ := WrittenSection.decodeModule_eq_ok_iff_moduleBytes.mp h
  exact ⟨WrittenSection.weight_moduleOf_le l,
    fun b hb => ((WrittenSection.respects_moduleOf l).code b hb).2.1⟩

/-- A body with a hundred locals and a table of branches inside a block, and a custom section. -/
theorem decodeModule_weight_le_branches :
    let bytes := header ++ [1, 6, 1, 0x60, 1, 0x7F, 1, 0x7F,
      10, 16, 1, 14, 1, 100, 0x7F, 0x02, 0x40, 0x20, 0, 0x0E, 2, 0, 1, 0, 0x0B, 0x0B,
      0, 4, 1, 0x78, 7, 7]
    let m : Module := {
      types := [⟨[.i32], [.i32]⟩]
      code := [⟨14, List.replicate 100 .i32,
        [.block .block .empty [.indexed .localGet 0, .brTable [0, 1] 0]]⟩]
      customSections := [⟨"x", [7, 7]⟩] }
    decodeModule {} bytes = .ok m ∧ m.weight = 14 ∧ m.weight ≤ bytes.length ∧
      ∀ b ∈ m.code, bytes.length < b.locals.length ∧ b.locals.length ≤ 50000 := by
  intro bytes m
  have hsteps : (Decoder.new {}).steps? (Cursor.whole bytes) 12 =
      some (⟨{}, .sectionStart, m⟩, ⟨40, []⟩) := by decide +kernel
  have hm : decodeModule {} bytes = .ok m := decodeModule_of_steps? hsteps
  obtain ⟨hweight, hlocals⟩ := decodeModule_weight_le.1 {} bytes m hm
  refine ⟨hm, by decide, hweight, fun b hb => ⟨?_, hlocals b hb⟩⟩
  obtain rfl := List.mem_singleton.mp hb
  decide

end WasmStream
