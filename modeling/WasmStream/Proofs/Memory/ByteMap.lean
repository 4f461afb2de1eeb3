import WasmStream.Value
import WasmStream.Proofs.Memory.Accounting
import WasmStream.Proofs.Word

/-! A memory as a map from addresses to bytes. However writes of different widths overlap, and growths
and refused writes come between them, a read shows the byte that was last written to each of its
addresses, and zero where none was. -/
namespace WasmStream

namespace HostType

/-- The number of bytes that a number of the type takes. -/
def width : HostType → UInt32
  | i32 | f32 => 4
  | i64 | f64 => 8

/-- The bits of a number; of an integer, those of its two's complement. -/
def toBits : (t : HostType) → t.Carrier → Nat
  | i32, v => v.toUInt32.toNat
  | i64, v => v.toUInt64.toNat
  | f32, bits => bits.toNat
  | f64, bits => bits.toNat

def ofBits : (t : HostType) → Nat → t.Carrier
  | i32, n => (UInt32.ofNat n).toInt32
  | i64, n => (UInt64.ofNat n).toInt64
  | f32, n => UInt32.ofNat n
  | f64, n => UInt64.ofNat n

@[simp] theorem ofBits_toBits (t : HostType) (v : t.Carrier) : t.ofBits (t.toBits v) = v := by
  cases t <;> simp [ofBits, toBits]

theorem toBits_lt (t : HostType) (v : t.Carrier) : t.toBits v < 256 ^ t.width.toNat := by
  cases t with
  | i32 => exact v.toUInt32.toNat_lt
  | i64 => exact v.toUInt64.toNat_lt
  | f32 => exact UInt32.toNat_lt v
  | f64 => exact UInt64.toNat_lt v

end HostType

namespace Memory

def load (m : Memory) : (t : HostType) → (address : UInt32) → Except Error t.Carrier
  | .i32, address => m.loadI32 address
  | .i64, address => m.loadI64 address
  | .f32, address => m.loadF32 address
  | .f64, address => m.loadF64 address

def store (m : Memory) : (t : HostType) → (address : UInt32) → t.Carrier → Except Error Memory
  | .i32, address, v => m.storeI32 address v
  | .i64, address, v => m.storeI64 address v
  | .f32, address, v => m.storeF32 address v
  | .f64, address, v => m.storeF64 address v

/-- What is answered about a range: the value, if the range is inside the memory. -/
def within {α : Type} (m : Memory) (address length : Nat) (a : α) : Except Error α :=
  if address + length ≤ m.size then .ok a else .error (.outOfBounds address length m.size)

/-- The bytes that a map has for a range. -/
def bytesOf (byte : Nat → UInt8) (address length : Nat) : List UInt8 :=
  (List.range' address length).map byte

/-- Bytes to be written from an address on. -/
structure Patch where
  address : UInt32
  bytes : List UInt8

namespace Patch

def Covers (p : Patch) (a : Nat) : Prop :=
  p.address.toNat ≤ a ∧ a < p.address.toNat + p.bytes.length

/-- The byte that is put at an address, if one is. -/
def byte? (p : Patch) (a : Nat) : Option UInt8 :=
  if p.address.toNat ≤ a then p.bytes[a - p.address.toNat]? else none

theorem byte?_add {p : Patch} {i : Nat} (h : i < p.bytes.length) :
    p.byte? (p.address.toNat + i) = some p.bytes[i] := by
  simp [byte?, h]

theorem byte?_of_covers {p : Patch} {a : Nat} (h : p.Covers a) :
    p.byte? a = some (p.bytes[a - p.address.toNat]?.getD 0) := by
  have hlow := h.1
  have hhigh := h.2
  have hindex : a - p.address.toNat < p.bytes.length := by omega
  simp [byte?, hlow, hindex]

theorem byte?_of_not_covers {p : Patch} {a : Nat} (h : ¬p.Covers a) : p.byte? a = none := by
  by_cases hlow : p.address.toNat ≤ a
  · have hhigh : ¬a < p.address.toNat + p.bytes.length := fun hlt => h ⟨hlow, hlt⟩
    have hindex : p.bytes.length ≤ a - p.address.toNat := by omega
    simp [byte?, hlow, hindex]
  · simp [byte?, hlow]

end Patch

/-- What the patches, the earliest one first, have put at an address last. -/
def lastByte? (patches : List Patch) (a : Nat) : Option UInt8 :=
  patches.reverse.findSome? (·.byte? a)

/-- The bytes that an operation asks to be written. A mutable view hands over the bytes that are
there. -/
def Operation.patch? (m : Memory) : Operation → Option Patch
  | .grow .. => none
  | .write address bytes => some ⟨address, bytes⟩
  | .storeI32 address v => some ⟨address, toLittleEndian 4 v.toUInt32.toNat⟩
  | .storeI64 address v => some ⟨address, toLittleEndian 8 v.toUInt64.toNat⟩
  | .storeF32 address bits => some ⟨address, toLittleEndian 4 bits.toNat⟩
  | .storeF64 address bits => some ⟨address, toLittleEndian 8 bits.toNat⟩
  | .modify address length change => some ⟨address,
      (change (Vector.ofFn fun i : Fin length.toNat => m.byteAt (address.toNat + i))).toList⟩

/-- The answer to an operation; a growth that is refused is no error. -/
def answer (m : Memory) : Operation → Except Error Memory
  | .grow host delta => .ok (m.growOn host delta).2
  | .write address bytes => m.write address bytes
  | .storeI32 address v => m.storeI32 address v
  | .storeI64 address v => m.storeI64 address v
  | .storeF32 address bits => m.storeF32 address bits
  | .storeF64 address bits => m.storeF64 address bits
  | .modify address length change => m.modify address length change

/-- The bytes that an operation has written: none if it was refused. -/
def written (m : Memory) (operation : Operation) : List Patch :=
  match operation.patch? m, m.answer operation with
  | some p, .ok _ => [p]
  | _, _ => []

/-- All that was written by some operations, one after the other. -/
def log (m : Memory) : List Operation → List Patch
  | [] => []
  | operation :: rest => m.written operation ++ log (m.perform operation) rest

/-! ## The last byte -/

variable {m after : Memory} {a : Nat} {p : Patch} {operation : Operation}
variable {t : HostType} {address : UInt32} {v : t.Carrier}

@[simp] theorem lastByte?_nil (a : Nat) : lastByte? [] a = none := rfl

theorem lastByte?_append (first second : List Patch) (a : Nat) :
    lastByte? (first ++ second) a = (lastByte? second a).or (lastByte? first a) := by
  simp [lastByte?, List.findSome?_append]

@[simp] theorem lastByte?_singleton (p : Patch) (a : Nat) : lastByte? [p] a = p.byte? a := by
  cases h : p.byte? a <;> simp [lastByte?, h]

theorem lastByte?_eq_none {patches : List Patch} (h : ∀ p ∈ patches, ¬p.Covers a) :
    lastByte? patches a = none := by
  rw [lastByte?, List.findSome?_eq_none_iff]
  intro p hp
  exact Patch.byte?_of_not_covers (h p (List.mem_reverse.mp hp))

/-! ## One operation -/

theorem perform_eq_answer (m : Memory) (operation : Operation) :
    m.perform operation = (m.answer operation).toOption.getD m := by
  cases operation <;> rfl

/-- Whatever asks for bytes to be written is a write of these bytes. -/
theorem answer_eq_write (h : operation.patch? m = some p) :
    m.answer operation = m.write p.address p.bytes := by
  cases operation with
  | grow host delta => cases h
  | modify address length change =>
    cases h
    exact modify_eq_write ..
  | write | storeI32 | storeI64 | storeF32 | storeF64 =>
    cases h
    rfl

theorem write_eq_within (h : p.bytes.length < UInt32.size) :
    m.write p.address p.bytes = m.within p.address.toNat p.bytes.length
      { m with data := overwrite m.data p.address.toNat p.bytes } := by
  simp [write_eq, within, h]

theorem size_of_write (h : m.write p.address p.bytes = .ok after) : after.size = m.size := by
  rw [write_eq] at h
  split at h <;> cases h
  exact size_overwrite ..

theorem byteAt_of_write (h : m.write p.address p.bytes = .ok after) (a : Nat) :
    after.byteAt a = (p.byte? a).getD (m.byteAt a) := by
  rw [write_eq] at h
  split at h
  case isFalse => contradiction
  case isTrue hfits =>
    cases h
    have hbytes := byteOf_overwrite m.data p.address.toNat p.bytes a hfits.2
    by_cases hcovers : p.Covers a
    · rw [Patch.byte?_of_covers hcovers, Option.getD_some]
      exact hbytes.trans (if_pos hcovers)
    · rw [Patch.byte?_of_not_covers hcovers, Option.getD_none]
      exact hbytes.trans (if_neg hcovers)

theorem byteAt_add_of_write (h : m.write p.address p.bytes = .ok after) {i : Nat}
    (hi : i < p.bytes.length) : after.byteAt (p.address.toNat + i) = p.bytes[i] := by
  rw [byteAt_of_write h, Patch.byte?_add hi, Option.getD_some]

theorem byteAt_growOn (m : Memory) (host : Host) (delta : Int32) (a : Nat) :
    (m.growOn host delta).2.byteAt a = m.byteAt a := by
  unfold growOn
  split
  · rfl
  · split
    · rfl
    · dsimp only
      split
      · simp [byteAt]
      · rfl

theorem size_le_growOn (m : Memory) (host : Host) (delta : Int32) :
    m.size ≤ (m.growOn host delta).2.size := by
  unfold growOn
  split
  · exact Nat.le_refl _
  · split
    · exact Nat.le_refl _
    · dsimp only
      split
      · simp [size]
      · exact Nat.le_refl _

/-- After an operation each byte is the one that it has written, or else the one that was there. -/
theorem byteAt_perform (m : Memory) (operation : Operation) (a : Nat) :
    (m.perform operation).byteAt a = (lastByte? (m.written operation) a).getD (m.byteAt a) := by
  cases hpatch : operation.patch? m with
  | none =>
    obtain ⟨host, delta, rfl⟩ : ∃ host delta, operation = .grow host delta := by
      cases operation <;> first | exact ⟨_, _, rfl⟩ | cases hpatch
    exact byteAt_growOn m host delta a
  | some p =>
    have hwrite := answer_eq_write hpatch
    cases hanswer : m.answer operation with
    | error e => simp [perform_eq_answer, written, hpatch, hanswer, Except.toOption]
    | ok after =>
      rw [hanswer] at hwrite
      simp only [perform_eq_answer, written, hpatch, hanswer, lastByte?_singleton]
      exact byteAt_of_write hwrite.symm a

theorem size_le_perform (m : Memory) (operation : Operation) :
    m.size ≤ (m.perform operation).size := by
  rcases m.perform_eq operation with ⟨host, delta, rfl⟩ | ⟨address, bytes, heq⟩
  · exact size_le_growOn m host delta
  · rw [heq]
    cases hwrite : m.write address bytes with
    | error e => exact Nat.le_refl _
    | ok after => exact Nat.le_of_eq (size_of_write (p := ⟨address, bytes⟩) hwrite).symm

/-! ## Runs -/

theorem byteAt_run (m : Memory) (operations : List Operation) (a : Nat) :
    (m.run operations).byteAt a = (lastByte? (m.log operations) a).getD (m.byteAt a) := by
  induction operations generalizing m with
  | nil => rfl
  | cons operation rest ih =>
    have hrest := ih (m.perform operation)
    rw [byteAt_perform] at hrest
    rw [log, lastByte?_append, Option.getD_or]
    exact hrest

theorem size_le_run (m : Memory) (operations : List Operation) : m.size ≤ (m.run operations).size := by
  induction operations generalizing m with
  | nil => exact Nat.le_refl _
  | cons operation rest ih => exact Nat.le_trans (m.size_le_perform operation) (ih _)

/-! ## Reads -/

theorem view_eq_within (m : Memory) (address length : UInt32) :
    m.view address length = m.within address.toNat length.toNat
      (bytesOf m.byteAt address.toNat length.toNat) := by
  unfold view check within
  split <;> rfl

theorem loadNat_bind {α : Type} (m : Memory) (width address : UInt32) (f : Nat → α) :
    (do return f (← m.loadNat width address)) =
      (m.view address width).map fun bytes => f (ofLittleEndian bytes) := by
  unfold loadNat
  cases m.view address width <;> rfl

theorem load_eq (m : Memory) (t : HostType) (address : UInt32) :
    m.load t address = (m.view address t.width).map fun bytes => t.ofBits (ofLittleEndian bytes) := by
  cases t <;> exact loadNat_bind m _ address _

theorem load_eq_within (m : Memory) (t : HostType) (address : UInt32) :
    m.load t address = m.within address.toNat t.width.toNat
      (t.ofBits (ofLittleEndian (bytesOf m.byteAt address.toNat t.width.toNat))) := by
  rw [load_eq, view_eq_within]
  unfold within
  split <;> rfl

theorem store_eq_write (m : Memory) (t : HostType) (address : UInt32) (v : t.Carrier) :
    m.store t address v = m.write address (toLittleEndian t.width.toNat (t.toBits v)) := by
  cases t <;> rfl

/-- Bytes that are in their places are read back. -/
theorem bytesOf_eq {byte : Nat → UInt8} {address length : Nat} {bytes : List UInt8}
    (hlength : bytes.length = length)
    (h : ∀ i (hi : i < bytes.length), byte (address + i) = bytes[i]) :
    bytesOf byte address length = bytes := by
  subst hlength
  refine List.ext_getElem (by simp [bytesOf]) fun i hi hi' => ?_
  simpa [bytesOf] using h i hi'

/-- Bytes that were written stay in their places until something is written over them. -/
theorem bytesOf_run_of_write (h : m.write p.address p.bytes = .ok after) (later : List Operation)
    (hkept : ∀ q ∈ after.log later, ∀ i < p.bytes.length, ¬q.Covers (p.address.toNat + i)) :
    p.address.toNat + p.bytes.length ≤ (after.run later).size ∧
      bytesOf (after.run later).byteAt p.address.toNat p.bytes.length = p.bytes := by
  have hsize := size_of_write h
  have hgrows := after.size_le_run later
  constructor
  · rw [write_eq] at h
    split at h
    case isFalse => contradiction
    case isTrue hin => omega
  · refine bytesOf_eq rfl fun i hi => ?_
    have hlast : lastByte? (after.log later) (p.address.toNat + i) = none :=
      lastByte?_eq_none fun q hq => hkept q hq i hi
    rw [byteAt_run, hlast, Option.getD_none]
    exact byteAt_add_of_write h hi

/-- A number that was stored is loaded as it was, until something is written over it. -/
theorem load_run_of_store (h : m.store t address v = .ok after) (later : List Operation)
    (hkept : ∀ p ∈ after.log later, ∀ i < t.width.toNat, ¬p.Covers (address.toNat + i)) :
    (after.run later).load t address = .ok v := by
  have hlength : (toLittleEndian t.width.toNat (t.toBits v)).length = t.width.toNat :=
    length_toLittleEndian ..
  rw [store_eq_write] at h
  rw [← hlength] at hkept
  obtain ⟨hfits, hbytes⟩ := bytesOf_run_of_write (p := ⟨address, _⟩) h later hkept
  dsimp only at hfits hbytes
  rw [hlength] at hfits hbytes
  rw [load_eq_within, hbytes, ofLittleEndian_toLittleEndian, Nat.mod_eq_of_lt (t.toBits_lt v),
    t.ofBits_toBits, within, if_pos hfits]

/-! ## The map -/

/-- What comes of an operation that asks for bytes to be written: if their places are all inside the
memory, they are there and every other byte is what it was; if not, nothing has changed. -/
structure Writes (m : Memory) (operation : Operation) (p : Patch) : Prop where
  answer_eq : m.answer operation = m.within p.address.toNat p.bytes.length (m.perform operation)
  size_eq : (m.perform operation).size = m.size
  refused : m.size < p.address.toNat + p.bytes.length → m.perform operation = m
  covered : p.address.toNat + p.bytes.length ≤ m.size →
    ∀ i (hi : i < p.bytes.length), (m.perform operation).byteAt (p.address.toNat + i) = p.bytes[i]
  kept : ∀ a, ¬p.Covers a → (m.perform operation).byteAt a = m.byteAt a

/-- A memory reads and writes as a map from addresses to bytes does, inside its size. -/
structure ByteMap (m : Memory) (byte : Nat → UInt8) : Prop where
  view : ∀ address length, m.view address length =
    m.within address.toNat length.toNat (bytesOf byte address.toNat length.toNat)
  load : ∀ t address, m.load t address = m.within address.toNat t.width.toNat
    (t.ofBits (ofLittleEndian (bytesOf byte address.toNat t.width.toNat)))
  modify : ∀ address length change, m.modify address length change = m.write address
    (change (Vector.ofFn fun i : Fin length.toNat => byte (address.toNat + i))).toList
  write : ∀ operation p, operation.patch? m = some p → p.bytes.length < UInt32.size →
    m.Writes operation p
  load_store : ∀ t address v after, m.store t address v = .ok after → ∀ later,
    (∀ p ∈ after.log later, ∀ i < t.width.toNat, ¬p.Covers (address.toNat + i)) →
    (after.run later).load t address = .ok v

theorem writes (hpatch : operation.patch? m = some p) (hlength : p.bytes.length < UInt32.size) :
    m.Writes operation p := by
  have hanswer := answer_eq_write hpatch
  have hperform : m.perform operation = (m.write p.address p.bytes).toOption.getD m := by
    rw [perform_eq_answer, hanswer]
  -- by where the patch is to go, not by the kind of the operation: all of them are writes
  by_cases hin : p.address.toNat + p.bytes.length ≤ m.size
  · have hwrite : m.write p.address p.bytes = .ok (m.perform operation) := by
      rw [hperform, write_eq_within hlength, within, if_pos hin]
      rfl
    exact {
      answer_eq := by rw [hanswer, hwrite, within, if_pos hin]
      size_eq := size_of_write hwrite
      refused := fun hout => absurd hin (Nat.not_le_of_lt hout)
      covered := fun _ _ hi => byteAt_add_of_write hwrite hi
      kept := fun a ha => by
        rw [byteAt_of_write hwrite, Patch.byte?_of_not_covers ha, Option.getD_none] }
  · have hwrite : m.write p.address p.bytes =
        .error (.outOfBounds p.address.toNat p.bytes.length m.size) := by
      rw [write_eq_within hlength, within, if_neg hin]
    have hsame : m.perform operation = m := by
      rw [hperform, hwrite]
      rfl
    exact {
      answer_eq := by rw [hanswer, hwrite, within, if_neg hin]
      size_eq := by rw [hsame]
      refused := fun _ => hsame
      covered := fun h => absurd h hin
      kept := fun a _ => by rw [hsame] }

theorem byteMap_byteAt (m : Memory) : m.ByteMap m.byteAt where
  view := m.view_eq_within
  load := m.load_eq_within
  modify := m.modify_eq_write
  write _ _ := writes
  load_store _ _ _ _ := load_run_of_store

theorem byteAt_of_newOn {host : Host} {initial maximum : UInt32} {start : Memory}
    (h : newOn host initial maximum = .ok start) (a : Nat) : start.byteAt a = 0 := by
  unfold newOn at h
  split at h
  · cases h
  · split at h
    · cases h
      change byteOf (extend .empty _) a = 0
      rw [byteOf_extend]
      rfl
    · cases h

/-- Whatever was written to a memory since it was made, and however it has grown, it is the map of
the last bytes that were written, with zeros where none were. -/
theorem run_byteMap (host : Host) (initial maximum : UInt32) (start : Memory)
    (h : newOn host initial maximum = .ok start) (operations : List Operation) :
    (start.run operations).ByteMap fun a => (lastByte? (start.log operations) a).getD 0 := by
  have hbyte : (start.run operations).byteAt =
      fun a => (lastByte? (start.log operations) a).getD 0 := by
    funext a
    rw [byteAt_run, byteAt_of_newOn h]
  rw [← hbyte]
  exact byteMap_byteAt _

theorem written_eq (hpatch : operation.patch? m = some p) (hlength : p.bytes.length < UInt32.size)
    (hin : p.address.toNat + p.bytes.length ≤ m.size) : m.written operation = [p] := by
  have hanswer := (writes hpatch hlength).answer_eq
  rw [within, if_pos hin] at hanswer
  rw [written, hpatch, hanswer]

theorem newOn_of_le (host : Host) (initial maximum : UInt32) (hle : ¬maximum < initial)
    (hroom : host initial.toNat = true) : newOn host initial maximum =
      .ok ⟨extend .empty (initial.toNat * pageSize), initial, maximum⟩ := by
  rw [newOn, if_neg hle, if_pos hroom]

/-- The last four bytes of a page: a number, then a byte over its highest one, then a second page. -/
theorem run_byteMap_page :
    newOn .roomy 1 2 = .ok ⟨extend .empty ((1 : UInt32).toNat * pageSize), 1, 2⟩ ∧
      (run ⟨extend .empty ((1 : UInt32).toNat * pageSize), 1, 2⟩ [.storeF32 65532 0x7FA00001,
        .write 65535 [0x41], .grow .roomy 1]).loadF32 65532 = .ok 0x41A00001 := by
  have hstart : newOn .roomy 1 2 = .ok ⟨extend .empty ((1 : UInt32).toNat * pageSize), 1, 2⟩ :=
    newOn_of_le .roomy 1 2 (by decide) rfl
  generalize hpage : (⟨extend .empty ((1 : UInt32).toNat * pageSize), 1, 2⟩ : Memory) = start
    at hstart ⊢
  have hsize : start.size = 65536 := by
    subst hpage
    simp [size, pageSize]
  have hstored : (start.perform (.storeF32 65532 0x7FA00001)).size = 65536 :=
    (writes rfl (by decide)).size_eq.trans hsize
  have hlog : start.log [.storeF32 65532 0x7FA00001, .write 65535 [0x41], .grow .roomy 1] =
      [⟨65532, [0x01, 0x00, 0xA0, 0x7F]⟩, ⟨65535, [0x41]⟩] := by
    rw [log, log, log, log, written_eq rfl (by decide) (by rw [hsize]; decide),
      written_eq rfl (by decide) (by rw [hstored]; decide)]
    rfl
  have hload := (run_byteMap _ _ _ start hstart [.storeF32 65532 0x7FA00001, .write 65535 [0x41],
    .grow .roomy 1]).load .f32 65532
  have hin := Nat.le_trans (Nat.le_of_eq hsize.symm) (start.size_le_run [.storeF32 65532 0x7FA00001,
    .write 65535 [0x41], .grow .roomy 1])
  rw [hlog, within] at hload
  exact ⟨hstart, hload.trans (if_pos hin)⟩

end Memory
end WasmStream
