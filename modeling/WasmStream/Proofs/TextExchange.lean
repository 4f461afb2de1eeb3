import WasmStream.Binding
import WasmStream.Proofs.Memory.ByteMap
import WasmStream.Proofs.WideText

/-! Texts between a module and its host. A text is read out of its encoding and out of nothing else, so
that one which was written to a memory comes back from there, whether its place is given as an address
and a length or packed into one number. -/
namespace WasmStream

theorem mapError_eq_ok_iff {ε ε' α : Type} {x : Except ε α} {f : ε → ε'} {a : α} :
    x.mapError f = .ok a ↔ x = .ok a := by
  cases x with
  | ok b =>
    change (Except.ok b : Except ε' α) = .ok a ↔ _
    rw [Except.ok.injEq, Except.ok.injEq]
  | error cause =>
    change Except.error (f cause) = .ok a ↔ _
    simp

theorem mapError_eq_error_iff {ε ε' α : Type} {x : Except ε α} {f : ε → ε'} {error : ε'} :
    x.mapError f = .error error ↔ ∃ cause, x = .error cause ∧ f cause = error := by
  cases x with
  | ok b =>
    change Except.ok b = .error error ↔ _
    simp
  | error cause =>
    change (Except.error (f cause) : Except ε' α) = .error error ↔ _
    simp

namespace StringSpan
variable {s : StringSpan} {m after : Memory} {bytes : List UInt8} {e : StringEncoding} {text : List Char}

/-! ## Packing -/

theorem toNat_packed (s : StringSpan) :
    s.packed.toUInt64.toNat = s.length.toNat * 2 ^ 32 + s.offset.toNat := by
  have hlength := s.length.toNat_lt
  have hoffset := s.offset.toNat_lt
  have hshift : (s.length.toUInt64 <<< 32).toNat = s.length.toNat * 2 ^ 32 := by
    rw [UInt64.toNat_shiftLeft, UInt32.toNat_toUInt64]
    have hcount : (32 : UInt64).toNat % 64 = 32 := rfl
    rw [hcount, Nat.shiftLeft_eq, Nat.mod_eq_of_lt (by omega)]
  have hsum := Nat.two_pow_add_eq_or_of_lt hoffset s.length.toNat
  rw [packed, Int64.toUInt64, UInt64.toInt64]
  rw [UInt64.toNat_or, hshift, UInt32.toNat_toUInt64, Nat.mul_comm, ← hsum]

/-- The halves of the bits. -/
theorem ofPacked_toNat (p : Int64) :
    (ofPacked p).offset.toNat = p.toUInt64.toNat % 2 ^ 32 ∧
      (ofPacked p).length.toNat = p.toUInt64.toNat / 2 ^ 32 := by
  have hbits := p.toUInt64.toNat_lt
  have hhigh : (p.toUInt64 >>> 32).toNat = p.toUInt64.toNat / 2 ^ 32 := by
    rw [UInt64.toNat_shiftRight]
    exact Nat.shiftRight_eq_div_pow p.toUInt64.toNat 32
  have hlength : (p.toUInt64 >>> 32).toUInt32.toNat = p.toUInt64.toNat / 2 ^ 32 := by
    rw [UInt64.toNat_toUInt32, hhigh]
    omega
  exact ⟨UInt64.toNat_toUInt32 _, hlength⟩

theorem ofPacked_packed (s : StringSpan) : ofPacked s.packed = s := by
  have hoffset := s.offset.toNat_lt
  obtain ⟨hlow, hhigh⟩ := ofPacked_toNat s.packed
  rw [toNat_packed] at hlow hhigh
  have hsame {t : StringSpan} (hoffset : t.offset.toNat = s.offset.toNat)
      (hlength : t.length.toNat = s.length.toNat) : t = s := by
    cases t
    cases s
    rw [StringSpan.mk.injEq]
    exact ⟨UInt32.toNat_inj.mp hoffset, UInt32.toNat_inj.mp hlength⟩
  exact hsame (by omega) (by omega)

theorem packed_ofPacked (p : Int64) : (ofPacked p).packed = p := by
  obtain ⟨hlow, hhigh⟩ := ofPacked_toNat p
  have hbits : (ofPacked p).packed.toUInt64 = p.toUInt64 := by
    rw [← UInt64.toNat_inj, toNat_packed, hlow, hhigh]
    omega
  rw [← Int64.toInt64_toUInt64 (ofPacked p).packed, hbits, Int64.toInt64_toUInt64]

/-! ## Bytes in memory -/

/-- The bytes are those at the place of the span. -/
structure Holds (s : StringSpan) (m : Memory) (bytes : List UInt8) : Prop where
  inside : s.offset.toNat + s.length.toNat ≤ m.size
  bytes_eq : Memory.bytesOf m.byteAt s.offset.toNat s.length.toNat = bytes

theorem view_eq_ok_iff : m.view s.offset s.length = .ok bytes ↔ s.Holds m bytes := by
  rw [Memory.view_eq_within, Memory.within]
  constructor
  · intro h
    split at h
    · next hinside => exact ⟨hinside, Except.ok.inj h⟩
    · cases h
  · intro h
    rw [if_pos h.inside, h.bytes_eq]

/-- Bytes that were written stand where they were written, until something is written over them. -/
theorem holds_of_write {address : UInt32} (h : m.write address bytes = .ok after)
    (later : List Memory.Operation)
    (hkept : ∀ p ∈ after.log later, ∀ i < bytes.length, ¬p.Covers (address.toNat + i)) :
    Holds ⟨address, UInt32.ofNat bytes.length⟩ (after.run later) bytes := by
  obtain ⟨hinside, hbytes⟩ := Memory.bytesOf_run_of_write (p := ⟨address, bytes⟩) h later hkept
  rw [Memory.write_eq] at h
  split at h
  case isFalse => contradiction
  case isTrue hfits =>
    have hlength : (UInt32.ofNat bytes.length).toNat = bytes.length :=
      UInt32.toNat_ofNat_of_lt' hfits.1
    constructor
    · rwa [hlength]
    · rwa [hlength]

end StringSpan

namespace StringEncoding
variable {e : StringEncoding} {bytes : List UInt8} {text : List Char}

/-! ## Decoding -/

theorem decode_eq_ok_iff : e.decode bytes = .ok text ↔ bytes = e.encode text := by
  cases e with
  | utf8 => exact mapError_eq_ok_iff.trans Utf8.decode_eq_ok_iff
  | utf16 =>
    rw [encode, ← Utf16.decode_iff, decode]
    cases Utf16.units? bytes <;> simp [mapError_eq_ok_iff]
  | utf32 =>
    rw [encode, ← Utf32.decode_iff, decode]
    cases Utf32.units? bytes <;> simp [mapError_eq_ok_iff]

/-- Decoding fails in one way only. -/
theorem invalidEncoding_of_decode {error : Error} (h : e.decode bytes = .error error) :
    ∃ detail, error = .invalidEncoding e.name detail := by
  have hmap {ε α : Type} {x : Except ε α} {f : ε → String}
      (h : x.mapError (fun cause => Error.invalidEncoding e.name (f cause)) = .error error) :
      ∃ detail, error = .invalidEncoding e.name detail := by
    obtain ⟨cause, -, rfl⟩ := mapError_eq_error_iff.mp h
    exact ⟨f cause, rfl⟩
  cases e with
  | utf8 => exact hmap h
  | utf16 =>
    rw [decode] at h
    split at h
    · cases h
      exact ⟨_, rfl⟩
    · exact hmap h
  | utf32 =>
    rw [decode] at h
    split at h
    · cases h
      exact ⟨_, rfl⟩
    · exact hmap h

theorem read_eq_ok_iff {s : StringSpan} {m : Memory} :
    s.read m e = .ok text ↔ s.Holds m (e.encode text) := by
  have hview : m.view s.offset s.length = .ok (e.encode text) ↔ s.Holds m (e.encode text) :=
    StringSpan.view_eq_ok_iff
  rw [← hview, StringSpan.read, Memory.readString]
  cases m.view s.offset s.length with
  | error error => simp [bind, Except.bind]
  | ok found => simp [bind, Except.bind, decode_eq_ok_iff]

end StringEncoding

/-- A handle reads the text at the span that the function answers with, out of the memory that it has
left behind. -/
theorem StringFunction.call_of_packed {params : List HostType} {σ : Type} {f : StringFunction params}
    {x : Executor σ} {a : Arguments params} {state next : σ} {m : Memory} {span : StringSpan}
    (hcall : x.call f.inner.index (Arguments.toValues params a) state =
      (.ok [.i64 span.packed], next)) (hmemory : x.memory next = some m) :
    f.call x a state = (span.read m f.encoding, next) := by
  have hinner : f.inner.call x a state = (.ok span.packed, next) := by
    rw [TypedFunction.call, hcall]
    rfl
  rw [call, hinner]
  simp only [hmemory, StringSpan.ofPacked_packed]

namespace StringEncoding

/-- Bytes are decoded to a text if and only if they are its encoding, wherever they come from. -/
structure Exact (e : StringEncoding) : Prop where
  decode_iff : ∀ bytes text, e.decode bytes = .ok text ↔ bytes = e.encode text
  rejected : ∀ bytes, (∀ text, bytes ≠ e.encode text) →
    ∃ error, e.decode bytes = .error error ∧ error.code = Code.invalidEncoding
  decode_encode : ∀ text, e.decode (e.encode text) = .ok text
  injective : ∀ bytes other text, e.decode bytes = .ok text → e.decode other = .ok text →
    bytes = other
  read_iff : ∀ (s : StringSpan) m text, s.read m e = .ok text ↔ s.Holds m (e.encode text)
  /-- What was written is read, until something is written over it. -/
  read_written : ∀ (m after : Memory) address text, m.write address (e.encode text) = .ok after →
    ∀ later, (∀ p ∈ after.log later, ∀ i < (e.encode text).length, ¬p.Covers (address.toNat + i)) →
    (after.run later).readString address (UInt32.ofNat (e.encode text).length) e = .ok text
  /-- A function answers with a text by the packed span of its encoding. -/
  call_packed : ∀ {σ : Type} {params} (f : StringFunction params) (x : Executor σ) a state next m
    (span : StringSpan) text, f.encoding = e →
    x.call f.inner.index (Arguments.toValues params a) state = (.ok [.i64 span.packed], next) →
    x.memory next = some m → span.Holds m (e.encode text) → f.call x a state = (.ok text, next)

theorem exact (e : StringEncoding) : e.Exact where
  decode_iff _ _ := decode_eq_ok_iff
  rejected bytes h := by
    cases hdecode : e.decode bytes with
    | ok text => exact absurd (decode_eq_ok_iff.mp hdecode) (h text)
    | error error =>
      obtain ⟨detail, rfl⟩ := invalidEncoding_of_decode hdecode
      exact ⟨_, rfl, rfl⟩
  decode_encode _ := decode_eq_ok_iff.mpr rfl
  injective bytes other text h hother := by
    rw [decode_eq_ok_iff.mp h, decode_eq_ok_iff.mp hother]
  read_iff _ _ _ := read_eq_ok_iff
  read_written m after address text h later hkept :=
    read_eq_ok_iff.mpr (StringSpan.holds_of_write h later hkept)
  call_packed f x a state next m span text hencoding hcall hmemory hholds := by
    subst hencoding
    rw [StringFunction.call_of_packed hcall hmemory, read_eq_ok_iff.mpr hholds]

end StringEncoding

/-- Each encoding is exact, and spans and packed spans correspond one to one. -/
theorem exchange_exact :
    (∀ e : StringEncoding, e.Exact) ∧ (∀ s : StringSpan, .ofPacked s.packed = s) ∧
      ∀ p : Int64, (StringSpan.ofPacked p).packed = p :=
  ⟨StringEncoding.exact, StringSpan.ofPacked_packed, StringSpan.packed_ofPacked⟩

/-- A letter and a pair of surrogates in the last six bytes of a page. -/
theorem exchange_exact_surrogates :
    ∃ start after, Memory.new 1 1 = .ok start ∧
      start.write 65530 [0x61, 0x00, 0x3D, 0xD8, 0x00, 0xDE] = .ok after ∧
      after.readString 65530 6 .utf16 = .ok ['a', '😀'] := by
  have hstart : Memory.new 1 1 = .ok ⟨Memory.extend .empty ((1 : UInt32).toNat * pageSize), 1, 1⟩ :=
    Memory.newOn_of_le .roomy 1 1 (by decide) rfl
  generalize hpage : (⟨Memory.extend .empty ((1 : UInt32).toNat * pageSize), 1, 1⟩ : Memory) = start
    at hstart
  have hsize : start.size = 65536 := by
    subst hpage
    simp [Memory.size, pageSize]
  have hencode : StringEncoding.utf16.encode ['a', '😀'] = [0x61, 0x00, 0x3D, 0xD8, 0x00, 0xDE] := by
    decide
  have hwrite := Memory.write_eq_within (m := start)
    (p := ⟨65530, [0x61, 0x00, 0x3D, 0xD8, 0x00, 0xDE]⟩) (by decide)
  rw [Memory.within, if_pos (by rw [hsize]; decide)] at hwrite
  refine ⟨start, _, hstart, hwrite, ?_⟩
  rw [← hencode] at hwrite
  exact (exchange_exact.1 .utf16).read_written start _ 65530 _ hwrite [] (by simp [Memory.log])

end WasmStream
