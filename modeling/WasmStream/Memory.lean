import WasmStream.EntityType
import WasmStream.RuntimeConfig
import WasmStream.Text.Encoding

/-! Linear memory: one run of bytes, a whole number of pages long, that only ever grows. -/
namespace WasmStream

/-- A host's answer to one request for memory: whether it has room for a number of pages. -/
abbrev Host := (pages : Nat) → Bool

/-- A host on which a memory fits into the lower half of 48 bit addresses. -/
def Host.roomy : Host := fun pages => decide (pages < 0x7FFFFFFF)

@[ext]
structure Memory where
  data : ByteArray
  pages : UInt32
  maximum : UInt32

instance : DecidableEq Memory := fun m n =>
  have h : (m.data.data = n.data.data ∧ m.pages = n.pages ∧ m.maximum = n.maximum) ↔ m = n := by
    rw [Memory.ext_iff, ByteArray.ext_iff]
  decidable_of_decidable_of_iff h

namespace Memory

/-- The byte at an address, zero where there is none. -/
def byteOf (data : ByteArray) (address : Nat) : UInt8 := data[address]?.getD 0

/-- Put `n` zero bytes behind the data. -/
def extend (data : ByteArray) : (n : Nat) → ByteArray
  | 0 => data
  | n + 1 => extend (data.push 0) n

/-- Put the bytes over those at `address` and behind it. -/
def overwrite (data : ByteArray) (address : Nat) : List UInt8 → ByteArray
  | [] => data
  | b :: rest =>
    if h : address < data.size then overwrite (data.set address b h) (address + 1) rest else data

theorem byteOf_eq (data : ByteArray) (a : Nat) : byteOf data a = data.data[a]?.getD 0 := by
  unfold byteOf
  by_cases h : a < data.size
  · rw [getElem?_pos data a h, getElem?_pos data.data a h]
    rfl
  · rw [getElem?_neg data a h, getElem?_neg data.data a h]

@[simp] theorem size_extend (data : ByteArray) (n : Nat) : (extend data n).size = data.size + n := by
  induction n generalizing data with
  | zero => rfl
  | succ n ih =>
    rw [extend, ih, ByteArray.size_push]
    omega

@[simp] theorem byteOf_extend (data : ByteArray) (n a : Nat) :
    byteOf (extend data n) a = byteOf data a := by
  induction n generalizing data with
  | zero => rfl
  | succ n ih =>
    rw [extend, ih, byteOf_eq, byteOf_eq, ByteArray.data_push, Array.getElem?_push]
    split <;> simp_all

theorem size_set (data : ByteArray) (i : Nat) (b : UInt8) (h : i < data.size) :
    (data.set i b h).size = data.size := by
  change (data.set i b h).data.size = data.data.size
  rw [ByteArray.data_set, Array.size_set]

@[simp] theorem size_overwrite (data : ByteArray) (address : Nat) (bytes : List UInt8) :
    (overwrite data address bytes).size = data.size := by
  induction bytes generalizing data address with
  | nil => rfl
  | cons b rest ih =>
    rw [overwrite]
    split
    · rw [ih, size_set]
    · rfl

/-- The bytes written are read back, and every other byte is what it was. -/
theorem byteOf_overwrite (data : ByteArray) (address : Nat) (bytes : List UInt8) (a : Nat)
    (h : address + bytes.length ≤ data.size) :
    byteOf (overwrite data address bytes) a =
      if address ≤ a ∧ a < address + bytes.length then bytes[a - address]?.getD 0
      else byteOf data a := by
  induction bytes generalizing data address with
  | nil =>
    rw [overwrite, if_neg]
    simp
  | cons b rest ih =>
    simp only [List.length_cons] at h
    have hs : address < data.size := by omega
    rw [overwrite, dif_pos hs, ih _ _ (by rw [size_set]; omega)]
    by_cases ha : address = a
    · subst ha
      rw [if_neg (by omega), if_pos (by simp), byteOf_eq, ByteArray.data_set]
      simp
    · by_cases hr : address + 1 ≤ a ∧ a < address + 1 + rest.length
      · rw [if_pos hr, if_pos (by simp only [List.length_cons]; omega)]
        rw [show a - address = a - (address + 1) + 1 by omega, List.getElem?_cons_succ]
      · rw [if_neg hr, if_neg (by simp only [List.length_cons]; omega), byteOf_eq, byteOf_eq,
          ByteArray.data_set, Array.getElem?_set_ne _ ha]

def newOn (host : Host) (initial maximum : UInt32) : Except Error Memory :=
  if maximum < initial then .error (.invalidMemoryLimits initial maximum)
  else if host initial.toNat then
    .ok ⟨extend .empty (initial.toNat * pageSize), initial, maximum⟩
  else .error (.allocationFailed "linear memory" (initial.toNat * pageSize))

def new : (initial maximum : UInt32) → Except Error Memory := newOn .roomy

/-- The memory that a module declares, under the host's cap. -/
def ofLimitsOn (host : Host) (limits : Limits) (config : RuntimeConfig) : Except Error Memory := do
  config.validate
  newOn host limits.min (config.pageCap limits.max)

def ofLimits : (limits : Limits) → (config : RuntimeConfig) → Except Error Memory :=
  ofLimitsOn .roomy

def size (m : Memory) : Nat := m.data.size

/-- The byte at an address, zero beyond the end. -/
def byteAt (m : Memory) (address : Nat) : UInt8 := byteOf m.data address

/-- Grow by `delta` pages. The answer is the new number of pages, or -1 if the memory cannot grow
that far; then nothing has changed. -/
def growOn (host : Host) (m : Memory) (delta : Int32) : Int32 × Memory :=
  if delta < 0 then (-1, m)
  else if delta = 0 then (m.pages.toInt32, m)
  else
    let target := m.pages.toNat + delta.toInt.toNat
    if target ≤ m.maximum.toNat ∧ host target then
      (Int32.ofNat target,
        { m with
          data := extend m.data (delta.toInt.toNat * pageSize)
          pages := UInt32.ofNat target })
    else (-1, m)

def grow : (m : Memory) → (delta : Int32) → Int32 × Memory := growOn .roomy

/-- Whether `length` bytes at `address` are inside the memory. -/
def check (m : Memory) (address length : Nat) : Except Error Unit :=
  if address + length ≤ m.size then .ok () else .error (.outOfBounds address length m.size)

/-- The bytes of a range inside the memory. -/
def slice (m : Memory) (address length : Nat) : List UInt8 :=
  (List.range' address length).map m.byteAt

def view (m : Memory) (address length : UInt32) : Except Error (List UInt8) := do
  m.check address.toNat length.toNat
  return m.slice address.toNat length.toNat

/-- All the bytes are written, or none. As addresses do, lengths have 32 bits. -/
def write (m : Memory) (address : UInt32) (bytes : List UInt8) : Except Error Memory := do
  if UInt32.size ≤ bytes.length then
    throw (.outOfBounds address.toNat bytes.length m.size)
  m.check address.toNat bytes.length
  return { m with data := overwrite m.data address.toNat bytes }

/-- Change the bytes of a range through a mutable view, which keeps its length. -/
def modify (m : Memory) (address length : UInt32)
    (change : Vector UInt8 length.toNat → Vector UInt8 length.toNat) : Except Error Memory := do
  m.check address.toNat length.toNat
  let window := Vector.ofFn fun i : Fin length.toNat => m.byteAt (address.toNat + i)
  return { m with data := overwrite m.data address.toNat (change window).toList }

/-- Write one byte to every place of a range. -/
def fill (m : Memory) (address length : UInt32) (b : UInt8) : Except Error Memory :=
  m.modify address length fun _ => .replicate _ b

/-- The number in `width` bytes, lowest byte first. -/
def loadNat (m : Memory) (width : UInt32) (address : UInt32) : Except Error Nat := do
  return ofLittleEndian (← m.view address width)

def loadI32 (m : Memory) (address : UInt32) : Except Error Int32 := do
  return (UInt32.ofNat (← m.loadNat 4 address)).toInt32

def loadI64 (m : Memory) (address : UInt32) : Except Error Int64 := do
  return (UInt64.ofNat (← m.loadNat 8 address)).toInt64

/-- The bits of a single precision number. -/
def loadF32 (m : Memory) (address : UInt32) : Except Error UInt32 := do
  return UInt32.ofNat (← m.loadNat 4 address)

/-- The bits of a double precision number. -/
def loadF64 (m : Memory) (address : UInt32) : Except Error UInt64 := do
  return UInt64.ofNat (← m.loadNat 8 address)

def storeI32 (m : Memory) (address : UInt32) (v : Int32) : Except Error Memory :=
  m.write address (toLittleEndian 4 v.toUInt32.toNat)

def storeI64 (m : Memory) (address : UInt32) (v : Int64) : Except Error Memory :=
  m.write address (toLittleEndian 8 v.toUInt64.toNat)

def storeF32 (m : Memory) (address : UInt32) (bits : UInt32) : Except Error Memory :=
  m.write address (toLittleEndian 4 bits.toNat)

def storeF64 (m : Memory) (address : UInt32) (bits : UInt64) : Except Error Memory :=
  m.write address (toLittleEndian 8 bits.toNat)

/-- The text that is stored in a range. -/
def readString (m : Memory) (address length : UInt32) (e : StringEncoding) :
    Except Error (List Char) := do
  e.decode (← m.view address length)

/-- The maximal runs of bytes other than zero among the first `n`, with their addresses. `run` is
the part of a run that begins at `n`. -/
def runsBelow (data : ByteArray) : (n : Nat) → (run : List UInt8) →
    (found : List (Nat × List UInt8)) → List (Nat × List UInt8)
  | 0, run, found => if run.isEmpty then found else (0, run) :: found
  | n + 1, run, found =>
    let b := byteOf data n
    if b = 0 then runsBelow data n [] (if run.isEmpty then found else (n + 1, run) :: found)
    else runsBelow data n (b :: run) found

def nonZeroRuns (m : Memory) : List (Nat × List UInt8) := runsBelow m.data m.size [] []

end Memory
end WasmStream
