import Mathlib.Algebra.Ring.Nat
import WasmStream.Proofs.Grammar.Types

/-! LEB128 numbers by their groups. The bytes of a number are those up to the first one whose high bit
is clear; its value is the sum of the groups of seven bits, extended by its sign where it has one. A
read comes to a value, to a wish for more input or to an error exactly as the bytes ahead say. -/
namespace WasmStream
open Reader

namespace Leb128

/-- The number of bytes in the longest form of a number with so many bits. -/
def maxLength (bits : Nat) : Nat := (bits + 6) / 7

theorem maxLength_of_lt {bits : Nat} (h : 7 < bits) : maxLength bits = maxLength (bits - 7) + 1 := by
  unfold maxLength
  omega

theorem maxLength_of_le {bits : Nat} (h : bits ≤ 7) (hpos : bits ≠ 0) : maxLength bits = 1 := by
  unfold maxLength
  omega

/-- Only a wide number has two bytes. -/
theorem wide_of_length_le {bits : Nat} {b : UInt8} {w : List UInt8} (hw : w ≠ [])
    (h : (b :: w).length ≤ maxLength bits) : 7 < bits := by
  have hlength : 0 < w.length := List.length_pos_iff.mpr hw
  rw [List.length_cons] at h
  unfold maxLength at h
  omega

/-- Bits are left for every byte that is looked at. -/
theorem shift_lt {bits i : Nat} (h : i < maxLength bits) : 7 * i < bits := by
  unfold maxLength at h
  omega

theorem scanUnsigned_take (bits : Nat) (bytes : List UInt8) :
    scanUnsigned bits (bytes.take (maxLength bits)) = scanUnsigned bits bytes := by
  induction bytes generalizing bits with
  | nil => rw [List.take_nil]
  | cons b rest ih =>
    by_cases hzero : bits = 0
    · rw [hzero]
      rfl
    by_cases hlast : bits ≤ 7
    · rw [maxLength_of_le hlast hzero, List.take_succ_cons, List.take_zero]
      simp only [scanUnsigned, if_pos hlast]
    · have hmore := maxLength_of_lt (Nat.lt_of_not_le hlast)
      rw [hmore, List.take_succ_cons]
      simp only [scanUnsigned, ih]

theorem scanSigned_take (bits : Nat) (bytes : List UInt8) :
    scanSigned bits (bytes.take (maxLength bits)) = scanSigned bits bytes := by
  induction bytes generalizing bits with
  | nil => rw [List.take_nil]
  | cons b rest ih =>
    by_cases hzero : bits = 0
    · rw [hzero]
      rfl
    by_cases hlast : bits ≤ 7
    · rw [maxLength_of_le hlast hzero, List.take_succ_cons, List.take_zero]
      simp only [scanSigned, if_pos hlast]
    · have hmore := maxLength_of_lt (Nat.lt_of_not_le hlast)
      rw [hmore, List.take_succ_cons]
      simp only [scanSigned, ih]

/-- The last byte is the only one whose high bit is clear. -/
def Closed (w : List UInt8) : Prop :=
  ∃ before last, w = before ++ [last] ∧ (∀ b ∈ before, 128 ≤ b.toNat) ∧ last.toNat < 128

theorem Closed.ne_nil {w : List UInt8} (h : Closed w) : w ≠ [] := by
  obtain ⟨before, last, rfl, -⟩ := h
  simp

theorem closed_cons_iff {b : UInt8} {w : List UInt8} :
    Closed (b :: w) ↔ w = [] ∧ b.toNat < 128 ∨ 128 ≤ b.toNat ∧ Closed w := by
  constructor
  · rintro ⟨before, last, h, hbefore, hlast⟩
    cases before with
    | nil =>
      cases h
      exact .inl ⟨rfl, hlast⟩
    | cons first before =>
      cases h
      simp only [List.mem_cons, forall_eq_or_imp] at hbefore
      exact .inr ⟨hbefore.1, before, last, rfl, hbefore.2, hlast⟩
  · rintro (⟨rfl, hb⟩ | ⟨hb, before, last, rfl, hbefore, hlast⟩)
    · exact ⟨[], b, rfl, by simp, hb⟩
    · refine ⟨b :: before, last, rfl, ?_, hlast⟩
      simp only [List.mem_cons, forall_eq_or_imp]
      exact ⟨hb, hbefore⟩

/-- The groups of seven bits put together, the lowest first. -/
def groupSum (w : List UInt8) : Nat := (w.mapIdx fun i b => b.toNat % 128 * 2 ^ (7 * i)).sum

theorem sum_mapIdx_mul {α : Type} (k : Nat) (f : Nat → α → Nat) (l : List α) :
    (l.mapIdx fun i a => k * f i a).sum = k * (l.mapIdx f).sum := by
  induction l generalizing f with
  | nil => rfl
  | cons a l ih =>
    simp only [List.mapIdx_cons, List.sum_cons, Nat.mul_add, ih fun i => f (i + 1)]

theorem groupSum_cons (b : UInt8) (w : List UInt8) :
    groupSum (b :: w) = b.toNat % 128 + 128 * groupSum w := by
  have hshift (i : Nat) (b : UInt8) :
      b.toNat % 128 * 2 ^ (7 * (i + 1)) = 128 * (b.toNat % 128 * 2 ^ (7 * i)) := by
    rw [Nat.mul_add, Nat.pow_add, Nat.mul_left_comm 128, Nat.mul_comm (2 ^ (7 * i))]
  simp only [groupSum, List.mapIdx_cons, List.sum_cons, hshift, sum_mapIdx_mul]
  rw [Nat.mul_zero, Nat.pow_zero, Nat.mul_one]

theorem groupSum_singleton (b : UInt8) : groupSum [b] = b.toNat % 128 := groupSum_cons b []

/-- The groups as a number in two's complement: the top bit of the last one is the sign. -/
def signedSum (w : List UInt8) : Int :=
  if 2 * groupSum w < 2 ^ (7 * w.length) then groupSum w
  else groupSum w - (2 : Int) ^ (7 * w.length)

theorem signedSum_singleton (b : UInt8) : signedSum [b] = signedGroup b := by
  unfold signedSum signedGroup
  rw [groupSum_singleton]
  simp only [List.length_singleton, Nat.mul_one]
  split <;> split <;> omega

/-- A lower group leaves the sign where it is. -/
theorem signedSum_cons (b : UInt8) {w : List UInt8} (hw : w ≠ []) :
    signedSum (b :: w) = (b.toNat % 128 : Nat) + 128 * signedSum w := by
  have hlength : 0 < w.length := List.length_pos_iff.mpr hw
  have hhalf : 2 ^ (7 * w.length) = 2 * 2 ^ (7 * w.length - 1) := by
    rw [← Nat.pow_succ']
    congr 1
    omega
  have hwhole : 2 ^ (7 * (b :: w).length) = 128 * 2 ^ (7 * w.length) := by
    rw [List.length_cons, Nat.mul_add, Nat.pow_add, Nat.mul_comm]
  have hcast (n : Nat) : (2 : Int) ^ n = (2 ^ n : Nat) := (Int.natCast_pow 2 n).symm
  unfold signedSum
  rw [hcast, hcast, hwhole, hhalf, groupSum_cons]
  generalize 2 ^ (7 * w.length - 1) = half
  split <;> split <;> omega

theorem Unsigned.closed {bits v : Nat} {w : List UInt8} (h : Unsigned bits v w) : Closed w := by
  induction h with
  | last _ hb _ => exact closed_cons_iff.mpr (.inl ⟨rfl, hb⟩)
  | more _ hb _ ih => exact closed_cons_iff.mpr (.inr ⟨hb, ih⟩)

theorem Unsigned.length_le {bits v : Nat} {w : List UInt8} (h : Unsigned bits v w) :
    w.length ≤ maxLength bits := by
  induction h with
  | last hbits _ _ =>
    unfold maxLength
    simp only [List.length_singleton]
    omega
  | more hbits _ _ ih =>
    rw [maxLength_of_lt hbits]
    simpa using ih

theorem Unsigned.eq_groupSum {bits v : Nat} {w : List UInt8} (h : Unsigned bits v w) :
    v = groupSum w := by
  induction h with
  | last _ hb _ => rw [groupSum_singleton, Nat.mod_eq_of_lt hb]
  | more _ _ _ ih => rw [groupSum_cons, ih]

/-- The forms of the numbers below `2 ^ bits` are the closed sequences of groups that are no longer than
the longest form and have such a sum. -/
theorem unsigned_iff {bits v : Nat} {w : List UInt8} (hbits : 0 < bits) :
    Unsigned bits v w ↔
      w.length ≤ maxLength bits ∧ Closed w ∧ v = groupSum w ∧ v < 2 ^ bits := by
  constructor
  · intro h
    exact ⟨h.length_le, h.closed, h.eq_groupSum, h.lt⟩
  · induction w generalizing bits v with
    | nil => exact fun ⟨_, hclosed, _⟩ => absurd rfl hclosed.ne_nil
    | cons b w ih =>
      rintro ⟨hlength, hclosed, rfl, hlt⟩
      obtain ⟨rfl, hb⟩ | ⟨hb, hclosed⟩ := closed_cons_iff.mp hclosed
      · rw [groupSum_singleton, Nat.mod_eq_of_lt hb] at hlt ⊢
        exact .last hbits hb hlt
      · have hwide := wide_of_length_le hclosed.ne_nil hlength
        rw [maxLength_of_lt hwide, List.length_cons] at hlength
        rw [groupSum_cons] at hlt ⊢
        rw [pow_split (by omega)] at hlt
        exact .more hwide hb (ih (by omega) ⟨by omega, hclosed, rfl, by omega⟩)

theorem Signed.closed {bits : Nat} {v : Int} {w : List UInt8} (h : Signed bits v w) : Closed w := by
  induction h with
  | last _ hb _ _ => exact closed_cons_iff.mpr (.inl ⟨rfl, hb⟩)
  | more _ hb _ ih => exact closed_cons_iff.mpr (.inr ⟨hb, ih⟩)

theorem Signed.length_le {bits : Nat} {v : Int} {w : List UInt8} (h : Signed bits v w) :
    w.length ≤ maxLength bits := by
  induction h with
  | last hbits _ _ _ =>
    unfold maxLength
    simp only [List.length_singleton]
    omega
  | more hbits _ _ ih =>
    rw [maxLength_of_lt hbits]
    simpa using ih

theorem Signed.eq_signedSum {bits : Nat} {v : Int} {w : List UInt8} (h : Signed bits v w) :
    v = signedSum w := by
  induction h with
  | last _ _ _ _ => rw [signedSum_singleton]
  | more _ _ hrest ih => rw [signedSum_cons _ hrest.closed.ne_nil, ih]

/-- The forms of the two's complement numbers of `bits` bits, in the same way. -/
theorem signed_iff {bits : Nat} {v : Int} {w : List UInt8} (hbits : 0 < bits) :
    Signed bits v w ↔ w.length ≤ maxLength bits ∧ Closed w ∧ v = signedSum w ∧
      -(2 : Int) ^ (bits - 1) ≤ v ∧ v < (2 : Int) ^ (bits - 1) := by
  constructor
  · intro h
    exact ⟨h.length_le, h.closed, h.eq_signedSum, h.range⟩
  · induction w generalizing bits v with
    | nil => exact fun ⟨_, hclosed, _⟩ => absurd rfl hclosed.ne_nil
    | cons b w ih =>
      rintro ⟨hlength, hclosed, rfl, hle, hlt⟩
      obtain ⟨rfl, hb⟩ | ⟨hb, hclosed⟩ := closed_cons_iff.mp hclosed
      · rw [signedSum_singleton] at hle hlt ⊢
        exact .last hbits hb hle hlt
      · have hwide := wide_of_length_le hclosed.ne_nil hlength
        rw [maxLength_of_lt hwide, List.length_cons] at hlength
        rw [signedSum_cons b hclosed.ne_nil] at hle hlt ⊢
        rw [pow_pred_split hwide] at hle hlt
        exact .more hwide hb (ih (by omega) ⟨by omega, hclosed, rfl, by omega, by omega⟩)

/-- Bytes are to come: those that are there all have their high bit set, and are fewer than there can
be. -/
def Unfinished (bits : Nat) (bytes : List UInt8) : Prop :=
  bytes.length < maxLength bits ∧ ∀ b ∈ bytes, 128 ≤ b.toNat

theorem unfinished_nil {bits : Nat} (hbits : 0 < bits) : Unfinished bits [] := by
  unfold Unfinished maxLength
  simp only [List.length_nil, List.not_mem_nil, false_implies, implies_true, and_true]
  omega

theorem unfinished_cons_iff {bits : Nat} {b : UInt8} {rest : List UInt8} :
    Unfinished bits (b :: rest) ↔ 7 < bits ∧ 128 ≤ b.toNat ∧ Unfinished (bits - 7) rest := by
  unfold Unfinished maxLength
  simp only [List.length_cons, List.mem_cons, forall_eq_or_imp]
  constructor
  · rintro ⟨hlength, hb, hrest⟩
    exact ⟨by omega, hb, by omega, hrest⟩
  · rintro ⟨hwide, hb, hlength, hrest⟩
    exact ⟨by omega, hb, hrest⟩

theorem Scan.push_eq_incomplete_iff {α : Type} {f : α → α} {s : Scan α} :
    s.push f = .incomplete ↔ s = .incomplete := by
  cases s <;> simp [push]

/-- A scan that ends with the last byte there can be, and with a byte whose high bit is clear, and
otherwise leaves it to what is behind the byte. -/
theorem eq_incomplete_iff_of_steps {α : Type} {scan : Nat → List UInt8 → Scan α}
    (hnil : ∀ bits, scan bits [] = .incomplete)
    (hlast : ∀ {bits b} rest, 0 < bits → bits ≤ 7 ∨ b.toNat < 128 →
      scan bits (b :: rest) ≠ .incomplete)
    (hmore : ∀ {bits b} rest, 7 < bits → 128 ≤ b.toNat →
      ∃ f, scan bits (b :: rest) = (scan (bits - 7) rest).push f)
    {bits : Nat} (hbits : 0 < bits) {bytes : List UInt8} :
    scan bits bytes = .incomplete ↔ Unfinished bits bytes := by
  induction bytes generalizing bits with
  | nil => exact iff_of_true (hnil bits) (unfinished_nil hbits)
  | cons b rest ih =>
    rw [unfinished_cons_iff]
    by_cases hend : bits ≤ 7 ∨ b.toNat < 128
    · exact iff_of_false (hlast rest hbits hend) fun ⟨hwide, hb, _⟩ => by omega
    · obtain ⟨f, hf⟩ := @hmore bits b rest (by omega) (by omega)
      rw [hf, Scan.push_eq_incomplete_iff, ih (by omega)]
      exact ⟨fun h => ⟨by omega, by omega, h⟩, fun h => h.2.2⟩

theorem scanUnsigned_eq_incomplete_iff {bits : Nat} (hbits : 0 < bits) {bytes : List UInt8} :
    scanUnsigned bits bytes = .incomplete ↔ Unfinished bits bytes := by
  refine eq_incomplete_iff_of_steps (fun bits => rfl) (fun {bits b} rest hpos hend => ?_)
    (fun {bits b} rest hwide hb => ?_) hbits
  · rw [scanUnsigned, if_neg (by omega)]
    split
    · split <;> simp
    · rw [if_pos (by omega)]
      simp
  · rw [scanUnsigned, if_neg (by omega), if_neg (by omega), if_neg (by omega)]
    exact ⟨_, rfl⟩

theorem scanSigned_eq_incomplete_iff {bits : Nat} (hbits : 0 < bits) {bytes : List UInt8} :
    scanSigned bits bytes = .incomplete ↔ Unfinished bits bytes := by
  refine eq_incomplete_iff_of_steps (fun bits => rfl) (fun {bits b} rest hpos hend => ?_)
    (fun {bits b} rest hwide hb => ?_) hbits
  · rw [scanSigned, if_neg (by omega)]
    split
    · dsimp only
      split <;> simp
    · rw [if_pos (by omega)]
      simp
  · rw [scanSigned, if_neg (by omega), if_neg (by omega), if_neg (by omega)]
    exact ⟨_, rfl⟩

/-- The first `n` bytes are one number of at most `bits` bits, which is `v` by the value of its groups
and in the range. -/
structure NumberAt {α : Type} (value : List UInt8 → α) (inRange : α → Prop) (bits : Nat)
    (bytes : List UInt8) (v : α) (n : Nat) : Prop where
  le_maxLength : n ≤ maxLength bits
  le_length : n ≤ bytes.length
  closed : Closed (bytes.take n)
  value_eq : v = value (bytes.take n)
  inRange : inRange v

abbrev UnsignedAt (bits : Nat) : List UInt8 → Nat → Nat → Prop :=
  NumberAt groupSum (fun v => v < 2 ^ bits) bits

abbrev SignedAt (bits : Nat) : List UInt8 → Int → Nat → Prop :=
  NumberAt signedSum (fun v => -(2 : Int) ^ (bits - 1) ≤ v ∧ v < (2 : Int) ^ (bits - 1)) bits

theorem eq_done_iff_numberAt {α : Type} {value : List UInt8 → α} {inRange : α → Prop} {bits : Nat}
    {r : Reader α} {G : Grammar α} (hr : Reads r G)
    (hG : ∀ v w, G v w ↔ w.length ≤ maxLength bits ∧ Closed w ∧ v = value w ∧ inRange v)
    {c : Cursor} {v : α} {n : Nat} : r c = .done v n ↔ NumberAt value inRange bits c.rest v n := by
  rw [hr, hG]
  constructor
  · rintro ⟨hn, hlength, hclosed, hv, hrange⟩
    rw [List.length_take_of_le hn] at hlength
    exact ⟨hlength, hn, hclosed, hv, hrange⟩
  · intro h
    refine ⟨h.le_length, ?_, h.closed, h.value_eq, h.inRange⟩
    rw [List.length_take_of_le h.le_length]
    exact h.le_maxLength

section OfScan
variable {α : Type} {sign : Bool} {bits offset : Nat} {s : Scan α}

theorem ofScan_eq_needMore_iff : ofScan sign bits offset s = .needMore ↔ s = .incomplete := by
  cases s <;> simp [ofScan]

theorem error_of_ofScan {e : Error} (h : ofScan sign bits offset s = .fail e) :
    e = .integerTooLarge sign bits offset := by
  cases s with
  | value v n => cases h
  | incomplete => cases h
  | overflow =>
    cases h
    rfl

end OfScan

/-- An outcome in full: it is a value as `value` says, it asks for more if `unfinished`, and in every
other case it is the error `overflow`. -/
structure Decided {α : Type} (outcome : Outcome α) (value : α → Nat → Prop) (unfinished : Prop)
    (overflow : Error) : Prop where
  done_iff : ∀ v n, outcome = .done v n ↔ value v n
  needMore_iff : outcome = .needMore ↔ unfinished
  fail_iff : ∀ e, outcome = .fail e ↔ e = overflow ∧ ¬unfinished ∧ ∀ v n, ¬value v n

theorem decided_of {α : Type} {outcome : Outcome α} {value : α → Nat → Prop} {unfinished : Prop}
    {overflow : Error} (hdone : ∀ v n, outcome = .done v n ↔ value v n)
    (hmore : outcome = .needMore ↔ unfinished) (hfail : ∀ e, outcome = .fail e → e = overflow) :
    Decided outcome value unfinished overflow where
  done_iff := hdone
  needMore_iff := hmore
  fail_iff e := by
    rw [← hmore]
    simp only [← hdone]
    cases outcome with
    | done v n => simp
    | needMore => simp
    | fail e' => simp [hfail e' rfl, eq_comm]

theorem decided_unsigned {bits : Nat} (hbits : 0 < bits) (offset : Nat) (bytes : List UInt8) :
    Decided (Reader.unsigned bits ⟨offset, bytes⟩) (UnsignedAt bits bytes) (Unfinished bits bytes)
      (.integerTooLarge false bits offset) := by
  apply decided_of
  · intro v n
    exact eq_done_iff_numberAt (reads_unsigned bits) fun _ _ => unsigned_iff hbits
  · exact ofScan_eq_needMore_iff.trans (scanUnsigned_eq_incomplete_iff hbits)
  · intro e h
    exact error_of_ofScan h

theorem decided_signed {bits : Nat} (hbits : 0 < bits) (offset : Nat) (bytes : List UInt8) :
    Decided (Reader.signed bits ⟨offset, bytes⟩) (SignedAt bits bytes) (Unfinished bits bytes)
      (.integerTooLarge true bits offset) := by
  apply decided_of
  · intro v n
    exact eq_done_iff_numberAt (reads_signed bits) fun _ _ => signed_iff hbits
  · exact ofScan_eq_needMore_iff.trans (scanSigned_eq_incomplete_iff hbits)
  · intro e h
    exact error_of_ofScan h

/-- What is read as a number of a fixed width is the number that was written, every bit of it. -/
structure Lossless (c : Cursor) : Prop where
  u64 : ∀ v n, Reader.unsigned 64 c = .done v n ↔
    ∃ x : UInt64, x.toNat = v ∧ Reader.u64 c = .done x n
  u32 : ∀ v n, Reader.unsigned 32 c = .done v n ↔
    ∃ x : UInt32, x.toNat = v ∧ Reader.u32 c = .done x n
  i64 : ∀ v n, Reader.signed 64 c = .done v n ↔
    ∃ x : Int64, x.toInt = v ∧ Reader.i64 c = .done x n
  i32 : ∀ v n, Reader.signed 32 c = .done v n ↔
    ∃ x : Int32, x.toInt = v ∧ Reader.i32 c = .done x n
  typeIndex : ∀ (v n : Nat), Reader.signed 33 c = .done v n ↔
    ∃ index : UInt32, index.toNat = v ∧ BlockType.reader c = .done (.typeIndex index) n

/-- A form of `x` in the one grammar is a form of the number that `x` stands for in the other, and every
number that has a form is stood for. -/
theorem eq_done_iff_exists {α β : Type} {r : Reader α} {q : Reader β} {G : Grammar α} {H : Grammar β}
    (hr : Reads r G) (hq : Reads q H) {value : β → α} (hH : ∀ x w, H x w ↔ G (value x) w)
    {v : α} (hv : ∀ w, G v w → ∃ x, value x = v) {c : Cursor} {n : Nat} :
    r c = .done v n ↔ ∃ x, value x = v ∧ q c = .done x n := by
  simp only [hr c v n, hq c _ n, hH]
  constructor
  · rintro ⟨hn, hform⟩
    obtain ⟨x, rfl⟩ := hv _ hform
    exact ⟨x, rfl, hn, hform⟩
  · rintro ⟨x, rfl, hn, hform⟩
    exact ⟨hn, hform⟩

theorem reads_u64 : Reads Reader.u64 fun x w => Unsigned 64 x.toNat w := by
  refine (reads_unsigned 64).map fun x w => ?_
  constructor
  · intro h
    exact ⟨x.toNat, UInt64.ofNat_toNat.symm, h⟩
  · rintro ⟨v, rfl, h⟩
    have hv : (UInt64.ofNat v).toNat = v := UInt64.toNat_ofNat_of_lt' h.lt
    rwa [hv]

theorem lossless (c : Cursor) : Lossless c where
  u64 v n := eq_done_iff_exists (reads_unsigned 64) reads_u64 (fun _ _ => Iff.rfl) fun w h =>
    ⟨UInt64.ofNat v, UInt64.toNat_ofNat_of_lt' h.lt⟩
  u32 v n := eq_done_iff_exists (reads_unsigned 32) Grammar.reads_u32 (fun _ _ => Iff.rfl) fun w h =>
    ⟨UInt32.ofNat v, UInt32.toNat_ofNat_of_lt' h.lt⟩
  i64 v n := eq_done_iff_exists (reads_signed 64) Grammar.reads_i64 (fun _ _ => Iff.rfl) fun w h =>
    ⟨Int64.ofInt v, Int64.toInt_ofInt_of_le h.range.1 h.range.2⟩
  i32 v n := eq_done_iff_exists (reads_signed 32) Grammar.reads_i32 (fun _ _ => Iff.rfl) fun w h =>
    ⟨Int32.ofInt v, Int32.toInt_ofInt_of_le h.range.1 h.range.2⟩
  typeIndex v n := by
    rw [reads_signed]
    constructor
    · rintro ⟨hn, hform⟩
      have hrange := hform.range
      have hindex : (UInt32.ofNat v).toNat = v :=
        UInt32.toNat_ofNat_of_lt' (by simp only [UInt32.size]; omega)
      refine ⟨UInt32.ofNat v, hindex, (BlockType.reads_reader c _ n).mpr ⟨hn, ?_⟩⟩
      exact .typeIndex (by rwa [hindex])
    · rintro ⟨index, rfl, hread⟩
      obtain ⟨hn, hform⟩ := (BlockType.reads_reader c _ n).mp hread
      cases hform with
      | typeIndex hform => exact ⟨hn, hform⟩

end Leb128
end WasmStream
