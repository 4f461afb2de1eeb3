import Mathlib.Tactic.Ring
import WasmStream.Proofs.Grammar.Builders
import WasmStream.Proofs.Leb128Writers

/-! Numbers in machine words. A word of 64 bits is filled group by group, the lowest first; the last byte
that there can be is judged by shifts, and a signed word that is not full is extended by its sign. For
every width up to 64 this comes to the number that is written, and nothing of it is lost. -/
namespace WasmStream
open Reader

namespace Leb128

/-- What was scanned, seen from `k` bytes further back. -/
def Scan.map {α β : Type} (k : Nat) (f : α → β) : Scan α → Scan β
  | value v length => value (f v) (k + length)
  | incomplete => incomplete
  | overflow => overflow

theorem Scan.map_zero {α : Type} {f : α → α} (hf : ∀ v, f v = v) (s : Scan α) : s.map 0 f = s := by
  cases s <;> simp [map, hf]

theorem Scan.map_push {α β : Type} (k : Nat) (f : α → β) (g : α → α) (s : Scan α) :
    (s.push g).map k f = s.map (k + 1) (f ∘ g) := by
  cases s with
  | value v length =>
    simp only [push, map, Function.comp_apply, value.injEq, true_and]
    omega
  | incomplete => rfl
  | overflow => rfl

/-- From the byte `index` on, with the groups of the bytes in front of it in `word`. -/
def unsignedFrom (bits index : Nat) (word : UInt64) : List UInt8 → Scan UInt64
  | [] => .incomplete
  | b :: rest =>
    let shift := 7 * index
    let remaining := bits - shift
    let low := b &&& 0x7F
    if index + 1 = maxLength bits ∧
        (b &&& 0x80 ≠ 0 ∨ remaining < 7 ∧ low >>> UInt8.ofNat remaining ≠ 0) then .overflow
    else
      let filled := word ||| low.toUInt64 <<< UInt64.ofNat shift
      if b &&& 0x80 = 0 then .value filled (index + 1)
      else unsignedFrom bits (index + 1) filled rest

/-- The number at the start of the bytes in a word without a sign. -/
def unsignedWord (bits : Nat) (bytes : List UInt8) : Scan UInt64 :=
  unsignedFrom bits 0 0 (bytes.take (maxLength bits))

/-- A word of which so many bits are filled, with the sign of the last group in the bits above. -/
def extend (word : Int64) (consumed : Nat) (b : UInt8) : Int64 :=
  if consumed < 64 ∧ b &&& 0x40 ≠ 0 then word ||| (-1) <<< Int64.ofNat consumed else word

/-- The same for words with a sign. The unused bits of the last byte that there can be repeat the sign. -/
def signedFrom (bits index : Nat) (word : Int64) : List UInt8 → Scan Int64
  | [] => .incomplete
  | b :: rest =>
    let shift := 7 * index
    let remaining := bits - shift
    let low := b &&& 0x7F
    let upper := low >>> UInt8.ofNat (remaining - 1)
    if index + 1 = maxLength bits ∧ (b &&& 0x80 ≠ 0 ∨
        remaining < 7 ∧ upper ≠ 0 ∧ upper ≠ 0x7F >>> UInt8.ofNat (remaining - 1)) then .overflow
    else
      let filled := word ||| low.toUInt64.toInt64 <<< Int64.ofNat shift
      if b &&& 0x80 = 0 then .value (extend filled (shift + 7) b) (index + 1)
      else signedFrom bits (index + 1) filled rest

/-- The number at the start of the bytes in a word with a sign. -/
def signedWord (bits : Nat) (bytes : List UInt8) : Scan Int64 :=
  signedFrom bits 0 0 (bytes.take (maxLength bits))

/-! ## One byte -/

theorem toNat_and_mask (b : UInt8) : (b &&& 0x7F).toNat = b.toNat % 128 := by
  rw [and_mask, UInt8.toNat_ofNat_of_lt' (by simp only [UInt8.size]; omega)]

theorem and_continuation (b : UInt8) : b &&& 0x80 = 0 ↔ b.toNat < 128 := by
  have hhigh : ∀ n : Fin 256, n.val &&& 128 = 0 ↔ n.val < 128 := by decide +kernel
  rw [← UInt8.toNat_inj, UInt8.toNat_and]
  exact hhigh ⟨b.toNat, b.toNat_lt⟩

theorem and_sign (b : UInt8) : b &&& 0x40 = 0 ↔ b.toNat % 128 < 64 := by
  have hsign : ∀ n : Fin 256, n.val &&& 64 = 0 ↔ n.val % 128 < 64 := by decide +kernel
  rw [← UInt8.toNat_inj, UInt8.toNat_and]
  exact hsign ⟨b.toNat, b.toNat_lt⟩

theorem toNat_shiftRight_low {r : Nat} (hr : r < 8) (b : UInt8) :
    (b >>> UInt8.ofNat r).toNat = b.toNat / 2 ^ r := by
  rw [UInt8.toNat_shiftRight, UInt8.toNat_ofNat_of_lt' (by simp only [UInt8.size]; omega),
    Nat.mod_eq_of_lt hr, Nat.shiftRight_eq_div_pow]

/-- The last byte there can be is refused if it goes on or has more than the bits that remain. -/
theorem unsigned_refused_iff {r : Nat} (hpos : 0 < r) (hr : r ≤ 7) (b : UInt8) :
    (b &&& 0x80 ≠ 0 ∨ r < 7 ∧ (b &&& 0x7F) >>> UInt8.ofNat r ≠ 0) ↔ ¬b.toNat < 1 <<< r := by
  have hupper : (b &&& 0x7F) >>> UInt8.ofNat r = 0 ↔ b.toNat % 128 / 2 ^ r = 0 := by
    rw [← UInt8.toNat_inj, toNat_shiftRight_low (by omega), toNat_and_mask]
    rfl
  rw [ne_eq, ne_eq, and_continuation, hupper, one_shiftLeft]
  obtain rfl | rfl | rfl | rfl | rfl | rfl | rfl :
      r = 1 ∨ r = 2 ∨ r = 3 ∨ r = 4 ∨ r = 5 ∨ r = 6 ∨ r = 7 := by omega
  all_goals omega

/-- The last byte there can be is refused if it goes on or has bits above the sign that are not the
sign. -/
theorem signed_refused_iff {r : Nat} (hpos : 0 < r) (hr : r ≤ 7) (b : UInt8) :
    (b &&& 0x80 ≠ 0 ∨ r < 7 ∧ (b &&& 0x7F) >>> UInt8.ofNat (r - 1) ≠ 0 ∧
        (b &&& 0x7F) >>> UInt8.ofNat (r - 1) ≠ 0x7F >>> UInt8.ofNat (r - 1)) ↔
      ¬(b.toNat < 128 ∧ -((1 <<< (r - 1) : Nat) : Int) ≤ signedGroup b ∧
        signedGroup b < (1 <<< (r - 1) : Nat)) := by
  have hzero : (b &&& 0x7F) >>> UInt8.ofNat (r - 1) = 0 ↔ b.toNat % 128 / 2 ^ (r - 1) = 0 := by
    rw [← UInt8.toNat_inj, toNat_shiftRight_low (by omega), toNat_and_mask]
    rfl
  have hall : (b &&& 0x7F) >>> UInt8.ofNat (r - 1) = 0x7F >>> UInt8.ofNat (r - 1) ↔
      b.toNat % 128 / 2 ^ (r - 1) = 127 / 2 ^ (r - 1) := by
    rw [← UInt8.toNat_inj, toNat_shiftRight_low (by omega), toNat_shiftRight_low (by omega),
      toNat_and_mask]
    rfl
  rw [ne_eq, ne_eq, ne_eq, and_continuation, hzero, hall, one_shiftLeft]
  unfold signedGroup
  obtain rfl | rfl | rfl | rfl | rfl | rfl | rfl :
      r = 1 ∨ r = 2 ∨ r = 3 ∨ r = 4 ∨ r = 5 ∨ r = 6 ∨ r = 7 := by omega
  all_goals
    split <;> omega

/-! ## One group more in a word -/

theorem or_group_toNat {word s low : Nat} (hword : word < 2 ^ s) :
    word ||| low * 2 ^ s = word + low * 2 ^ s := by
  rw [Nat.or_comm, Nat.mul_comm, ← Nat.two_pow_add_eq_or_of_lt hword, Nat.add_comm]

theorem toNat_shiftLeft_word {s : Nat} (hs : s < 64) (x : UInt64) :
    (x <<< UInt64.ofNat s).toNat = x.toNat * 2 ^ s % 2 ^ 64 := by
  rw [UInt64.toNat_shiftLeft, UInt64.toNat_ofNat_of_lt' (by simp only [UInt64.size]; omega),
    Nat.mod_eq_of_lt hs, Nat.shiftLeft_eq]

/-- A group is added to the word, as long as its bits have a place there. -/
theorem toNat_or_group {word : UInt64} {b : UInt8} {s k : Nat} (hs : s < 64)
    (hword : word.toNat < 2 ^ s) (hgroup : b.toNat % 128 < 2 ^ k) (hroom : s + k ≤ 64) :
    (word ||| (b &&& 0x7F).toUInt64 <<< UInt64.ofNat s).toNat =
      word.toNat + b.toNat % 128 * 2 ^ s := by
  have hlt : b.toNat % 128 * 2 ^ s < 2 ^ 64 := calc
    b.toNat % 128 * 2 ^ s < 2 ^ k * 2 ^ s := Nat.mul_lt_mul_of_pos_right hgroup (Nat.two_pow_pos s)
    _ = 2 ^ (s + k) := by rw [Nat.mul_comm, Nat.pow_add]
    _ ≤ 2 ^ 64 := Nat.pow_le_pow_right (by decide) hroom
  rw [UInt64.toNat_or, toNat_shiftLeft_word hs, UInt8.toNat_toUInt64, toNat_and_mask,
    Nat.mod_eq_of_lt hlt, or_group_toNat hword]

/-- Of a group at the last place only the lowest bit is kept. -/
theorem toNat_or_top {word : UInt64} {b : UInt8} (hword : word.toNat < 2 ^ 63) :
    (word ||| (b &&& 0x7F).toUInt64 <<< UInt64.ofNat 63).toNat =
      word.toNat + b.toNat % 2 * 2 ^ 63 := by
  have hdropped : b.toNat % 128 * 2 ^ 63 % 2 ^ 64 = b.toNat % 2 * 2 ^ 63 := by omega
  rw [UInt64.toNat_or, toNat_shiftLeft_word (by decide), UInt8.toNat_toUInt64, toNat_and_mask,
    hdropped, or_group_toNat hword]

/-- The groups in front of a byte and its own are those in front of the next byte. -/
theorem groups_lt {word s : Nat} (hword : word < 2 ^ s) (b : UInt8) :
    word + b.toNat % 128 * 2 ^ s < 2 ^ (s + 7) := by
  have hgroup : b.toNat % 128 * 2 ^ s ≤ 127 * 2 ^ s := Nat.mul_le_mul_right _ (by omega)
  rw [Nat.pow_add]
  omega

section Unsigned
variable {bits index : Nat} {word : UInt64} {b : UInt8}

theorem scanUnsigned_last (hpos : 0 < bits) (hlast : bits ≤ 7) (rest : List UInt8) :
    scanUnsigned bits (b :: rest) =
      if b.toNat < 1 <<< bits then .value b.toNat 1 else .overflow := by
  rw [scanUnsigned, if_neg (by omega), if_pos hlast]

theorem scanUnsigned_inner (hwide : 7 < bits) (rest : List UInt8) :
    scanUnsigned bits (b :: rest) =
      if b.toNat < 128 then .value b.toNat 1
      else (scanUnsigned (bits - 7) rest).push fun v => b.toNat % 128 + 128 * v := by
  rw [scanUnsigned, if_neg (by omega), if_neg (by omega)]

theorem unsignedFrom_last (hindex : 7 * index < bits) (hlast : bits ≤ 7 * index + 7)
    (rest : List UInt8) : unsignedFrom bits index word (b :: rest) =
      if b.toNat < 1 <<< (bits - 7 * index) then
        .value (word ||| (b &&& 0x7F).toUInt64 <<< UInt64.ofNat (7 * index)) (index + 1)
      else .overflow := by
  have hlimit : index + 1 = maxLength bits := by
    unfold maxLength
    omega
  have hrefused := @unsigned_refused_iff (bits - 7 * index) (by omega) (by omega) b
  rw [unsignedFrom]
  by_cases hfits : b.toNat < 1 <<< (bits - 7 * index)
  · have hend : b &&& 0x80 = 0 := Decidable.byContradiction fun hmore =>
      hrefused.mp (.inl hmore) hfits
    dsimp only
    rw [if_pos hfits, if_neg fun h => hrefused.mp h.2 hfits, if_pos hend]
  · rw [if_neg hfits]
    exact if_pos ⟨hlimit, hrefused.mpr hfits⟩

theorem unsignedFrom_inner (hwide : 7 * index + 7 < bits) (rest : List UInt8) :
    unsignedFrom bits index word (b :: rest) =
      let filled := word ||| (b &&& 0x7F).toUInt64 <<< UInt64.ofNat (7 * index)
      if b.toNat < 128 then .value filled (index + 1)
      else unsignedFrom bits (index + 1) filled rest := by
  have hlimit : index + 1 ≠ maxLength bits := by
    unfold maxLength
    omega
  rw [unsignedFrom]
  simp only [hlimit, false_and, if_false, and_continuation]

/-- A word that has the groups in front of a byte is filled with what a scan from that byte on finds. -/
theorem unsignedFrom_eq (hbits : bits ≤ 64) (hindex : 7 * index < bits)
    (hword : word.toNat < 2 ^ (7 * index)) (bytes : List UInt8) :
    (unsignedFrom bits index word bytes).map 0 UInt64.toNat =
      (scanUnsigned (bits - 7 * index) bytes).map index fun v => word.toNat + v * 2 ^ (7 * index) := by
  induction bytes generalizing index word with
  | nil => rfl
  | cons b rest ih =>
    rcases Nat.lt_or_ge (7 * index + 7) bits with hwide | hlast
    · have hfilled := @toNat_or_group word b (7 * index) 7 (by omega) hword
        (Nat.mod_lt _ (by decide)) (by omega)
      rw [unsignedFrom_inner hwide, scanUnsigned_inner (by omega)]
      by_cases hend : b.toNat < 128
      · simp only [if_pos hend, Scan.map, hfilled, Nat.mod_eq_of_lt hend, Nat.zero_add]
      · have hnext := groups_lt hword b
        rw [← hfilled] at hnext
        simp only [if_neg hend]
        rw [ih hwide hnext, Scan.map_push, Nat.sub_sub, hfilled]
        congr 1
        funext v
        rw [Function.comp_apply]
        ring
    · rw [unsignedFrom_last hindex hlast, scanUnsigned_last (by omega) (by omega)]
      by_cases hfits : b.toNat < 1 <<< (bits - 7 * index)
      · rw [if_pos hfits, if_pos hfits]
        rw [one_shiftLeft] at hfits
        have hfilled := @toNat_or_group word b (7 * index) (bits - 7 * index) (by omega) hword
          (Nat.lt_of_le_of_lt (Nat.mod_le _ _) hfits) (by omega)
        have hgroup : b.toNat % 128 = b.toNat := Nat.mod_eq_of_lt (Nat.lt_of_lt_of_le hfits
          (Nat.pow_le_pow_right (by decide) (by omega : bits - 7 * index ≤ 7)))
        simp only [Scan.map, hfilled, hgroup, Nat.zero_add]
      · rw [if_neg hfits, if_neg hfits]
        rfl

end Unsigned

/-! ## Words with a sign -/

theorem toUInt64_shiftLeft {s : Nat} (hs : s < 64) (x : Int64) :
    (x <<< Int64.ofNat s).toUInt64 = x.toUInt64 <<< UInt64.ofNat s := by
  have hplaces : ∀ s : Fin 64, (Int64.ofNat s.val).toBitVec.smod 64 =
      (UInt64.ofNat s.val).toBitVec % 64 := by decide +kernel
  apply UInt64.toBitVec_inj.mp
  rw [UInt64.toBitVec_shiftLeft, Int64.toBitVec_toUInt64, Int64.toBitVec_toUInt64,
    Int64.toBitVec_shiftLeft, hplaces ⟨s, hs⟩]

theorem toUInt64_or_group {s : Nat} (hs : s < 64) (word : Int64) (b : UInt8) :
    (word ||| (b &&& 0x7F).toUInt64.toInt64 <<< Int64.ofNat s).toUInt64 =
      word.toUInt64 ||| (b &&& 0x7F).toUInt64 <<< UInt64.ofNat s := by
  rw [Int64.toUInt64_or, toUInt64_shiftLeft hs]
  rfl

theorem toInt_eq (x : Int64) : x.toInt =
    if 2 * x.toUInt64.toNat < 2 ^ 64 then (x.toUInt64.toNat : Int) else x.toUInt64.toNat - 2 ^ 64 := by
  rw [← Int64.toInt_toBitVec, BitVec.toInt_eq_toNat_cond]
  rfl

/-- All bits from the place `k` on are set. -/
theorem toInt_or_sign {x : Int64} {k : Nat} (hk : k < 64) (hx : x.toUInt64.toNat < 2 ^ k) :
    (x ||| (-1) <<< Int64.ofNat k).toInt = x.toUInt64.toNat - (2 ^ k : Nat) := by
  have hones : ∀ k : Fin 64, ((-1 : Int64) <<< Int64.ofNat k.val).toUInt64.toNat =
      (2 ^ (64 - k.val) - 1) * 2 ^ k.val := by decide +kernel
  have hwhole : 2 ^ (64 - k) * 2 ^ k = 2 ^ 64 := by
    rw [← Nat.pow_add]
    congr 1
    omega
  have hhalf : 2 * 2 ^ k ≤ 2 ^ 64 := by
    rw [← Nat.pow_succ']
    exact Nat.pow_le_pow_right (by decide) hk
  have hset : (x ||| (-1) <<< Int64.ofNat k).toUInt64.toNat =
      x.toUInt64.toNat + (2 ^ 64 - 2 ^ k) := by
    rw [Int64.toUInt64_or, UInt64.toNat_or, hones ⟨k, hk⟩, or_group_toNat hx, Nat.sub_mul, hwhole,
      Nat.one_mul]
  rw [toInt_eq, hset, if_neg (by omega)]
  omega

/-- The sign of the last group is that of the word: where the group has no place for all of its bits,
those that are dropped repeat the one that is kept. -/
theorem toInt_extend {word : Int64} {b : UInt8} {s : Nat} (hword : word.toUInt64.toNat < 2 ^ s)
    (hplace : s + 7 < 64 ∨ s = 63 ∧ -1 ≤ signedGroup b ∧ signedGroup b < 1) :
    (extend (word ||| (b &&& 0x7F).toUInt64.toInt64 <<< Int64.ofNat s) (s + 7) b).toInt =
      word.toUInt64.toNat + signedGroup b * (2 ^ s : Nat) := by
  have hpattern := toUInt64_or_group (by omega : s < 64) word b
  generalize word ||| (b &&& 0x7F).toUInt64.toInt64 <<< Int64.ofNat s = filled at hpattern ⊢
  obtain hroom | ⟨rfl, hlow, hhigh⟩ := hplace
  · have hfilled : filled.toUInt64.toNat = word.toUInt64.toNat + b.toNat % 128 * 2 ^ s := by
      rw [hpattern]
      exact toNat_or_group (by omega) hword (Nat.mod_lt _ (by decide)) (by omega : s + 7 ≤ 64)
    have hlt : filled.toUInt64.toNat < 2 ^ (s + 7) := by
      rw [hfilled]
      exact groups_lt hword b
    unfold extend signedGroup
    by_cases hsign : b &&& 0x40 = 0
    · have hhalf : 2 ^ (s + 7) ≤ 2 ^ 63 := Nat.pow_le_pow_right (by decide) (by omega)
      rw [if_neg fun h => h.2 hsign, if_pos ((and_sign b).mp hsign), toInt_eq, if_pos (by omega),
        hfilled, Int.natCast_add, Int.natCast_mul]
    · rw [if_pos ⟨hroom, hsign⟩, if_neg fun h => hsign ((and_sign b).mpr h), toInt_or_sign hroom hlt,
        hfilled, Nat.pow_add]
      push_cast
      ring
  · have hfilled : filled.toUInt64.toNat = word.toUInt64.toNat + b.toNat % 2 * 2 ^ 63 := by
      rw [hpattern, toNat_or_top hword]
    have hfull : extend filled (63 + 7) b = filled := if_neg fun h => absurd h.1 (by decide)
    rw [hfull, toInt_eq, hfilled]
    unfold signedGroup at hlow hhigh ⊢
    split at hlow <;> split <;> omega

section Signed
variable {bits index : Nat} {word : Int64} {b : UInt8}

theorem scanSigned_last (hpos : 0 < bits) (hlast : bits ≤ 7) (rest : List UInt8) :
    scanSigned bits (b :: rest) =
      if b.toNat < 128 ∧ -((1 <<< (bits - 1) : Nat) : Int) ≤ signedGroup b ∧
          signedGroup b < (1 <<< (bits - 1) : Nat) then .value (signedGroup b) 1
      else .overflow := by
  rw [scanSigned, if_neg (by omega), if_pos hlast]

theorem scanSigned_inner (hwide : 7 < bits) (rest : List UInt8) :
    scanSigned bits (b :: rest) =
      if b.toNat < 128 then .value (signedGroup b) 1
      else (scanSigned (bits - 7) rest).push fun v => (b.toNat % 128 : Nat) + 128 * v := by
  rw [scanSigned, if_neg (by omega), if_neg (by omega)]

theorem signedFrom_last (hindex : 7 * index < bits) (hlast : bits ≤ 7 * index + 7)
    (rest : List UInt8) : signedFrom bits index word (b :: rest) =
      if b.toNat < 128 ∧ -((1 <<< (bits - 7 * index - 1) : Nat) : Int) ≤ signedGroup b ∧
          signedGroup b < (1 <<< (bits - 7 * index - 1) : Nat) then
        .value (extend (word ||| (b &&& 0x7F).toUInt64.toInt64 <<< Int64.ofNat (7 * index))
          (7 * index + 7) b) (index + 1)
      else .overflow := by
  have hlimit : index + 1 = maxLength bits := by
    unfold maxLength
    omega
  have hrefused := @signed_refused_iff (bits - 7 * index) (by omega) (by omega) b
  rw [signedFrom]
  by_cases hfits : b.toNat < 128 ∧ -((1 <<< (bits - 7 * index - 1) : Nat) : Int) ≤ signedGroup b ∧
      signedGroup b < (1 <<< (bits - 7 * index - 1) : Nat)
  · dsimp only
    rw [if_pos hfits, if_neg fun h => hrefused.mp h.2 hfits,
      if_pos ((and_continuation b).mpr hfits.1)]
  · rw [if_neg hfits]
    exact if_pos ⟨hlimit, hrefused.mpr hfits⟩

theorem signedFrom_inner (hwide : 7 * index + 7 < bits) (rest : List UInt8) :
    signedFrom bits index word (b :: rest) =
      let filled := word ||| (b &&& 0x7F).toUInt64.toInt64 <<< Int64.ofNat (7 * index)
      if b.toNat < 128 then .value (extend filled (7 * index + 7) b) (index + 1)
      else signedFrom bits (index + 1) filled rest := by
  have hlimit : index + 1 ≠ maxLength bits := by
    unfold maxLength
    omega
  rw [signedFrom]
  simp only [hlimit, false_and, if_false, and_continuation]

/-- The same for words with a sign, whose groups in front are not negative yet. -/
theorem signedFrom_eq (hbits : bits ≤ 64) (hindex : 7 * index < bits)
    (hword : word.toUInt64.toNat < 2 ^ (7 * index)) (bytes : List UInt8) :
    (signedFrom bits index word bytes).map 0 Int64.toInt =
      (scanSigned (bits - 7 * index) bytes).map index
        fun v => (word.toUInt64.toNat : Int) + v * (2 ^ (7 * index) : Nat) := by
  induction bytes generalizing index word with
  | nil => rfl
  | cons b rest ih =>
    rcases Nat.lt_or_ge (7 * index + 7) bits with hwide | hlast
    · rw [signedFrom_inner hwide, scanSigned_inner (by omega)]
      by_cases hend : b.toNat < 128
      · have hvalue := @toInt_extend word b (7 * index) hword (.inl (by omega))
        simp only [if_pos hend, Scan.map, hvalue, Nat.zero_add]
      · have hfilled := @toNat_or_group word.toUInt64 b (7 * index) 7 (by omega) hword
          (Nat.mod_lt _ (by decide)) (by omega)
        rw [← toUInt64_or_group (by omega)] at hfilled
        have hnext := groups_lt hword b
        rw [← hfilled] at hnext
        simp only [if_neg hend]
        rw [ih hwide hnext, Scan.map_push, Nat.sub_sub, hfilled]
        congr 1
        funext v
        rw [Function.comp_apply]
        push_cast
        ring
    · rw [signedFrom_last hindex hlast, scanSigned_last (by omega) (by omega)]
      split
      · next hfits =>
        have hplace : 7 * index + 7 < 64 ∨ 7 * index = 63 ∧ -1 ≤ signedGroup b ∧ signedGroup b < 1 := by
          rcases Nat.lt_or_ge (7 * index + 7) 64 with hroom | hfull
          · exact .inl hroom
          · have hone : bits - 7 * index - 1 = 0 := by omega
            rw [hone] at hfits
            exact .inr ⟨by omega, hfits.2⟩
        simp only [Scan.map, toInt_extend hword hplace, Nat.zero_add]
      · rfl

end Signed

/-! ## Reads by way of a word -/

section Words
variable {bits : Nat}

theorem unsignedWord_eq (hpos : 0 < bits) (hbits : bits ≤ 64) (bytes : List UInt8) :
    (unsignedWord bits bytes).map 0 UInt64.toNat = scanUnsigned bits bytes := by
  have hloop := @unsignedFrom_eq bits 0 0 hbits (by omega) (by decide) (bytes.take (maxLength bits))
  rw [Nat.mul_zero, Nat.sub_zero, scanUnsigned_take, Scan.map_zero fun v => by simp] at hloop
  exact hloop

theorem signedWord_eq (hpos : 0 < bits) (hbits : bits ≤ 64) (bytes : List UInt8) :
    (signedWord bits bytes).map 0 Int64.toInt = scanSigned bits bytes := by
  have hzero : (Int64.toUInt64 0).toNat = 0 := rfl
  have hloop := @signedFrom_eq bits 0 0 hbits (by omega) (by decide) (bytes.take (maxLength bits))
  rw [Nat.mul_zero, Nat.sub_zero, scanSigned_take, Scan.map_zero fun v => by simp [hzero]] at hloop
  exact hloop

def readUnsignedWord (bits : Nat) : Reader UInt64 := fun c =>
  ofScan false bits c.offset (unsignedWord bits c.rest)

def readSignedWord (bits : Nat) : Reader Int64 := fun c =>
  ofScan true bits c.offset (signedWord bits c.rest)

theorem ofScan_map {α β : Type} {r : Reader α} {sign : Bool} {c : Cursor} {s : Scan α}
    (hr : r c = ofScan sign bits c.offset s) (f : α → β) :
    (r >>= fun a => pure (f a)) c = ofScan sign bits c.offset (s.map 0 f) := by
  rw [bind_run, hr]
  cases s with
  | value a n =>
    rw [Scan.map, Nat.zero_add]
    rfl
  | incomplete => rfl
  | overflow => rfl

theorem unsigned_eq (hpos : 0 < bits) (hbits : bits ≤ 64) :
    Reader.unsigned bits = do return (← readUnsignedWord bits).toNat := by
  funext c
  rw [ofScan_map rfl, unsignedWord_eq hpos hbits]
  rfl

theorem signed_eq (hpos : 0 < bits) (hbits : bits ≤ 64) :
    Reader.signed bits = do return (← readSignedWord bits).toInt := by
  funext c
  rw [ofScan_map rfl, signedWord_eq hpos hbits]
  rfl

/-- What is decided about a number is decided about the word that stands for it. -/
theorem Decided.of_map {α β : Type} {r : Reader α} {f : α → β} (hf : ∀ a b, f a = f b → a = b)
    {c : Cursor} {value : β → Nat → Prop} {unfinished : Prop} {overflow : Error}
    (h : Decided ((r >>= fun a => pure (f a)) c) value unfinished overflow) :
    Decided (r c) (fun a n => value (f a) n) unfinished overflow := by
  apply decided_of
  · intro a n
    rw [← h.done_iff, map_eq_done]
    constructor
    · intro hr
      exact ⟨a, hr, rfl⟩
    · rintro ⟨b, hr, heq⟩
      rwa [hf a b heq]
  · rw [← h.needMore_iff, bind_run]
    cases r c <;> simp [pure_run, Outcome.after]
  · intro e hr
    exact ((h.fail_iff e).mp (bind_eq_fail.mpr (.inl hr))).1

/-- Up to 64 bits the words hold the numbers, and what a read comes to in a word is read off the bytes
in the same way. -/
structure InWords (bits offset : Nat) (bytes : List UInt8) : Prop where
  scan_unsigned : (unsignedWord bits bytes).map 0 UInt64.toNat = scanUnsigned bits bytes
  scan_signed : (signedWord bits bytes).map 0 Int64.toInt = scanSigned bits bytes
  unsigned : Decided (readUnsignedWord bits ⟨offset, bytes⟩)
    (fun x n => UnsignedAt bits bytes x.toNat n) (Unfinished bits bytes)
    (.integerTooLarge false bits offset)
  signed : Decided (readSignedWord bits ⟨offset, bytes⟩)
    (fun x n => SignedAt bits bytes x.toInt n) (Unfinished bits bytes)
    (.integerTooLarge true bits offset)

theorem inWords (hpos : 0 < bits) (hbits : bits ≤ 64) (offset : Nat) (bytes : List UInt8) :
    InWords bits offset bytes where
  scan_unsigned := unsignedWord_eq hpos hbits bytes
  scan_signed := signedWord_eq hpos hbits bytes
  unsigned := by
    have h := decided_unsigned hpos offset bytes
    rw [unsigned_eq hpos hbits] at h
    exact h.of_map fun _ _ => UInt64.toNat_inj.mp
  signed := by
    have h := decided_signed hpos offset bytes
    rw [signed_eq hpos hbits] at h
    exact h.of_map fun _ _ => Int64.toInt_inj.mp

theorem range_of_readSignedWord (hpos : 0 < bits) (hbits : bits ≤ 64) {c : Cursor} {x : Int64} {n : Nat}
    (h : readSignedWord bits c = .done x n) :
    -(2 : Int) ^ (bits - 1) ≤ x.toInt ∧ x.toInt < (2 : Int) ^ (bits - 1) :=
  (((inWords hpos hbits c.offset c.rest).signed.done_iff x n).mp h).inRange

end Words

/-- A number of a fixed width is taken from its word, and of a word that is cut to 32 bits no bit is
lost. -/
structure CutToWidth (c : Cursor) : Prop where
  u64 : Reader.u64 c = readUnsignedWord 64 c
  i64 : Reader.i64 c = readSignedWord 64 c
  u32 : Reader.u32 c = (do return (← readUnsignedWord 32).toUInt32 : Reader UInt32) c
  u32_kept : ∀ x n, readUnsignedWord 32 c = .done x n → x.toUInt32.toUInt64 = x
  i32 : Reader.i32 c = (do return (← readSignedWord 32).toInt32 : Reader Int32) c
  i32_kept : ∀ x n, readSignedWord 32 c = .done x n → x.toInt32.toInt64 = x
  typeIndex : ∀ (index : UInt32) (n : Nat), BlockType.reader c = .done (.typeIndex index) n ↔
    ∃ x, readSignedWord 33 c = .done x n ∧ 0 ≤ x.toInt ∧ index = x.toUInt64.toUInt32
  typeIndex_kept : ∀ x n, readSignedWord 33 c = .done x n → 0 ≤ x.toInt →
    x.toUInt64.toUInt32.toUInt64.toInt64 = x

/-- A word that is not negative is the same number without its sign. -/
theorem toNat_toUInt64 {x : Int64} (hle : 0 ≤ x.toInt) : (x.toUInt64.toNat : Int) = x.toInt := by
  have hlt := x.toUInt64.toNat_lt
  rw [toInt_eq] at hle ⊢
  split at hle <;> split <;> omega

theorem toUInt64_toUInt32_eq {x : UInt64} (hlt : x.toNat < 2 ^ 32) : x.toUInt32.toUInt64 = x := by
  rw [← UInt64.toNat_inj, UInt32.toNat_toUInt64, UInt64.toNat_toUInt32, Nat.mod_eq_of_lt hlt]

/-- An index is a word of 33 bits that is not negative, and its lower half is all of it. -/
theorem reader_typeIndex_iff {c : Cursor} {index : UInt32} {n : Nat} :
    BlockType.reader c = .done (.typeIndex index) n ↔
      ∃ x, readSignedWord 33 c = .done x n ∧ 0 ≤ x.toInt ∧ index = x.toUInt64.toUInt32 := by
  have hnumber : BlockType.reader c = .done (.typeIndex index) n ↔
      Reader.signed 33 c = .done (index.toNat : Int) n := by
    rw [(lossless c).typeIndex]
    constructor
    · intro h
      exact ⟨index, rfl, h⟩
    · rintro ⟨other, hother, h⟩
      rwa [UInt32.toNat_inj.mp hother] at h
  rw [hnumber, signed_eq (by decide) (by decide), map_eq_done]
  constructor
  · rintro ⟨x, hx, hvalue⟩
    have hle : 0 ≤ x.toInt := by omega
    have hword := toNat_toUInt64 hle
    have hlt := index.toNat_lt
    refine ⟨x, hx, hle, ?_⟩
    rw [← UInt32.toNat_inj, UInt64.toNat_toUInt32]
    omega
  · rintro ⟨x, hx, hle, rfl⟩
    have hrange := range_of_readSignedWord (by decide) (by decide) hx
    have hword := toNat_toUInt64 hle
    refine ⟨x, hx, ?_⟩
    rw [UInt64.toNat_toUInt32]
    omega

theorem cutToWidth (c : Cursor) : CutToWidth c where
  u64 := by
    rw [Reader.u64, unsigned_eq (by decide) (by decide)]
    simp only [bind_assoc, pure_bind, UInt64.ofNat_toNat, bind_pure]
  i64 := by
    rw [Reader.i64, signed_eq (by decide) (by decide)]
    simp only [bind_assoc, pure_bind, Int64.ofInt_toInt, bind_pure]
  u32 := by
    rw [Reader.u32, unsigned_eq (by decide) (by decide)]
    simp only [bind_assoc, pure_bind, UInt32.ofNat_uInt64ToNat]
  u32_kept x n hread := by
    have hword := (inWords (by decide) (by decide : 32 ≤ 64) c.offset c.rest).unsigned
    exact toUInt64_toUInt32_eq ((hword.done_iff x n).mp hread).inRange
  i32 := by
    rw [Reader.i32, signed_eq (by decide) (by decide)]
    simp only [bind_assoc, pure_bind, Int32.ofInt_int64ToInt]
  i32_kept x n hread := by
    obtain ⟨hle, hlt⟩ := range_of_readSignedWord (by decide) (by decide) hread
    rw [← Int64.toInt_inj, Int32.toInt_toInt64, Int64.toInt_toInt32, Int.bmod_eq_of_le]
    · omega
    · omega
  typeIndex index n := reader_typeIndex_iff
  typeIndex_kept x n hread hle := by
    have hrange := range_of_readSignedWord (by decide) (by decide) hread
    have hword := toNat_toUInt64 hle
    rw [toUInt64_toUInt32_eq (by omega)]
    rfl

/-- For every width, what a read comes to is read off the high bits and the groups of the bytes ahead;
in the fixed widths nothing of the number is lost. Up to 64 bits all of it is done in words. -/
theorem read_decided {bits : Nat} (hbits : 0 < bits) (offset : Nat) (bytes : List UInt8) :
    Decided (Reader.unsigned bits ⟨offset, bytes⟩) (UnsignedAt bits bytes) (Unfinished bits bytes)
        (.integerTooLarge false bits offset) ∧
      Decided (Reader.signed bits ⟨offset, bytes⟩) (SignedAt bits bytes) (Unfinished bits bytes)
        (.integerTooLarge true bits offset) ∧
      Lossless ⟨offset, bytes⟩ ∧ (bits ≤ 64 → InWords bits offset bytes) ∧
      CutToWidth ⟨offset, bytes⟩ :=
  ⟨decided_unsigned hbits offset bytes, decided_signed hbits offset bytes, lossless _,
    fun hle => inWords hbits hle offset bytes, cutToWidth _⟩

/-- The lowest number of 64 bits, in ten bytes of which the last has one bit of the number and six of
its sign. -/
theorem read_decided_lowest :
    0 < 64 ∧ 64 ≤ 64 ∧
      Reader.signed 64 ⟨3, List.replicate 9 0x80 ++ [0x7F, 0x05]⟩ = .done (-2 ^ 63) 10 ∧
      readSignedWord 64 ⟨3, List.replicate 9 0x80 ++ [0x7F, 0x05]⟩ = .done Int64.minValue 10 := by
  have hread := @read_decided 64 (by decide) 3 (List.replicate 9 0x80 ++ [0x7F, 0x05])
  have hlowest : SignedAt 64 (List.replicate 9 0x80 ++ [0x7F, 0x05]) (-2 ^ 63) 10 := {
    le_maxLength := by decide
    le_length := by decide
    closed := ⟨List.replicate 9 0x80, 0x7F, rfl,
      fun b hb => by rw [List.eq_of_mem_replicate hb]; decide, by decide⟩
    value_eq := by decide
    inRange := by decide }
  refine ⟨by decide, by decide, (hread.2.1.done_iff _ _).mpr hlowest, ?_⟩
  exact ((hread.2.2.2.1 (by decide)).signed.done_iff _ _).mpr hlowest

end Leb128
end WasmStream
