import Mathlib.Algebra.Group.Int.Defs
import Mathlib.Algebra.Group.Nat.Defs
import WasmStream.Proofs.Grammar.Basic

/-! The written forms of LEB128 numbers. The readers are exact for them, and the shortest form is one
of them. -/
namespace WasmStream
open Reader

namespace Leb128

/-- Unsigned numbers below `2 ^ bits`, padded or not. -/
inductive Unsigned : (bits : Nat) → Grammar Nat
  | last {bits : Nat} {b : UInt8} : 0 < bits → b.toNat < 128 → b.toNat < 2 ^ bits →
      Unsigned bits b.toNat [b]
  | more {bits v : Nat} {b : UInt8} {w : List UInt8} : 7 < bits → 128 ≤ b.toNat →
      Unsigned (bits - 7) v w → Unsigned bits (b.toNat % 128 + 128 * v) (b :: w)

/-- Two's complement numbers from `-2 ^ (bits - 1)` to below `2 ^ (bits - 1)`, padded or not. -/
inductive Signed : (bits : Nat) → Grammar Int
  | last {bits : Nat} {b : UInt8} : 0 < bits → b.toNat < 128 →
      -(2 : Int) ^ (bits - 1) ≤ signedGroup b → signedGroup b < (2 : Int) ^ (bits - 1) →
      Signed bits (signedGroup b) [b]
  | more {bits : Nat} {v : Int} {b : UInt8} {w : List UInt8} : 7 < bits → 128 ≤ b.toNat →
      Signed (bits - 7) v w → Signed bits ((b.toNat % 128 : Nat) + 128 * v) (b :: w)

theorem one_shiftLeft (n : Nat) : 1 <<< n = 2 ^ n := Nat.one_shiftLeft n

theorem cast_one_shiftLeft (n : Nat) : ((1 <<< n : Nat) : Int) = 2 ^ n := by
  rw [one_shiftLeft]
  exact Int.natCast_pow 2 n

theorem pow_split {bits : Nat} (h : 7 ≤ bits) : 2 ^ bits = 128 * 2 ^ (bits - 7) := by
  rw [show (128 : Nat) = 2 ^ 7 by rfl, ← Nat.pow_add, Nat.add_sub_cancel' h]

theorem pow_pred_split {bits : Nat} (h : 7 < bits) :
    (2 : Int) ^ (bits - 1) = 128 * (2 : Int) ^ (bits - 7 - 1) := by
  rw [show (128 : Int) = 2 ^ 7 by rfl, ← Int.pow_add]
  congr 1
  omega

theorem signedGroup_range (b : UInt8) : -64 ≤ signedGroup b ∧ signedGroup b < 64 := by
  unfold signedGroup
  split <;> omega

theorem Unsigned.lt {bits v : Nat} {w : List UInt8} (h : Unsigned bits v w) : v < 2 ^ bits := by
  induction h with
  | last _ _ hlt => exact hlt
  | more hbits _ _ ih =>
    rw [pow_split (by omega)]
    omega

theorem Signed.range {bits : Nat} {v : Int} {w : List UInt8} (h : Signed bits v w) :
    -(2 : Int) ^ (bits - 1) ≤ v ∧ v < (2 : Int) ^ (bits - 1) := by
  induction h with
  | last _ _ hle hlt => exact ⟨hle, hlt⟩
  | more hbits _ _ ih =>
    rw [pow_pred_split hbits]
    omega

theorem Unsigned.scan {bits v : Nat} {w : List UInt8} (h : Unsigned bits v w) (rest : List UInt8) :
    scanUnsigned bits (w ++ rest) = .value v w.length := by
  induction h with
  | last hbits hb hlt =>
    simp only [List.cons_append, scanUnsigned, one_shiftLeft, if_pos hb, if_pos hlt]
    rw [if_neg (by omega)]
    split <;> rfl
  | more hbits hb _ ih =>
    simp only [List.cons_append, scanUnsigned, ih, Scan.push]
    rw [if_neg (by omega), if_neg (by omega), if_neg (by omega)]
    rfl

theorem unsigned_of_scan {bits v n : Nat} {l : List UInt8} (h : scanUnsigned bits l = .value v n) :
    n ≤ l.length ∧ Unsigned bits v (l.take n) := by
  induction l generalizing bits v n with
  | nil => cases h
  | cons b rest ih =>
    simp only [scanUnsigned, one_shiftLeft] at h
    split at h
    · cases h
    next hbits =>
    split at h
    · next hsmall =>
      split at h
      · next hlt =>
        cases h
        have hpow : 2 ^ bits ≤ 2 ^ 7 := Nat.pow_le_pow_right (by decide) hsmall
        exact ⟨by simp, .last (by omega) (by omega) hlt⟩
      · cases h
    next hwide =>
    split at h
    · next hb =>
      cases h
      have hpow : 2 ^ 7 ≤ 2 ^ bits := Nat.pow_le_pow_right (by decide) (by omega)
      exact ⟨by simp, .last (by omega) hb (by omega)⟩
    next hb =>
    cases hr : scanUnsigned (bits - 7) rest with
    | value v' n' =>
      rw [hr] at h
      cases h
      obtain ⟨hn, hv⟩ := ih hr
      exact ⟨by simpa using hn, .more (by omega) (by omega) hv⟩
    | incomplete => rw [hr] at h; cases h
    | overflow => rw [hr] at h; cases h

theorem Signed.scan {bits : Nat} {v : Int} {w : List UInt8} (h : Signed bits v w)
    (rest : List UInt8) : scanSigned bits (w ++ rest) = .value v w.length := by
  induction h with
  | last hbits hb hle hlt =>
    have hrange := And.intro hb (And.intro hle hlt)
    simp only [List.cons_append, scanSigned, cast_one_shiftLeft, if_pos hb]
    rw [if_neg (by omega), if_pos hrange]
    split <;> rfl
  | more hbits hb _ ih =>
    simp only [List.cons_append, scanSigned, ih, Scan.push]
    rw [if_neg (by omega), if_neg (by omega), if_neg (by omega)]
    rfl

theorem signed_of_scan {bits n : Nat} {v : Int} {l : List UInt8}
    (h : scanSigned bits l = .value v n) : n ≤ l.length ∧ Signed bits v (l.take n) := by
  induction l generalizing bits v n with
  | nil => cases h
  | cons b rest ih =>
    simp only [scanSigned, cast_one_shiftLeft] at h
    split at h
    · cases h
    next hbits =>
    split at h
    · split at h
      · next hb =>
        cases h
        exact ⟨by simp, .last (by omega) hb.1 hb.2.1 hb.2.2⟩
      · cases h
    next hwide =>
    split at h
    · next hb =>
      cases h
      have hgroup := signedGroup_range b
      have hpow : (0 : Int) < 2 ^ (bits - 7 - 1) := Int.pow_pos (by decide)
      have hsplit : (2 : Int) ^ (bits - 1) = 128 * (2 : Int) ^ (bits - 7 - 1) :=
        pow_pred_split (by omega)
      exact ⟨by simp, .last (by omega) hb (by omega) (by omega)⟩
    next hb =>
    cases hr : scanSigned (bits - 7) rest with
    | value v' n' =>
      rw [hr] at h
      cases h
      obtain ⟨hn, hv⟩ := ih hr
      exact ⟨by simpa using hn, .more (by omega) (by omega) hv⟩
    | incomplete => rw [hr] at h; cases h
    | overflow => rw [hr] at h; cases h

theorem reads_unsigned (bits : Nat) : Reads (Reader.unsigned bits) (Unsigned bits) := by
  refine reads_of (fun {c v n} h => ?_) fun {v w} h offset rest => ?_
  · unfold Reader.unsigned at h
    cases hs : scanUnsigned bits c.rest with
    | value v' n' =>
      rw [hs] at h
      cases h
      exact unsigned_of_scan hs
    | incomplete => rw [hs] at h; cases h
    | overflow => rw [hs] at h; cases h
  · simp only [Reader.unsigned, h.scan, Reader.ofScan]

theorem reads_signed (bits : Nat) : Reads (Reader.signed bits) (Signed bits) := by
  refine reads_of (fun {c v n} h => ?_) fun {v w} h offset rest => ?_
  · unfold Reader.signed at h
    cases hs : scanSigned bits c.rest with
    | value v' n' =>
      rw [hs] at h
      cases h
      exact signed_of_scan hs
    | incomplete => rw [hs] at h; cases h
    | overflow => rw [hs] at h; cases h
  · simp only [Reader.signed, h.scan, Reader.ofScan]

theorem unsigned_ofNat {bits v : Nat} (hbits : 0 < bits) (hv : v < 2 ^ bits) :
    Unsigned bits v (ofNat v) := by
  induction v using Nat.strongRecOn generalizing bits with
  | ind v ih =>
    rw [ofNat]
    split
    · next hsmall =>
      have hb : (UInt8.ofNat v).toNat = v := UInt8.toNat_ofNat_of_lt' (by simp [UInt8.size]; omega)
      have h := Unsigned.last (b := UInt8.ofNat v) hbits (by omega) (by omega)
      rwa [hb] at h
    · next hlarge =>
      have hb : (UInt8.ofNat (v % 128 + 128)).toNat = v % 128 + 128 :=
        UInt8.toNat_ofNat_of_lt' (by simp [UInt8.size]; omega)
      have hwide : 7 < bits := by
        apply Nat.lt_of_not_le
        intro hle
        have hpow : 2 ^ bits ≤ 2 ^ 7 := Nat.pow_le_pow_right (by decide) hle
        omega
      have hrest : Unsigned (bits - 7) (v / 128) (ofNat (v / 128)) := by
        rw [pow_split (by omega)] at hv
        exact ih (v / 128) (by omega) (by omega) (by omega)
      have h := Unsigned.more (b := UInt8.ofNat (v % 128 + 128)) hwide (by omega) hrest
      rw [hb] at h
      rwa [show (v % 128 + 128) % 128 + 128 * (v / 128) = v by omega] at h

theorem signed_ofInt {bits : Nat} {v : Int} (hbits : 0 < bits) (hle : -(2 : Int) ^ (bits - 1) ≤ v)
    (hlt : v < (2 : Int) ^ (bits - 1)) : Signed bits v (ofInt v) := by
  induction hm : v.natAbs using Nat.strongRecOn generalizing v bits with
  | ind m ih =>
    rw [ofInt]
    split
    · next hsmall =>
      have hb : (UInt8.ofNat (v % 128).toNat).toNat = (v % 128).toNat :=
        UInt8.toNat_ofNat_of_lt' (by simp [UInt8.size]; omega)
      have hgroup : signedGroup (UInt8.ofNat (v % 128).toNat) = v := by
        unfold signedGroup
        rw [hb]
        split <;> omega
      have h := Signed.last (b := UInt8.ofNat (v % 128).toNat) hbits (by omega) (by omega) (by omega)
      rwa [hgroup] at h
    · next hlarge =>
      have hb : (UInt8.ofNat ((v % 128).toNat + 128)).toNat = (v % 128).toNat + 128 :=
        UInt8.toNat_ofNat_of_lt' (by simp [UInt8.size]; omega)
      have hwide : 7 < bits := by
        apply Nat.lt_of_not_le
        intro h7
        have hpow : (2 : Nat) ^ (bits - 1) ≤ 2 ^ 6 := Nat.pow_le_pow_right (by decide) (by omega)
        have hpow' : (2 : Int) ^ (bits - 1) ≤ 64 := by exact_mod_cast hpow
        omega
      rw [pow_pred_split hwide] at hle hlt
      have hrest : Signed (bits - 7) (v / 128) (ofInt (v / 128)) :=
        ih (v / 128).natAbs (by omega) (by omega) (by omega) (by omega) rfl
      have h := Signed.more (b := UInt8.ofNat ((v % 128).toNat + 128)) hwide (by omega) hrest
      rw [hb] at h
      rwa [show ((((v % 128).toNat + 128) % 128 : Nat) : Int) + 128 * (v / 128) = v by omega] at h

end Leb128

namespace Grammar
open Leb128

def U32 : Grammar UInt32 := fun n w => Unsigned 32 n.toNat w

def I32 : Grammar Int32 := fun n w => Signed 32 n.toInt w

def I64 : Grammar Int64 := fun n w => Signed 64 n.toInt w

/-- The number of items, and the items. -/
def Counted {α : Type} (G : Grammar α) : Grammar (List α) :=
  fun l w => ∃ n u v, U32 n u ∧ n.toNat = l.length ∧ Many G l v ∧ w = u ++ v

theorem Counted.length_lt {α : Type} {G : Grammar α} {l : List α} {w : List UInt8}
    (h : Counted G l w) : l.length < 2 ^ 32 := by
  obtain ⟨n, u, v, -, hlen, -, -⟩ := h
  rw [← hlen]
  exact n.toNat_lt

theorem reads_u32 : Reads Reader.u32 U32 := by
  refine (reads_unsigned 32).map fun n w => ?_
  constructor
  · intro h
    exact ⟨n.toNat, UInt32.ofNat_toNat.symm, h⟩
  · rintro ⟨v, rfl, h⟩
    have hv : (UInt32.ofNat v).toNat = v := UInt32.toNat_ofNat_of_lt' h.lt
    rwa [U32, hv]

theorem reads_i32 : Reads Reader.i32 I32 := by
  refine (reads_signed 32).map fun n w => ?_
  constructor
  · intro h
    exact ⟨n.toInt, (Int32.ofInt_toInt n).symm, h⟩
  · rintro ⟨v, rfl, h⟩
    have hv : (Int32.ofInt v).toInt = v := Int32.toInt_ofInt_of_le h.range.1 h.range.2
    rwa [I32, hv]

theorem reads_i64 : Reads Reader.i64 I64 := by
  refine (reads_signed 64).map fun n w => ?_
  constructor
  · intro h
    exact ⟨n.toInt, (Int64.ofInt_toInt n).symm, h⟩
  · rintro ⟨v, rfl, h⟩
    have hv : (Int64.ofInt v).toInt = v := Int64.toInt_ofInt_of_le h.range.1 h.range.2
    rwa [I64, hv]

theorem u32_ofNat (n : UInt32) : U32 n (ofNat n.toNat) :=
  unsigned_ofNat (by decide) n.toNat_lt

theorem i32_ofInt (n : Int32) : I32 n (ofInt n.toInt) :=
  signed_ofInt (by decide) n.le_toInt n.toInt_lt

theorem i64_ofInt (n : Int64) : I64 n (ofInt n.toInt) :=
  signed_ofInt (by decide) n.le_toInt n.toInt_lt

theorem reads_counted {α : Type} {r : Reader α} {G : Grammar α} (hr : Reads r G) :
    Reads (Reader.u32 >>= fun n => Reader.times r n.toNat) (Counted G) := by
  refine (reads_u32.bind fun n => hr.times n.toNat).of_iff fun l w => ?_
  constructor
  · rintro ⟨n, u, v, hn, ⟨hlen, hl⟩, rfl⟩
    exact ⟨n, u, v, hn, hlen.symm, hl, rfl⟩
  · rintro ⟨n, u, v, hn, hlen, hl, rfl⟩
    exact ⟨n, u, v, hn, ⟨hlen.symm, hl⟩, rfl⟩

end Grammar
end WasmStream
