import Mathlib.Algebra.Group.Nat.Defs
import WasmStream.Word

/-! A number and its little-endian bytes. -/
namespace WasmStream

theorem ofLittleEndian_toLittleEndian (width n : Nat) :
    ofLittleEndian (toLittleEndian width n) = n % 256 ^ width := by
  induction width generalizing n with
  | zero => simp [toLittleEndian, ofLittleEndian, Nat.mod_one]
  | succ width ih =>
    have hb : (UInt8.ofNat n).toNat = n % 256 := UInt8.toNat_ofNat'
    rw [toLittleEndian, ofLittleEndian, ih, hb, Nat.pow_succ', Nat.mod_mul]

theorem toLittleEndian_ofLittleEndian (bytes : List UInt8) :
    toLittleEndian bytes.length (ofLittleEndian bytes) = bytes := by
  induction bytes with
  | nil => rfl
  | cons b rest ih =>
    have hb := b.toNat_lt
    have hd : (b.toNat + 256 * ofLittleEndian rest) / 256 = ofLittleEndian rest := by omega
    have hm : UInt8.ofNat (b.toNat + 256 * ofLittleEndian rest) = b := by
      apply UInt8.toNat.inj
      simp only [UInt8.toNat_ofNat']
      omega
    simp only [List.length_cons, toLittleEndian, ofLittleEndian, hd, hm, ih]

theorem ofLittleEndian_lt (w : List UInt8) : ofLittleEndian w < 256 ^ w.length := by
  have hmod := ofLittleEndian_toLittleEndian w.length (ofLittleEndian w)
  rw [toLittleEndian_ofLittleEndian] at hmod
  rw [hmod]
  exact Nat.mod_lt _ (Nat.pow_pos (by decide))

theorem eq_toLittleEndian_iff {width n : Nat} {w : List UInt8} (hn : n < 256 ^ width) :
    w = toLittleEndian width n ↔ w.length = width ∧ ofLittleEndian w = n := by
  constructor
  · rintro rfl
    rw [ofLittleEndian_toLittleEndian, Nat.mod_eq_of_lt hn]
    exact ⟨length_toLittleEndian width n, rfl⟩
  · rintro ⟨rfl, rfl⟩
    exact (toLittleEndian_ofLittleEndian w).symm

end WasmStream
