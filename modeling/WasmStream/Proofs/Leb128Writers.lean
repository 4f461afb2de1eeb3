import WasmStream.Proofs.Leb128Exactness

/-! Numbers as they are written. What is written for a number is read back in every width that the
number fits, is the shortest of its forms, and does not begin the form of another number. -/
namespace WasmStream
open Reader

namespace Reader
variable {α : Type} {r : Reader α} {G : Grammar α}

/-- A form is found in front of any bytes, so also in front of the rest of a longer form. -/
theorem Reads.unique_of_begins (hr : Reads r G) {a b : α} {u w : List UInt8} (ha : G a u) (hb : G b w)
    (h : u <+: w) : a = b := by
  obtain ⟨more, rfl⟩ := h
  have hshort : r ⟨0, u ++ more⟩ = .done a u.length := hr.complete ha 0
  have hlong : r ⟨0, u ++ more ++ []⟩ = .done b (u ++ more).length := hr.complete hb 0
  rw [List.append_nil, hshort] at hlong
  injection hlong

end Reader

namespace Leb128

/-! ## One group -/

theorem ofNat_of_lt {n : Nat} (h : n < 128) : ofNat n = [UInt8.ofNat n] := by
  rw [ofNat, if_pos h]

theorem ofNat_of_le {n : Nat} (h : 128 ≤ n) :
    ofNat n = UInt8.ofNat (n % 128 + 128) :: ofNat (n / 128) := by
  rw [ofNat, if_neg (Nat.not_lt_of_le h)]

theorem ofInt_of_fits {n : Int} (h : -64 ≤ n ∧ n < 64) : ofInt n = [UInt8.ofNat (n % 128).toNat] := by
  rw [ofInt, if_pos h]

theorem ofInt_of_not_fits {n : Int} (h : ¬(-64 ≤ n ∧ n < 64)) :
    ofInt n = UInt8.ofNat ((n % 128).toNat + 128) :: ofInt (n / 128) := by
  rw [ofInt, if_neg h]

/-! ## Writing words -/

theorem and_mask (b : UInt8) : b &&& 0x7F = UInt8.ofNat (b.toNat % 128) := by
  apply UInt8.toNat.inj
  rw [UInt8.toNat_and, UInt8.toNat_ofNat_of_lt' (by simp only [UInt8.size]; omega)]
  exact Nat.and_two_pow_sub_one_eq_mod b.toNat 7

theorem and_mask_or (b : UInt8) : b &&& 0x7F ||| 0x80 = UInt8.ofNat (b.toNat % 128 + 128) := by
  have hgroup : b.toNat % 128 < 2 ^ 7 := Nat.mod_lt _ (by decide)
  have hsum := Nat.two_pow_add_eq_or_of_lt hgroup 1
  apply UInt8.toNat.inj
  rw [and_mask, UInt8.toNat_or, UInt8.toNat_ofNat_of_lt' (by simp only [UInt8.size]; omega),
    UInt8.toNat_ofNat_of_lt' (by simp only [UInt8.size]; omega), Nat.or_comm, Nat.add_comm]
  exact hsum.symm

theorem and_mask_and_sign (b : UInt8) : b &&& 0x7F &&& 0x40 = 0 ↔ b.toNat % 128 < 64 := by
  have hsign : ∀ n : Fin 128, n.val &&& 64 = 0 ↔ n.val < 64 := by decide
  rw [← UInt8.toNat_inj, UInt8.toNat_and, and_mask,
    UInt8.toNat_ofNat_of_lt' (by simp only [UInt8.size]; omega)]
  exact hsign ⟨b.toNat % 128, Nat.mod_lt _ (by decide)⟩

/-- A word is written from its low end until what is left of it is zero. -/
theorem ofNat_toNat (x : UInt64) :
    ofNat x.toNat =
      let group := x.toUInt8 &&& 0x7F
      if x >>> 7 = 0 then [group] else (group ||| 0x80) :: ofNat (x >>> 7).toNat := by
  have hnext : (x >>> 7).toNat = x.toNat / 128 := by
    rw [UInt64.toNat_shiftRight]
    exact Nat.shiftRight_eq_div_pow x.toNat 7
  have hdone : x >>> 7 = 0 ↔ x.toNat < 128 := by
    rw [← UInt64.toNat_inj, hnext, UInt64.toNat_zero]
    omega
  have hgroup : x.toUInt8.toNat % 128 = x.toNat % 128 := by
    rw [UInt64.toNat_toUInt8]
    omega
  dsimp only
  rw [and_mask_or, and_mask, hgroup, hnext]
  by_cases h : x.toNat < 128
  · rw [if_pos (hdone.mpr h), ofNat_of_lt h, Nat.mod_eq_of_lt h]
  · rw [if_neg (mt hdone.mp h), ofNat_of_le (Nat.le_of_not_lt h)]

theorem toInt_shiftRight (x : Int64) : (x >>> 7).toInt = x.toInt / 128 := by
  have hshift : (x >>> 7).toBitVec = x.toBitVec.sshiftRight 7 := rfl
  rw [← Int64.toInt_toBitVec, hshift, BitVec.toInt_sshiftRight, Int64.toInt_toBitVec]
  exact Int.shiftRight_eq_div_pow x.toInt 7

theorem toNat_lowGroup (x : Int64) : (x.toInt % 128).toNat = x.toUInt64.toUInt8.toNat % 128 := by
  have hlt : x.toUInt64.toNat < 2 ^ 64 := x.toUInt64.toNat_lt
  rw [UInt64.toNat_toUInt8, ← Int64.toInt_toBitVec, BitVec.toInt_eq_toNat_cond,
    Int64.toNat_toBitVec]
  split <;> omega

/-- A signed word is written until what is left of it is its sign alone, zero or minus one, and the
group in front of that has the same sign. -/
theorem ofInt_toInt (x : Int64) :
    ofInt x.toInt =
      let group := x.toUInt64.toUInt8 &&& 0x7F
      if x >>> 7 = 0 ∧ group &&& 0x40 = 0 ∨ x >>> 7 = -1 ∧ group &&& 0x40 ≠ 0 then [group]
      else (group ||| 0x80) :: ofInt (x >>> 7).toInt := by
  have hzero : x >>> 7 = 0 ↔ x.toInt / 128 = 0 := by
    rw [← Int64.toInt_inj, toInt_shiftRight]
    rfl
  have hminus : x >>> 7 = -1 ↔ x.toInt / 128 = -1 := by
    rw [← Int64.toInt_inj, toInt_shiftRight]
    rfl
  have hdone : (x >>> 7 = 0 ∧ x.toUInt64.toUInt8 &&& 0x7F &&& 0x40 = 0 ∨
      x >>> 7 = -1 ∧ x.toUInt64.toUInt8 &&& 0x7F &&& 0x40 ≠ 0) ↔ -64 ≤ x.toInt ∧ x.toInt < 64 := by
    rw [hzero, hminus, ne_eq, and_mask_and_sign, ← toNat_lowGroup]
    omega
  by_cases h : -64 ≤ x.toInt ∧ x.toInt < 64
  · rw [ofInt_of_fits h, toNat_lowGroup, ← and_mask]
    exact (if_pos (hdone.mpr h)).symm
  · rw [ofInt_of_not_fits h, toNat_lowGroup, ← and_mask_or, ← toInt_shiftRight]
    exact (if_neg (mt hdone.mp h)).symm

/-! ## The shortest form -/

/-- Every form of a number has a byte for each group that is written: what is left of the number behind
the first byte of a form is left of it behind the first group. -/
theorem Unsigned.length_ofNat_le {bits v : Nat} {w : List UInt8} (h : Unsigned bits v w) :
    (ofNat v).length ≤ w.length := by
  induction h with
  | last _ hb _ => rw [ofNat_of_lt hb, List.length_singleton, List.length_singleton]
  | @more bits v b w _ _ _ ih =>
    by_cases hsmall : b.toNat % 128 + 128 * v < 128
    · rw [ofNat_of_lt hsmall, List.length_singleton, List.length_cons]
      omega
    · have hleft : (b.toNat % 128 + 128 * v) / 128 = v := by omega
      rw [ofNat_of_le (Nat.le_of_not_lt hsmall), hleft, List.length_cons, List.length_cons]
      exact Nat.succ_le_succ ih

theorem Signed.length_ofInt_le {bits : Nat} {v : Int} {w : List UInt8} (h : Signed bits v w) :
    (ofInt v).length ≤ w.length := by
  induction h with
  | @last bits b _ _ _ _ =>
    rw [ofInt_of_fits (signedGroup_range b), List.length_singleton, List.length_singleton]
  | @more bits v b w _ _ _ ih =>
    by_cases hsmall : -64 ≤ ((b.toNat % 128 : Nat) : Int) + 128 * v ∧
        ((b.toNat % 128 : Nat) : Int) + 128 * v < 64
    · rw [ofInt_of_fits hsmall, List.length_singleton, List.length_cons]
      omega
    · have hleft : (((b.toNat % 128 : Nat) : Int) + 128 * v) / 128 = v := by omega
      rw [ofInt_of_not_fits hsmall, hleft, List.length_cons, List.length_cons]
      exact Nat.succ_le_succ ih

/-- A writer of the numbers that a reader reads, of which those of so many bits `Fits` that width. Each
number is read back, whatever stands behind it; no form of it is shorter; and no number's form begins
that of another one. -/
structure Canonical {α : Type} (read : (bits : Nat) → Reader α) (Fits : (bits : Nat) → α → Prop)
    (write : α → List UInt8) : Prop where
  read_back : ∀ bits v, 0 < bits → Fits bits v → ∀ offset rest,
    read bits ⟨offset, write v ++ rest⟩ = .done v (write v).length
  shortest : ∀ bits v offset bytes n, read bits ⟨offset, bytes⟩ = .done v n →
    (write v).length ≤ n ∧ n ≤ bytes.length
  length_le : ∀ v, Fits 64 v → (write v).length ≤ 10
  prefix_free : ∀ v v', v ≠ v' → ¬write v <+: write v'

/-- It is enough that what is written is a form, in any width that the number fits, and no longer than
the other forms. -/
theorem canonical_of {α : Type} {read : (bits : Nat) → Reader α} {Form : (bits : Nat) → Grammar α}
    {Fits : (bits : Nat) → α → Prop} {write : α → List UInt8}
    (hread : ∀ bits, Reads (read bits) (Form bits))
    (hwrite : ∀ {bits v}, 0 < bits → Fits bits v → Form bits v (write v))
    (hshortest : ∀ {bits v w}, Form bits v w → (write v).length ≤ w.length)
    (hlength : ∀ {bits v w}, Form bits v w → w.length ≤ maxLength bits)
    (hwidth : ∀ v v', ∃ bits, 0 < bits ∧ Fits bits v ∧ Fits bits v') :
    Canonical read Fits write where
  read_back bits v hbits hv offset rest := (hread bits).complete (hwrite hbits hv) offset
  shortest bits v offset bytes n h := by
    obtain ⟨hn, hform⟩ := (hread bits _ v n).mp h
    have hle := hshortest hform
    rw [List.length_take_of_le hn] at hle
    exact ⟨hle, hn⟩
  length_le v hv := hlength (hwrite (by decide) hv)
  prefix_free v v' hne hprefix := by
    obtain ⟨bits, hbits, hv, hv'⟩ := hwidth v v'
    exact hne ((hread bits).unique_of_begins (hwrite hbits hv) (hwrite hbits hv') hprefix)

theorem canonical_unsigned : Canonical Reader.unsigned (fun bits v => v < 2 ^ bits) ofNat := by
  refine canonical_of reads_unsigned unsigned_ofNat Unsigned.length_ofNat_le Unsigned.length_le
    fun v v' => ⟨v + v' + 1, Nat.succ_pos _, ?_, ?_⟩
  · calc v < 2 ^ v := Nat.lt_two_pow_self
      _ ≤ 2 ^ (v + v' + 1) := Nat.pow_le_pow_right (by decide) (by omega)
  · calc v' < 2 ^ v' := Nat.lt_two_pow_self
      _ ≤ 2 ^ (v + v' + 1) := Nat.pow_le_pow_right (by decide) (by omega)

/-- A number fits the width that has a bit for each unit of its size, and one for the sign. -/
theorem fits_of_natAbs_le {v : Int} {k : Nat} (h : v.natAbs ≤ k) :
    -(2 : Int) ^ (k + 1 - 1) ≤ v ∧ v < (2 : Int) ^ (k + 1 - 1) := by
  have hpow : k < 2 ^ k := Nat.lt_two_pow_self
  have hcast : ((2 ^ k : Nat) : Int) = (2 : Int) ^ k := Int.natCast_pow 2 k
  rw [Nat.add_sub_cancel, ← hcast]
  omega

theorem canonical_signed : Canonical Reader.signed
    (fun bits v => -(2 : Int) ^ (bits - 1) ≤ v ∧ v < (2 : Int) ^ (bits - 1)) ofInt := by
  refine canonical_of reads_signed (fun hbits hv => signed_ofInt hbits hv.1 hv.2)
    Signed.length_ofInt_le Signed.length_le fun v v' =>
      ⟨v.natAbs + v'.natAbs + 1, Nat.succ_pos _, ?_, ?_⟩
  · exact fits_of_natAbs_le (Nat.le_add_right _ _)
  · exact fits_of_natAbs_le (Nat.le_add_left _ _)

/-- What is written, without a sign or with one, is read back and could not be shorter. -/
theorem writers_canonical :
    Canonical Reader.unsigned (fun bits v => v < 2 ^ bits) ofNat ∧
      Canonical Reader.signed
        (fun bits v => -(2 : Int) ^ (bits - 1) ≤ v ∧ v < (2 : Int) ^ (bits - 1)) ofInt :=
  ⟨canonical_unsigned, canonical_signed⟩

/-- The lowest number of 64 bits needs all ten bytes, with a last group that is nothing but sign. -/
theorem writers_canonical_lowest :
    ofInt (-2 ^ 63) = List.replicate 9 0x80 ++ [0x7F] ∧
      Reader.signed 64 ⟨4, ofInt (-2 ^ 63) ++ [0x80, 0x01]⟩ = .done (-2 ^ 63) 10 ∧
      ∀ offset bytes n, Reader.signed 64 ⟨offset, bytes⟩ = .done (-2 ^ 63) n → 10 ≤ bytes.length := by
  have hwritten : ofInt (-2 ^ 63) = List.replicate 9 0x80 ++ [0x7F] := by simp [ofInt]
  have hlength : (ofInt (-2 ^ 63)).length = 10 := by rw [hwritten]; rfl
  have h := writers_canonical.2
  refine ⟨hwritten, ?_, fun offset bytes n hread => ?_⟩
  · rw [← hlength]
    exact h.read_back 64 (-2 ^ 63) (by decide) (by decide) 4 [0x80, 0x01]
  · rw [← hlength]
    have hshortest := h.shortest 64 (-2 ^ 63) offset bytes n hread
    omega

end Leb128
end WasmStream
