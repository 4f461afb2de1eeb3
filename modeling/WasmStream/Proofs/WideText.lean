import WasmStream.Text.Encoding
import WasmStream.Proofs.Utf8
import WasmStream.Proofs.Word

/-! UTF-16 and UTF-32 are decoded exactly: the units that are accepted are those of texts, and each gives
its text back. A surrogate is a unit of a text only as half of a pair, a high one in front. -/
namespace WasmStream

theorem map_eq_ok_iff {ε α β : Type} {x : Except ε α} {f : α → β} {b : β} :
    x.map f = .ok b ↔ ∃ a, x = .ok a ∧ f a = b := by
  cases x <;> simp [Except.map]

/-- The function cuts bytes into numbers of `width` bytes each, with nothing left over. -/
structure Splits {α : Type} (width : Nat) (split? : List UInt8 → Option (List α)) (ofNat : Nat → α)
    (toNat : α → Nat) : Prop where
  width_pos : 0 < width
  nil : split? [] = some []
  short : ∀ bytes, bytes ≠ [] → bytes.length < width → split? bytes = none
  unit : ∀ unit rest, unit.length = width →
    split? (unit ++ rest) = (split? rest).map (ofNat (ofLittleEndian unit) :: ·)
  toNat_ofNat : ∀ n < 256 ^ width, toNat (ofNat n) = n
  toNat_lt : ∀ a, toNat a < 256 ^ width
  ofNat_toNat : ∀ a, ofNat (toNat a) = a

theorem Splits.eq_some_iff {α : Type} {width : Nat} {split? : List UInt8 → Option (List α)}
    {ofNat : Nat → α} {toNat : α → Nat} (h : Splits width split? ofNat toNat) {bytes : List UInt8}
    {units : List α} :
    split? bytes = some units ↔ bytes = units.flatMap fun a => toLittleEndian width (toNat a) := by
  constructor
  · induction hn : bytes.length using Nat.strongRecOn generalizing bytes units with
    | ind n ih =>
      subst hn
      intro hsplit
      have hwidth := h.width_pos
      by_cases hempty : bytes = []
      · subst hempty
        cases h.nil.symm.trans hsplit
        rfl
      by_cases hshort : bytes.length < width
      · cases (h.short bytes hempty hshort).symm.trans hsplit
      have hlength : (bytes.take width).length = width :=
        List.length_take_of_le (Nat.le_of_not_lt hshort)
      have hlt := ofLittleEndian_lt (bytes.take width)
      have hunit := toLittleEndian_ofLittleEndian (bytes.take width)
      have hless : (bytes.drop width).length < bytes.length := by
        rw [List.length_drop]
        omega
      rw [hlength] at hlt hunit
      rw [← List.take_append_drop width bytes, h.unit _ _ hlength] at hsplit
      obtain ⟨units, hrest, rfl⟩ := Option.map_eq_some_iff.mp hsplit
      rw [List.flatMap_cons, h.toNat_ofNat _ hlt, hunit, ← ih _ hless rfl hrest,
        List.take_append_drop]
  · rintro rfl
    induction units with
    | nil => exact h.nil
    | cons a units ih =>
      rw [List.flatMap_cons, h.unit _ _ (length_toLittleEndian ..), ih,
        ofLittleEndian_toLittleEndian, Nat.mod_eq_of_lt (h.toNat_lt a), h.ofNat_toNat,
        Option.map_some]

namespace Utf16

theorem isHigh_iff {u : UInt16} : isHigh u = true ↔ 0xD800 ≤ u.toNat ∧ u.toNat < 0xDC00 := by
  simp [isHigh, UInt16.le_iff_toNat_le, UInt16.lt_iff_toNat_lt]

theorem isLow_iff {u : UInt16} : isLow u = true ↔ 0xDC00 ≤ u.toNat ∧ u.toNat < 0xE000 := by
  simp [isLow, UInt16.le_iff_toNat_le, UInt16.lt_iff_toNat_lt]

/-! ## Units -/

theorem encodeChar_of_lt {c : Char} (h : c.toNat < 0x10000) :
    encodeChar c = [UInt16.ofNat c.toNat] := if_pos h

theorem encodeChar_of_le {c : Char} (h : 0x10000 ≤ c.toNat) :
    encodeChar c = [UInt16.ofNat (0xD800 + (c.toNat - 0x10000) / 0x400),
      UInt16.ofNat (0xDC00 + (c.toNat - 0x10000) % 0x400)] := if_neg (Nat.not_lt_of_le h)

/-- The character of a unit that is no surrogate. -/
theorem encodeChar_basic {u : UInt16} (hlow : ¬isLow u = true) (hhigh : ¬isHigh u = true) :
    encodeChar (Char.ofNat u.toNat) = [u] := by
  have hu := u.toNat_lt
  rw [isLow_iff] at hlow
  rw [isHigh_iff] at hhigh
  have hvalid : u.toNat.isValidChar := by
    rw [Nat.isValidChar]
    omega
  have hvalue : (Char.ofNat u.toNat).toNat = u.toNat := Utf8.toNat_ofNat_of_isValidChar hvalid
  rw [encodeChar_of_lt (by omega), hvalue, UInt16.ofNat_toNat]

theorem encodeChar_pair {high low : UInt16} (hhigh : isHigh high = true) (hlow : isLow low = true) :
    encodeChar (Char.ofNat (pair high low)) = [high, low] := by
  rw [isHigh_iff] at hhigh
  rw [isLow_iff] at hlow
  have hpair : pair high low = 0x10000 + (high.toNat - 0xD800) * 0x400 + (low.toNat - 0xDC00) := rfl
  have hvalid : (pair high low).isValidChar := .inr (by omega)
  have hvalue : (Char.ofNat (pair high low)).toNat = pair high low :=
    Utf8.toNat_ofNat_of_isValidChar hvalid
  have hfirst : 0xD800 + (pair high low - 0x10000) / 0x400 = high.toNat := by omega
  have hsecond : 0xDC00 + (pair high low - 0x10000) % 0x400 = low.toNat := by omega
  rw [encodeChar_of_le (by omega), hvalue, hfirst, hsecond, UInt16.ofNat_toNat, UInt16.ofNat_toNat]

theorem decodeUnits_basic {u : UInt16} (hlow : ¬isLow u = true) (hhigh : ¬isHigh u = true)
    (rest : List UInt16) :
    decodeUnits (u :: rest) = (decodeUnits rest).map (Char.ofNat u.toNat :: ·) := by
  rw [decodeUnits.eq_def]
  simp only [if_neg hlow, if_neg hhigh]

theorem decodeUnits_pair {high low : UInt16} (hhigh : isHigh high = true) (hlow : isLow low = true)
    (rest : List UInt16) : decodeUnits (high :: low :: rest) =
      (decodeUnits rest).map (Char.ofNat (pair high low) :: ·) := by
  have hnot : ¬isLow high = true := by
    rw [isHigh_iff] at hhigh
    rw [isLow_iff]
    omega
  rw [decodeUnits.eq_def]
  simp only [if_neg hnot, if_pos hhigh, if_pos hlow]

/-- The units of a character are taken for that character, whatever stands behind them. -/
theorem decodeUnits_encodeChar (c : Char) (rest : List UInt16) :
    decodeUnits (encodeChar c ++ rest) = (decodeUnits rest).map (c :: ·) := by
  have hvalid : c.toNat.isValidChar := c.valid
  rw [Nat.isValidChar] at hvalid
  have hunit {n : Nat} (h : n < 0x10000) : (UInt16.ofNat n).toNat = n := UInt16.toNat_ofNat_of_lt' h
  by_cases hbasic : c.toNat < 0x10000
  · rw [encodeChar_of_lt hbasic, List.singleton_append, decodeUnits_basic, hunit hbasic,
      Char.ofNat_toNat]
    · rw [isLow_iff, hunit hbasic]
      omega
    · rw [isHigh_iff, hunit hbasic]
      omega
  · have hle := Nat.le_of_not_lt hbasic
    have hfirst : (UInt16.ofNat (0xD800 + (c.toNat - 0x10000) / 0x400)).toNat =
        0xD800 + (c.toNat - 0x10000) / 0x400 := hunit (by omega)
    have hsecond : (UInt16.ofNat (0xDC00 + (c.toNat - 0x10000) % 0x400)).toNat =
        0xDC00 + (c.toNat - 0x10000) % 0x400 := hunit (by omega)
    have hpair : pair (UInt16.ofNat (0xD800 + (c.toNat - 0x10000) / 0x400))
        (UInt16.ofNat (0xDC00 + (c.toNat - 0x10000) % 0x400)) = c.toNat := by
      unfold pair
      rw [hfirst, hsecond]
      omega
    rw [encodeChar_of_le hle, List.cons_append, List.singleton_append, decodeUnits_pair, hpair,
      Char.ofNat_toNat]
    · rw [isHigh_iff, hfirst]
      omega
    · rw [isLow_iff, hsecond]
      omega

/-- The units of a text, and no others, are decoded to it. -/
theorem decodeUnits_eq_ok_iff {units : List UInt16} {text : List Char} :
    decodeUnits units = .ok text ↔ units = text.flatMap encodeChar := by
  constructor
  · intro h
    fun_induction decodeUnits units generalizing text with
    | case1 =>
      cases h
      rfl
    | case2 u rest hlow => cases h
    | case3 high hnot hhigh low rest hlow ih =>
      obtain ⟨text, htext, rfl⟩ := map_eq_ok_iff.mp h
      rw [List.flatMap_cons, encodeChar_pair hhigh hlow, ← ih htext]
      rfl
    | case4 high hnot hhigh low rest hlow => cases h
    | case5 high hnot hhigh => cases h
    | case6 u rest hlow hhigh ih =>
      obtain ⟨text, htext, rfl⟩ := map_eq_ok_iff.mp h
      rw [List.flatMap_cons, encodeChar_basic hlow hhigh, ← ih htext]
      rfl
  · rintro rfl
    induction text with
    | nil => rw [List.flatMap_nil, decodeUnits]
    | cons c text ih =>
      rw [List.flatMap_cons, decodeUnits_encodeChar, ih]
      rfl

/-! ## Bytes -/

theorem splits : Splits 2 units? UInt16.ofNat UInt16.toNat where
  width_pos := by decide
  nil := rfl
  short
    | [_], _, _ => rfl
  unit
    | [_, _], _, _ => rfl
  toNat_ofNat _ hn := UInt16.toNat_ofNat_of_lt' hn
  toNat_lt u := u.toNat_lt
  ofNat_toNat _ := UInt16.ofNat_toNat

theorem decode_iff {bytes : List UInt8} {text : List Char} :
    (∃ units, units? bytes = some units ∧ decodeUnits units = .ok text) ↔ bytes = encode text := by
  simp only [splits.eq_some_iff, decodeUnits_eq_ok_iff, exists_eq_right, encode]

end Utf16

namespace Utf32

theorem decodeUnits_eq_ok_iff {units : List UInt32} {text : List Char} :
    decodeUnits units = .ok text ↔ units = text.map fun c => UInt32.ofNat c.toNat := by
  constructor
  · intro h
    fun_induction decodeUnits units generalizing text with
    | case1 =>
      cases h
      rfl
    | case2 u rest hvalid ih =>
      obtain ⟨text, htext, rfl⟩ := map_eq_ok_iff.mp h
      have hvalue : (Char.ofNat u.toNat).toNat = u.toNat := Utf8.toNat_ofNat_of_isValidChar hvalid
      rw [List.map_cons, hvalue, UInt32.ofNat_toNat, ← ih htext]
    | case3 u rest hvalid => cases h
  · rintro rfl
    induction text with
    | nil => rw [List.map_nil, decodeUnits]
    | cons c text ih =>
      have hunit : (UInt32.ofNat c.toNat).toNat = c.toNat := UInt32.toNat_ofNat_of_lt' c.val.toNat_lt
      have hvalid : (UInt32.ofNat c.toNat).toNat.isValidChar := by
        rw [hunit]
        exact c.valid
      rw [List.map_cons, decodeUnits, if_pos hvalid, ih, hunit, Char.ofNat_toNat]
      rfl

theorem splits : Splits 4 units? UInt32.ofNat UInt32.toNat where
  width_pos := by decide
  nil := rfl
  short
    | [_], _, _ => rfl
    | [_, _], _, _ => rfl
    | [_, _, _], _, _ => rfl
  unit
    | [_, _, _, _], _, _ => rfl
  toNat_ofNat _ hn := UInt32.toNat_ofNat_of_lt' hn
  toNat_lt u := u.toNat_lt
  ofNat_toNat _ := UInt32.ofNat_toNat

theorem decode_iff {bytes : List UInt8} {text : List Char} :
    (∃ units, units? bytes = some units ∧ decodeUnits units = .ok text) ↔ bytes = encode text := by
  have hvalue (c : Char) : (UInt32.ofNat c.toNat).toNat = c.toNat :=
    UInt32.toNat_ofNat_of_lt' c.val.toNat_lt
  simp only [splits.eq_some_iff, decodeUnits_eq_ok_iff, exists_eq_right, List.flatMap_map, hvalue,
    encode]

end Utf32
end WasmStream
