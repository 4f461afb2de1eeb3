import WasmStream.Text.Utf8

/-! UTF-8 is decoded exactly: the bytes that are accepted are the encodings of texts, and each gives its
text back. -/
namespace WasmStream
namespace Utf8

theorem toNat_ofNat_of_isValidChar {n : Nat} (h : n.isValidChar) : (Char.ofNat n).val.toNat = n := by
  have hof : Char.ofNat n = Char.ofNatAux n h := dif_pos h
  rw [hof]
  rfl

theorem lead?_eq_some_iff {b : UInt8} {value missing : Nat} :
    lead? b = some (value, missing) ↔
      (b.toNat < 0x80 ∧ value = b.toNat ∧ missing = 0) ∨
      (0xC2 ≤ b.toNat ∧ b.toNat < 0xE0 ∧ value = b.toNat % 32 ∧ missing = 1) ∨
      (0xE0 ≤ b.toNat ∧ b.toNat < 0xF0 ∧ value = b.toNat % 16 ∧ missing = 2) ∨
      (0xF0 ≤ b.toNat ∧ b.toNat < 0xF5 ∧ value = b.toNat % 8 ∧ missing = 3) := by
  unfold lead?
  simp only [UInt8.lt_iff_toNat_lt, UInt8.reduceToNat]
  repeat' split
  all_goals
    simp only [Option.some.injEq, Prod.mk.injEq, reduceCtorEq, false_iff]
    omega

/-- Which bytes may come second: the lead bytes at the ends of a row of lengths allow fewer. -/
theorem second_iff {b b₁ : UInt8} :
    (secondRange b).1.toNat ≤ b₁.toNat ∧ b₁.toNat ≤ (secondRange b).2.toNat ↔
      (0x80 ≤ b₁.toNat ∧ b₁.toNat ≤ 0xBF) ∧ (b.toNat = 0xE0 → 0xA0 ≤ b₁.toNat) ∧
        (b.toNat = 0xED → b₁.toNat ≤ 0x9F) ∧ (b.toNat = 0xF0 → 0x90 ≤ b₁.toNat) ∧
        (b.toNat = 0xF4 → b₁.toNat ≤ 0x8F) := by
  unfold secondRange
  simp only [← UInt8.toNat_inj, UInt8.reduceToNat]
  repeat' split
  all_goals
    simp only [UInt8.reduceToNat]
    omega

theorem tail_succ_iff {missing value seen scalar : Nat} {range : UInt8 × UInt8} {l : List UInt8} :
    tail (missing + 1) value seen range l = .complete scalar ↔
      ∃ b rest, l = b :: rest ∧ range.1.toNat ≤ b.toNat ∧ b.toNat ≤ range.2.toNat ∧
        tail missing (value * 64 + b.toNat % 64) (seen + 1) (0x80, 0xBF) rest = .complete scalar := by
  constructor
  · intro h
    cases l with
    | nil => cases h
    | cons b rest =>
      rw [tail] at h
      split at h
      · next hrange => exact ⟨b, rest, rfl, hrange.1, hrange.2, h⟩
      · cases h
  · rintro ⟨b, rest, rfl, hlow, hhigh, h⟩
    rw [tail, if_pos ⟨hlow, hhigh⟩, h]

theorem tail_zero_iff {value seen scalar : Nat} {range : UInt8 × UInt8} {l : List UInt8} :
    tail 0 value seen range l = .complete scalar ↔ value = scalar := by
  rw [tail, Tail.complete.injEq]

/-- The bytes of a character with the value `n`, which must be one of a character. -/
def sequence (n : Nat) : List UInt8 :=
  if n ≤ 0x7F then [UInt8.ofNat n]
  else if n ≤ 0x7FF then [UInt8.ofNat (n / 64 % 32 + 0xC0), UInt8.ofNat (n % 64 + 0x80)]
  else if n ≤ 0xFFFF then
    [UInt8.ofNat (n / 4096 % 16 + 0xE0), UInt8.ofNat (n / 64 % 64 + 0x80),
      UInt8.ofNat (n % 64 + 0x80)]
  else
    [UInt8.ofNat (n / 262144 % 8 + 0xF0), UInt8.ofNat (n / 4096 % 64 + 0x80),
      UInt8.ofNat (n / 64 % 64 + 0x80), UInt8.ofNat (n % 64 + 0x80)]

theorem utf8EncodeChar_eq (ch : Char) : String.utf8EncodeChar ch = sequence ch.val.toNat := rfl

/-- A byte is known by its number. -/
theorem ofNat_eq {n : Nat} {b : UInt8} (h : n = b.toNat) : UInt8.ofNat n = b := by
  rw [h, UInt8.ofNat_toNat]

/-- What the decoder accepts as one character is the sequence of its value. -/
theorem sequence_sound {b : UInt8} {l : List UInt8} {value missing scalar : Nat}
    (hlead : lead? b = some (value, missing))
    (htail : tail missing value 0 (secondRange b) l = .complete scalar) :
    missing ≤ l.length ∧ scalar.isValidChar ∧ b :: l.take missing = sequence scalar := by
  rw [lead?_eq_some_iff] at hlead
  rcases hlead with ⟨hb, rfl, rfl⟩ | ⟨hlow, hhigh, rfl, rfl⟩ | ⟨hlow, hhigh, rfl, rfl⟩ |
    ⟨hlow, hhigh, rfl, rfl⟩
  · obtain rfl := tail_zero_iff.mp htail
    refine ⟨Nat.zero_le _, .inl (by omega), ?_⟩
    rw [sequence, if_pos (by omega), UInt8.ofNat_toNat]
    rfl
  · obtain ⟨b₁, l₁, rfl, h₁, h₁', htail⟩ := tail_succ_iff.mp htail
    obtain rfl := tail_zero_iff.mp htail
    have hsecond := second_iff.mp ⟨h₁, h₁'⟩
    refine ⟨by simp, .inl (by omega), ?_⟩
    rw [sequence, if_neg (by omega), if_pos (by omega), ofNat_eq (b := b) (by omega),
      ofNat_eq (b := b₁) (by omega)]
    rfl
  · obtain ⟨b₁, l₁, rfl, h₁, h₁', htail⟩ := tail_succ_iff.mp htail
    obtain ⟨b₂, l₂, rfl, h₂, h₂', htail⟩ := tail_succ_iff.mp htail
    obtain rfl := tail_zero_iff.mp htail
    have hsecond := second_iff.mp ⟨h₁, h₁'⟩
    simp only [UInt8.reduceToNat] at h₂ h₂'
    refine ⟨by simp, ?_, ?_⟩
    · rw [Nat.isValidChar]
      omega
    · rw [sequence, if_neg (by omega), if_neg (by omega), if_pos (by omega),
        ofNat_eq (b := b) (by omega), ofNat_eq (b := b₁) (by omega), ofNat_eq (b := b₂) (by omega)]
      rfl
  · obtain ⟨b₁, l₁, rfl, h₁, h₁', htail⟩ := tail_succ_iff.mp htail
    obtain ⟨b₂, l₂, rfl, h₂, h₂', htail⟩ := tail_succ_iff.mp htail
    obtain ⟨b₃, l₃, rfl, h₃, h₃', htail⟩ := tail_succ_iff.mp htail
    obtain rfl := tail_zero_iff.mp htail
    have hsecond := second_iff.mp ⟨h₁, h₁'⟩
    simp only [UInt8.reduceToNat] at h₂ h₂' h₃ h₃'
    refine ⟨by simp, ?_, ?_⟩
    · rw [Nat.isValidChar]
      omega
    · rw [sequence, if_neg (by omega), if_neg (by omega), if_neg (by omega),
        ofNat_eq (b := b) (by omega), ofNat_eq (b := b₁) (by omega), ofNat_eq (b := b₂) (by omega),
        ofNat_eq (b := b₃) (by omega)]
      rfl

/-- The sequence of a character is accepted, whatever stands behind it. -/
theorem sequence_complete {n : Nat} (h : n.isValidChar) (rest : List UInt8) :
    ∃ b l value, sequence n = b :: l ∧ lead? b = some (value, l.length) ∧
      tail l.length value 0 (secondRange b) (l ++ rest) = .complete n := by
  have hbyte {k : Nat} (hk : k < 256) : (UInt8.ofNat k).toNat = k := UInt8.toNat_ofNat_of_lt' hk
  rw [Nat.isValidChar] at h
  unfold sequence
  split
  · next h₀ =>
    refine ⟨_, _, n, rfl, lead?_eq_some_iff.mpr ?_, tail_zero_iff.mpr rfl⟩
    rw [hbyte (by omega)]
    exact .inl ⟨by omega, rfl, rfl⟩
  split
  · next h₀ h₁ =>
    refine ⟨_, _, n / 64 % 32, rfl, lead?_eq_some_iff.mpr ?_, ?_⟩
    · rw [hbyte (by omega)]
      exact .inr (.inl ⟨by omega, by omega, by omega, rfl⟩)
    · refine tail_succ_iff.mpr ⟨_, _, rfl, ?_⟩
      rw [← and_assoc, second_iff, hbyte (by omega), hbyte (by omega), List.length_nil, tail_zero_iff]
      omega
  split
  · next h₀ h₁ h₂ =>
    refine ⟨_, _, n / 4096 % 16, rfl, lead?_eq_some_iff.mpr ?_, ?_⟩
    · rw [hbyte (by omega)]
      exact .inr (.inr (.inl ⟨by omega, by omega, by omega, rfl⟩))
    · refine tail_succ_iff.mpr ⟨_, _, rfl, ?_⟩
      rw [← and_assoc, second_iff, hbyte (by omega), hbyte (by omega)]
      refine ⟨by omega, tail_succ_iff.mpr ⟨_, _, rfl, ?_⟩⟩
      rw [List.length_nil, tail_zero_iff, hbyte (by omega)]
      simp only [UInt8.reduceToNat]
      omega
  · next h₀ h₁ h₂ =>
    refine ⟨_, _, n / 262144 % 8, rfl, lead?_eq_some_iff.mpr ?_, ?_⟩
    · rw [hbyte (by omega)]
      exact .inr (.inr (.inr ⟨by omega, by omega, by omega, rfl⟩))
    · refine tail_succ_iff.mpr ⟨_, _, rfl, ?_⟩
      rw [← and_assoc, second_iff, hbyte (by omega), hbyte (by omega)]
      refine ⟨by omega, tail_succ_iff.mpr ⟨_, _, rfl, ?_⟩⟩
      rw [hbyte (by omega)]
      simp only [UInt8.reduceToNat]
      refine ⟨by omega, by omega, tail_succ_iff.mpr ⟨_, _, rfl, ?_⟩⟩
      rw [List.length_nil, tail_zero_iff, hbyte (by omega)]
      simp only [UInt8.reduceToNat]
      omega

theorem decodeFrom_sequence {n : Nat} (h : n.isValidChar) (start : Nat) (rest : List UInt8) :
    ∃ start', decodeFrom start (sequence n ++ rest) =
      (decodeFrom start' rest).map (Char.ofNat n :: ·) := by
  obtain ⟨b, l, value, hseq, hlead, htail⟩ := sequence_complete h rest
  refine ⟨start + (l.length + 1), ?_⟩
  rw [hseq, List.cons_append, decodeFrom, hlead]
  simp only [htail, List.drop_left]

theorem decodeFrom_encode (text : List Char) (start : Nat) :
    decodeFrom start (encode text) = .ok text := by
  induction text generalizing start with
  | nil => rw [encode, List.flatMap_nil, decodeFrom]
  | cons ch text ih =>
    obtain ⟨start', h⟩ := decodeFrom_sequence ch.valid start (encode text)
    have hcons : encode (ch :: text) = sequence ch.val.toNat ++ encode text := rfl
    have hchar : Char.ofNat ch.val.toNat = ch := Char.ofNat_toNat ch
    rw [hcons, h, ih, hchar]
    rfl

theorem encode_of_decodeFrom {start : Nat} {bytes : List UInt8} {text : List Char}
    (h : decodeFrom start bytes = .ok text) : bytes = encode text := by
  fun_induction decodeFrom start bytes generalizing text with
  | case1 start =>
    cases h
    rfl
  | case2 start b rest hlead => cases h
  | case3 start b rest value missing hlead scalar htail ih =>
    obtain ⟨hlen, hvalid, hseq⟩ := sequence_sound hlead htail
    cases hrest : decodeFrom (start + (missing + 1)) (rest.drop missing) with
    | error fault => rw [hrest] at h; cases h
    | ok text' =>
      rw [hrest] at h
      cases h
      have hchar : String.utf8EncodeChar (Char.ofNat scalar) = b :: rest.take missing := by
        rw [utf8EncodeChar_eq, toNat_ofNat_of_isValidChar hvalid, hseq]
      rw [encode, List.flatMap_cons, hchar, List.cons_append]
      congr 1
      rw [← encode, ← ih hrest, List.take_append_drop]
  | case4 start b rest value missing hlead seen htail => cases h
  | case5 start b rest value missing hlead htail => cases h

/-- The bytes of a text are its encoding and nothing else. -/
theorem decode_eq_ok_iff {bytes : List UInt8} {text : List Char} :
    decode bytes = .ok text ↔ bytes = encode text := by
  constructor
  · exact encode_of_decodeFrom
  · rintro rfl
    exact decodeFrom_encode text 0

/-! ## Order -/

end Utf8
end WasmStream
