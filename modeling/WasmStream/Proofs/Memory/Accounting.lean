import WasmStream.Memory

/-! What a memory keeps count of: however it is written and grown, it has as many bytes as its pages
come to, and its pages stay within a maximum that never changes. -/
namespace WasmStream
namespace Memory

/-- What the holder of a memory can do with it. A growth comes with the host's answer at that
time. -/
inductive Operation
  | grow (host : Host) (delta : Int32)
  | write (address : UInt32) (bytes : List UInt8)
  | storeI32 (address : UInt32) (v : Int32)
  | storeI64 (address : UInt32) (v : Int64)
  | storeF32 (address : UInt32) (bits : UInt32)
  | storeF64 (address : UInt32) (bits : UInt64)
  | modify (address length : UInt32)
      (change : Vector UInt8 length.toNat → Vector UInt8 length.toNat)

/-- The memory after an operation. A write that fails leaves the memory as it is. -/
def perform (m : Memory) : Operation → Memory
  | .grow host delta => (m.growOn host delta).2
  | .write address bytes => (m.write address bytes).toOption.getD m
  | .storeI32 address v => (m.storeI32 address v).toOption.getD m
  | .storeI64 address v => (m.storeI64 address v).toOption.getD m
  | .storeF32 address bits => (m.storeF32 address bits).toOption.getD m
  | .storeF64 address bits => (m.storeF64 address bits).toOption.getD m
  | .modify address length change => (m.modify address length change).toOption.getD m

/-- The memory after some operations, one after the other. -/
def run (m : Memory) (operations : List Operation) : Memory := operations.foldl perform m

/-! ## Writes -/

theorem write_eq (m : Memory) (address : UInt32) (bytes : List UInt8) :
    m.write address bytes =
      if bytes.length < UInt32.size ∧ address.toNat + bytes.length ≤ m.size then
        .ok { m with data := overwrite m.data address.toNat bytes }
      else .error (.outOfBounds address.toNat bytes.length m.size) := by
  unfold write check
  by_cases hlong : UInt32.size ≤ bytes.length
  · have hrefused : ¬(bytes.length < UInt32.size ∧ address.toNat + bytes.length ≤ m.size) :=
      fun h => absurd h.1 (Nat.not_lt_of_le hlong)
    rw [if_pos hlong, if_neg hrefused]
    rfl
  · rw [if_neg hlong]
    by_cases hin : address.toNat + bytes.length ≤ m.size
    · rw [if_pos hin, if_pos ⟨Nat.lt_of_not_le hlong, hin⟩]
      rfl
    · rw [if_neg hin, if_neg fun h => hin h.2]
      rfl

/-- To change a range through a view is to write what the change gives. -/
theorem modify_eq_write (m : Memory) (address length : UInt32)
    (change : Vector UInt8 length.toNat → Vector UInt8 length.toNat) :
    m.modify address length change = m.write address
      (change (Vector.ofFn fun i : Fin length.toNat => m.byteAt (address.toNat + i))).toList := by
  have hlength := length.toNat_lt_size
  rw [write_eq, Vector.length_toList]
  unfold modify check
  by_cases hin : address.toNat + length.toNat ≤ m.size
  · rw [if_pos hin, if_pos ⟨hlength, hin⟩]
    rfl
  · rw [if_neg hin, if_neg fun h => hin h.2]
    rfl

/-- Every operation is a growth or one write. -/
theorem perform_eq (m : Memory) (operation : Operation) :
    (∃ host delta, operation = .grow host delta) ∨
      ∃ address bytes, m.perform operation = (m.write address bytes).toOption.getD m := by
  cases operation with
  | grow host delta => exact .inl ⟨host, delta, rfl⟩
  | modify address length change =>
    exact .inr ⟨address, _, by rw [perform, modify_eq_write]⟩
  | write | storeI32 | storeI64 | storeF32 | storeF64 => exact .inr ⟨_, _, rfl⟩

/-! ## Growth -/

/-- A memory can grow by no negative number of pages, within its maximum, and only as far as the
host has room. -/
structure CanGrow (host : Host) (m : Memory) (delta : Int32) : Prop where
  nonneg : 0 ≤ delta.toInt
  within : m.pages.toNat + delta.toInt ≤ m.maximum.toNat
  room : 0 < delta.toInt → host (m.pages.toNat + delta.toInt.toNat) = true

/-- What growth by `delta` pages comes to: the bytes stay where they are, with zeros behind
them. -/
structure Grown (m : Memory) (delta : Int32) (answer : Int32) (after : Memory) : Prop where
  answer_nonneg : 0 ≤ answer.toInt
  answer_eq : answer.toInt = m.pages.toNat + delta.toInt
  pages_eq : after.pages.toNat = answer.toInt
  maximum_eq : after.maximum = m.maximum
  size_eq : after.size = after.pages.toNat * pageSize
  kept : ∀ a < m.size, after.byteAt a = m.byteAt a
  zero : ∀ a, m.size ≤ a → a < after.size → after.byteAt a = 0

/-- The pages, the bytes and the maximum of a memory fit together. -/
structure Accounted (maximum : UInt32) (m : Memory) : Prop where
  size_eq : m.size = m.pages.toNat * pageSize
  pages_le : m.pages.toNat ≤ m.maximum.toNat
  maximum_eq : m.maximum = maximum
  maximum_le : maximum.toNat ≤ maxPages.toNat

theorem byteAt_of_size_le (m : Memory) (a : Nat) (h : m.size ≤ a) : m.byteAt a = 0 := by
  rw [byteAt, byteOf, getElem?_neg _ _ (by simpa [size] using h)]
  rfl

variable {host : Host} {m : Memory} {delta : Int32} {maximum : UInt32}

theorem growOn_of_neg (h : delta.toInt < 0) : m.growOn host delta = (-1, m) := by
  have hlt : delta < 0 := Int32.lt_iff_toInt_lt.mpr h
  rw [growOn, if_pos hlt]

theorem growOn_zero : m.growOn host 0 = (m.pages.toInt32, m) := by
  simp [growOn]

theorem growOn_of_pos (h : 0 < delta.toInt) :
    m.growOn host delta =
      if m.pages.toNat + delta.toInt.toNat ≤ m.maximum.toNat ∧
          host (m.pages.toNat + delta.toInt.toNat) then
        (Int32.ofNat (m.pages.toNat + delta.toInt.toNat),
          { m with
            data := extend m.data (delta.toInt.toNat * pageSize)
            pages := UInt32.ofNat (m.pages.toNat + delta.toInt.toNat) })
      else (-1, m) := by
  have hlt : ¬delta < 0 := by
    rw [Int32.lt_iff_toInt_lt]
    simp only [Int32.toInt_zero]
    omega
  have hne : delta ≠ 0 := by
    rintro rfl
    simp at h
  rw [growOn, if_neg hlt, if_neg hne]

theorem Accounted.pages_le_maxPages (h : Accounted maximum m) : m.pages.toNat ≤ 65536 := by
  have hmaximum : maximum.toNat ≤ 65536 := h.maximum_le
  have hpages := h.pages_le
  rw [h.maximum_eq] at hpages
  omega

theorem toInt_ofNat_of_le {n : Nat} (h : n ≤ 65536) : (Int32.ofNat n).toInt = n :=
  Int32.toInt_ofNat_of_lt (by omega)

theorem Accounted.toInt_pages (h : Accounted maximum m) :
    m.pages.toInt32.toInt = m.pages.toNat := by
  have hpages := h.pages_le_maxPages
  change m.pages.toBitVec.toInt = m.pages.toNat
  exact BitVec.toInt_eq_toNat_of_lt (by
    change 2 * m.pages.toNat < _
    omega)

/-- A memory that can grow does, and answers with its new number of pages. -/
theorem Accounted.grown (h : Accounted maximum m) (hgrow : CanGrow host m delta) :
    Grown m delta (m.growOn host delta).1 (m.growOn host delta).2 := by
  have hpages := h.pages_le_maxPages
  by_cases hzero : delta.toInt = 0
  · have hdelta : delta = 0 := Int32.toInt_inj.mp hzero
    subst hdelta
    rw [growOn_zero]
    exact {
      answer_nonneg := by simp [h.toInt_pages]
      answer_eq := by simp [h.toInt_pages]
      pages_eq := by simp [h.toInt_pages]
      maximum_eq := rfl
      size_eq := h.size_eq
      kept := fun _ _ => rfl
      zero := fun a ha _ => byteAt_of_size_le m a ha }
  · have hpos : 0 < delta.toInt := by
      have := hgrow.nonneg
      omega
    have hmaximum : m.maximum.toNat ≤ 65536 := by
      rw [h.maximum_eq]
      exact h.maximum_le
    have hwithin := hgrow.within
    have htarget : m.pages.toNat + delta.toInt.toNat ≤ m.maximum.toNat := by omega
    rw [growOn_of_pos hpos, if_pos ⟨htarget, hgrow.room hpos⟩]
    have hanswer : (Int32.ofNat (m.pages.toNat + delta.toInt.toNat)).toInt
        = (m.pages.toNat + delta.toInt.toNat : Nat) := toInt_ofNat_of_le (by omega)
    have hnew : (UInt32.ofNat (m.pages.toNat + delta.toInt.toNat)).toNat
        = m.pages.toNat + delta.toInt.toNat :=
      UInt32.toNat_ofNat_of_lt' (by rw [UInt32.size]; omega)
    -- For any data: with `extend` in its place, to check this by `rfl` is to unfold `extend`.
    have hkept (data : ByteArray) (pages : UInt32) :
        (⟨data, pages, m.maximum⟩ : Memory).maximum = m.maximum := rfl
    exact {
      answer_nonneg := by rw [hanswer]; omega
      answer_eq := by rw [hanswer]; omega
      pages_eq := by rw [hanswer, hnew]
      maximum_eq := hkept _ _
      size_eq := by
        have hsize : m.data.size = m.pages.toNat * pageSize := h.size_eq
        simp only [size, size_extend, hnew, hsize, Nat.add_mul]
      kept := fun a _ => by simp [byteAt]
      zero := fun a ha _ => by simpa [byteAt] using byteAt_of_size_le m a ha }

/-- A memory that cannot grow stays as it is, and answers with -1. -/
theorem Accounted.growOn_of_not_canGrow (h : Accounted maximum m) (hgrow : ¬CanGrow host m delta) :
    m.growOn host delta = (-1, m) := by
  have hpages := h.pages_le
  by_cases hneg : delta.toInt < 0
  · exact growOn_of_neg hneg
  · have hpos : 0 < delta.toInt := by
      by_cases hpos : 0 < delta.toInt
      · exact hpos
      · exact absurd ⟨by omega, by omega, fun h => absurd h hpos⟩ hgrow
    rw [growOn_of_pos hpos, if_neg]
    intro hfits
    exact hgrow ⟨by omega, by omega, fun _ => hfits.2⟩

theorem Accounted.growOn (h : Accounted maximum m) (host : Host) (delta : Int32) :
    Accounted maximum (m.growOn host delta).2 := by
  by_cases hgrow : CanGrow host m delta
  · have hgrown := h.grown hgrow
    have hwithin := hgrow.within
    exact {
      size_eq := hgrown.size_eq
      pages_le := by
        have hpages := hgrown.pages_eq.trans hgrown.answer_eq
        rw [hgrown.maximum_eq]
        omega
      maximum_eq := hgrown.maximum_eq.trans h.maximum_eq
      maximum_le := h.maximum_le }
  · rw [h.growOn_of_not_canGrow hgrow]
    exact h

theorem Accounted.write (h : Accounted maximum m) (address : UInt32) (bytes : List UInt8) :
    Accounted maximum ((m.write address bytes).toOption.getD m) := by
  rw [write_eq]
  split
  · exact { h with size_eq := (size_overwrite ..).trans h.size_eq }
  · exact h

theorem Accounted.perform (h : Accounted maximum m) (operation : Operation) :
    Accounted maximum (m.perform operation) := by
  rcases m.perform_eq operation with ⟨host, delta, rfl⟩ | ⟨address, bytes, heq⟩
  · exact h.growOn host delta
  · rw [heq]
    exact h.write address bytes

theorem Accounted.run (h : Accounted maximum m) (operations : List Operation) :
    Accounted maximum (m.run operations) := by
  induction operations generalizing m with
  | nil => exact h
  | cons operation rest ih => exact ih (h.perform operation)

/-! ## New memories -/

theorem toNat_pageCap (config : RuntimeConfig) (declared : Option UInt32) :
    (config.pageCap declared).toNat = min (min (declared.getD 65536).toNat 65536)
      (config.maxMemoryPages.getD 65536).toNat := by
  have hmin (a b : UInt32) : (min a b).toNat = min a.toNat b.toNat := by
    by_cases h : a ≤ b
    · simpa [minOfLe, min, h] using (Nat.min_eq_left (UInt32.le_iff_toNat_le.mp h)).symm
    · have hlt := UInt32.lt_iff_toNat_lt.mp (UInt32.not_le.mp h)
      simpa [minOfLe, min, h] using (Nat.min_eq_right (Nat.le_of_lt hlt)).symm
  have hmax : maxPages = 65536 := rfl
  cases hcap : config.maxMemoryPages with
  | none => simp [RuntimeConfig.pageCap, hcap, hmin, hmax]
  | some cap => simp [RuntimeConfig.pageCap, hcap, hmin, hmax]

/-- A memory is made exactly if the host's cap is one, the declared minimum is within the cap and
the host has room for it. -/
theorem ofLimitsOn_eq_ok_iff (host : Host) (limits : Limits) (config : RuntimeConfig) (m : Memory) :
    ofLimitsOn host limits config = .ok m ↔
      config.validate = .ok () ∧ limits.min.toNat ≤ (config.pageCap limits.max).toNat ∧
        host limits.min.toNat = true ∧
        m = ⟨extend .empty (limits.min.toNat * pageSize), limits.min,
          config.pageCap limits.max⟩ := by
  cases hvalid : config.validate with
  | error error => simp [ofLimitsOn, hvalid, bind, Except.bind]
  | ok valid =>
    by_cases hmin : config.pageCap limits.max < limits.min
    · have hlt := UInt32.lt_iff_toNat_lt.mp hmin
      simp [ofLimitsOn, hvalid, newOn, hmin, bind, Except.bind]
      omega
    · have hle := UInt32.le_iff_toNat_le.mp (UInt32.not_lt.mp hmin)
      by_cases hroom : host limits.min.toNat = true
      · simp [ofLimitsOn, hvalid, newOn, hmin, hle, hroom, bind, Except.bind, eq_comm]
      · simp [ofLimitsOn, hvalid, newOn, hmin, hroom, bind, Except.bind]

theorem accounted_of_ofLimitsOn {limits : Limits} {config : RuntimeConfig}
    (h : ofLimitsOn host limits config = .ok m) :
    Accounted (config.pageCap limits.max) m := by
  obtain ⟨-, hmin, -, rfl⟩ := (ofLimitsOn_eq_ok_iff host limits config m).mp h
  exact {
    size_eq := by simp [size]
    pages_le := hmin
    maximum_eq := rfl
    maximum_le := by
      have hmax : maxPages.toNat = 65536 := rfl
      rw [toNat_pageCap, hmax]
      omega }

/-- Whatever was done with a memory since it was made, its bytes are those of its pages, its pages
are within the least of the declared maximum, the format's and the host's, and to grow it either
adds pages of zeros or changes nothing. -/
theorem run_accounted (host : Host) (limits : Limits) (config : RuntimeConfig) (start : Memory)
    (h : ofLimitsOn host limits config = .ok start) (operations : List Operation) :
    let m := start.run operations
    m.size = m.pages.toNat * 65536 ∧ m.pages ≤ m.maximum ∧
    m.maximum.toNat = min (min (limits.max.getD 65536).toNat 65536)
      (config.maxMemoryPages.getD 65536).toNat ∧
    ∀ (now : Host) (delta : Int32),
      ((m.growOn now delta).1 ≠ -1 ↔ CanGrow now m delta) ∧
      (CanGrow now m delta → Grown m delta (m.growOn now delta).1 (m.growOn now delta).2) ∧
      (¬CanGrow now m delta → m.growOn now delta = (-1, m)) ∧
      (delta = 0 → (m.growOn now delta).2 = m) := by
  intro m
  have hm : Accounted (config.pageCap limits.max) m := (accounted_of_ofLimitsOn h).run operations
  refine ⟨hm.size_eq, hm.pages_le, ?_, fun now delta => ⟨⟨?_, ?_⟩, hm.grown,
    hm.growOn_of_not_canGrow, ?_⟩⟩
  · rw [hm.maximum_eq, toNat_pageCap]
  · intro hanswer
    by_cases hgrow : CanGrow now m delta
    · exact hgrow
    · rw [hm.growOn_of_not_canGrow hgrow] at hanswer
      exact absurd rfl hanswer
  · intro hgrow hanswer
    have hnonneg := (hm.grown hgrow).answer_nonneg
    rw [hanswer] at hnonneg
    exact absurd hnonneg (by decide)
  · intro hzero
    subst hzero
    rw [growOn_zero]

/-- One page that may become two, written to and grown. -/
theorem run_accounted_page :
    ofLimitsOn .roomy ⟨1, some 2⟩ {} = .ok ⟨extend .empty (1 * pageSize), 1, 2⟩ ∧
      let m := run ⟨extend .empty (1 * pageSize), 1, 2⟩ [.storeI32 65532 7, .grow .roomy 1]
      m.size = m.pages.toNat * 65536 ∧ m.pages ≤ m.maximum ∧ m.maximum.toNat = 2 := by
  have hstart : ofLimitsOn .roomy ⟨1, some 2⟩ {} = .ok ⟨extend .empty (1 * pageSize), 1, 2⟩ :=
    (ofLimitsOn_eq_ok_iff ..).mpr ⟨rfl, by decide, rfl, rfl⟩
  obtain ⟨hsize, hpages, hmaximum, -⟩ := run_accounted _ _ _ _ hstart
    [.storeI32 65532 7, .grow .roomy 1]
  exact ⟨hstart, hsize, hpages, hmaximum⟩

end Memory
end WasmStream
