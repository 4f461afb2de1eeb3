import Mathlib.Algebra.Group.Nat.Defs
import WasmStream.Module.Query

/-! The space in which the functions of a module are numbered, imports first, and the exports that name
an index of such a space. The queries count imports, pick one of them, or subtract their number; all of
them come to the same place of the space. -/
namespace WasmStream
namespace Module
variable {m : Module} {name : String} {kind : ExternalKind} {i j : UInt32} {e : Export}

theorem combinedFunctionType?_of_le (h : m.importedCount .function ≤ i) :
    m.combinedFunctionType? i = m.functionType? (i - m.importedCount .function) :=
  if_pos h

/-- The first export of this kind and name. -/
structure FirstExport (m : Module) (name : String) (kind : ExternalKind) (e : Export) : Prop where
  kind_eq : e.kind = kind
  name_eq : e.name = name
  split : ∃ before after, m.exports = before ++ e :: after ∧
    ∀ other ∈ before, ¬(other.kind = kind ∧ other.name = name)

theorem named_iff : (e.kind == kind && e.name == name) = true ↔ e.kind = kind ∧ e.name = name := by
  rw [Bool.and_eq_true, beq_iff_eq, beq_iff_eq]

theorem firstExport_iff : m.FirstExport name kind e ↔
    (m.exports.find? fun e => e.kind == kind && e.name == name) = some e := by
  rw [List.find?_eq_some_iff_append]
  simp only [Bool.not_eq_true', ← Bool.not_eq_true, named_iff]
  exact ⟨fun h => ⟨⟨h.kind_eq, h.name_eq⟩, h.split⟩, fun h => ⟨h.1.1, h.1.2, h.2⟩⟩

theorem FirstExport.mem (h : m.FirstExport name kind e) : e ∈ m.exports := by
  obtain ⟨before, after, hexports, -⟩ := h.split
  rw [hexports]
  exact List.mem_append_right _ List.mem_cons_self

theorem FirstExport.unique {other : Export} (h : m.FirstExport name kind e)
    (hother : m.FirstExport name kind other) : other = e := by
  rw [firstExport_iff] at h hother
  exact Option.some.inj (hother.symm.trans h)

theorem exists_firstExport_or (m : Module) (name : String) (kind : ExternalKind) :
    (∃ e, m.FirstExport name kind e) ∨ ∀ e ∈ m.exports, ¬(e.kind = kind ∧ e.name = name) := by
  cases hfind : m.exports.find? fun e => e.kind == kind && e.name == name with
  | some e => exact .inl ⟨e, firstExport_iff.mpr hfind⟩
  | none => exact .inr fun e he hnamed => List.find?_eq_none.mp hfind e he (named_iff.mpr hnamed)

theorem findExportIndex?_of_firstExport (h : m.FirstExport name kind e) :
    m.findExportIndex? name kind =
      if m.importedCount kind ≤ e.index then some (e.index - m.importedCount kind) else none := by
  rw [findExportIndex?, firstExport_iff.mp h]

theorem findExportIndex?_of_not_exported
    (h : ∀ e ∈ m.exports, ¬(e.kind = kind ∧ e.name = name)) : m.findExportIndex? name kind = none := by
  have hfind : (m.exports.find? fun e => e.kind == kind && e.name == name) = none :=
    List.find?_eq_none.mpr fun e he hnamed => h e he (named_iff.mp hnamed)
  rw [findExportIndex?, hfind]

/-- An index among the definitions, with the imports of the kind in front of it. -/
theorem findExportIndex?_eq_some_iff_first : m.findExportIndex? name kind = some j ↔
    ∃ e, m.FirstExport name kind e ∧ e.index.toNat = (m.importedCount kind).toNat + j.toNat := by
  rcases exists_firstExport_or m name kind with ⟨e, he⟩ | hnone
  · rw [findExportIndex?_of_firstExport he]
    constructor
    · intro hj
      split at hj
      · next hle =>
        have hnat := UInt32.le_iff_toNat_le.mp hle
        cases hj
        exact ⟨e, he, by rw [UInt32.toNat_sub_of_le _ _ hle]; omega⟩
      · cases hj
    · rintro ⟨other, hother, hindex⟩
      obtain rfl := he.unique hother
      have hle : m.importedCount kind ≤ other.index := UInt32.le_iff_toNat_le.mpr (by omega)
      rw [if_pos hle, Option.some.injEq, ← UInt32.toNat_inj, UInt32.toNat_sub_of_le _ _ hle]
      omega
  · rw [findExportIndex?_of_not_exported hnone]
    constructor
    · intro hj
      cases hj
    · rintro ⟨e, he, -⟩
      exact absurd ⟨he.kind_eq, he.name_eq⟩ (hnone e he.mem)

theorem findExportIndex?_eq_none_iff_first : m.findExportIndex? name kind = none ↔
    (∀ e ∈ m.exports, ¬(e.kind = kind ∧ e.name = name)) ∨
      ∃ e, m.FirstExport name kind e ∧ e.index < m.importedCount kind := by
  constructor
  · intro hnone
    rcases exists_firstExport_or m name kind with ⟨e, he⟩ | hother
    · rw [findExportIndex?_of_firstExport he] at hnone
      split at hnone
      · cases hnone
      · next hle => exact .inr ⟨e, he, UInt32.not_le.mp hle⟩
    · exact .inl hother
  · rintro (hother | ⟨e, he, hlt⟩)
    · exact findExportIndex?_of_not_exported hother
    · rw [findExportIndex?_of_firstExport he, if_neg (UInt32.not_le.mpr hlt)]

end Module
end WasmStream
