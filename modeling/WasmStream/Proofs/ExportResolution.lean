import WasmStream.Binding
import WasmStream.Proofs.Chunking
import WasmStream.Proofs.IndexSpaces

/-! The two ways to find an exported function by its name: a search through the exports, which stops at
the first of the name, and the bindings, in which a later export takes the place of an earlier one. They
find the same function unless the name is given to different ones. -/
namespace WasmStream

/-- The function exports of a name, in their order. -/
def functionExports (exports : List Export) (name : String) : List Export :=
  exports.filter fun e => e.kind == .function && e.name == name

theorem mem_functionExports {exports : List Export} {name : String} {e : Export} :
    e ∈ functionExports exports name ↔ e ∈ exports ∧ e.kind = .function ∧ e.name = name := by
  simp [functionExports]

theorem functionExports_cons_of_pos {e : Export} {rest : List Export} {name : String}
    (hkind : e.kind = .function) (hname : e.name = name) :
    functionExports (e :: rest) name = e :: functionExports rest name := by
  simp [functionExports, hkind, hname]

theorem functionExports_cons_of_neg {e : Export} {rest : List Export} {name : String}
    (h : ¬(e.kind = .function ∧ e.name = name)) :
    functionExports (e :: rest) name = functionExports rest name := by
  simp [functionExports, h]

namespace Module

theorem head?_functionExports {m : Module} {name : String} {first : Export} :
    (functionExports m.exports name).head? = some first ↔ m.FirstExport name .function first := by
  rw [firstExport_iff, functionExports, List.head?_filter]

/-- The search stops at the first export of the name, and gives its index among the definitions. -/
theorem findExportIndex?_eq_some_iff {m : Module} {name : String} {i : UInt32} :
    m.findExportIndex? name .function = some i ↔
      ∃ first, (functionExports m.exports name).head? = some first ∧
        m.importedCount .function ≤ first.index ∧
        first.index.toNat = i.toNat + (m.importedCount .function).toNat := by
  simp only [findExportIndex?_eq_some_iff_first, head?_functionExports, UInt32.le_iff_toNat_le]
  refine exists_congr fun first => and_congr_right fun _ => ?_
  omega

theorem findExportIndex?_eq_none_iff {m : Module} {name : String} :
    m.findExportIndex? name .function = none ↔
      ∀ first, (functionExports m.exports name).head? = some first →
        first.index < m.importedCount .function := by
  simp only [findExportIndex?_eq_none_iff_first, head?_functionExports]
  constructor
  · rintro (hnone | ⟨e, he, hlt⟩) first hfirst
    · exact absurd ⟨hfirst.kind_eq, hfirst.name_eq⟩ (hnone first hfirst.mem)
    · rwa [he.unique hfirst]
  · intro hlt
    rcases exists_firstExport_or m name .function with ⟨e, he⟩ | hnone
    · exact .inr ⟨e, he, hlt e he⟩
    · exact .inl hnone

end Module

namespace ExportBindings

variable {m : Module} {b : ExportBindings} {name other : String} {f : ExportedFunction}
variable {functions result : List (String × ExportedFunction)} {exports : List Export} {last : Export}

theorem find?_insert_self (name : String) (f : ExportedFunction)
    (functions : List (String × ExportedFunction)) :
    find? ⟨insert name f functions⟩ name = some f := by
  induction functions with
  | nil => simp [insert, find?]
  | cons g rest ih =>
    obtain ⟨other, g⟩ := g
    rw [insert]
    split
    · simp [find?]
    · split
      · simp [find?]
      · rename_i hne
        simpa [find?, Ne.symm hne] using ih

theorem find?_insert_of_ne (h : other ≠ name) :
    find? ⟨insert name f functions⟩ other = find? ⟨functions⟩ other := by
  induction functions with
  | nil => simp [insert, find?, h.symm]
  | cons g rest ih =>
    obtain ⟨key, g⟩ := g
    rw [insert]
    split
    · simp [find?, h.symm]
    · split
      · rename_i heq
        subst heq
        simp [find?, h.symm]
      · by_cases hkey : key = other
        · simp [find?, hkey]
        · simpa [find?, hkey] using ih

theorem find?_of_collect_of_eq_nil (h : collect m functions exports = .ok result)
    (hnone : functionExports exports name = []) : find? ⟨result⟩ name = find? ⟨functions⟩ name := by
  induction exports generalizing functions with
  | nil =>
    cases h
    rfl
  | cons e rest ih =>
    have hother : ¬(e.kind = .function ∧ e.name = name) := fun he => by
      rw [functionExports_cons_of_pos he.1 he.2] at hnone
      cases hnone
    rw [functionExports_cons_of_neg hother] at hnone
    rw [collect] at h
    split at h
    case isFalse => exact ih h hnone
    case isTrue hkind =>
      split at h
      · rw [ih h hnone, find?_insert_of_ne fun heq => hother ⟨hkind, heq.symm⟩]
      · cases h

/-- Of the function exports with one name the last one stays. -/
theorem find?_of_collect (h : collect m functions exports = .ok result)
    (hlast : (functionExports exports name).getLast? = some last) :
    ∃ signature, m.combinedFunctionType? last.index = some signature ∧
      find? ⟨result⟩ name = some ⟨last.index, signature⟩ := by
  induction exports generalizing functions with
  | nil => cases hlast
  | cons e rest ih =>
    rw [collect] at h
    by_cases hnamed : e.kind = .function ∧ e.name = name
    · obtain ⟨hkind, rfl⟩ := hnamed
      rw [if_pos hkind] at h
      rw [functionExports_cons_of_pos hkind rfl] at hlast
      split at h
      case h_2 => cases h
      case h_1 signature htype =>
        -- the export stays only if no other one of its name comes behind it
        cases hrest : functionExports rest e.name with
        | nil =>
          rw [hrest] at hlast
          obtain rfl : e = last := by simpa using hlast
          refine ⟨signature, htype, ?_⟩
          rw [find?_of_collect_of_eq_nil h hrest, find?_insert_self]
        | cons first others =>
          rw [hrest, List.getLast?_cons_cons, ← hrest] at hlast
          exact ih h hlast
    · rw [functionExports_cons_of_neg hnamed] at hlast
      split at h
      case isFalse => exact ih h hlast
      case isTrue =>
        split at h
        · exact ih h hlast
        · cases h

theorem ofModule_eq_ok_iff : ofModule m = .ok b ↔ collect m [] m.exports = .ok b.functions := by
  unfold ofModule
  cases collect m [] m.exports with
  | error e => simp [bind, Except.bind]
  | ok functions =>
    obtain ⟨bound⟩ := b
    simp [bind, Except.bind, pure, Except.pure]

theorem find?_of_ofModule (h : ofModule m = .ok b)
    (hlast : (functionExports m.exports name).getLast? = some last) :
    ∃ signature, m.combinedFunctionType? last.index = some signature ∧
      b.find? name = some ⟨last.index, signature⟩ :=
  find?_of_collect (ofModule_eq_ok_iff.mp h) hlast

theorem find?_of_ofModule_of_eq_nil (h : ofModule m = .ok b)
    (hnone : functionExports m.exports name = []) : b.find? name = none :=
  find?_of_collect_of_eq_nil (ofModule_eq_ok_iff.mp h) hnone

/-- The bindings of a module find the function that the search through its exports finds. -/
structure Agrees (b : ExportBindings) (m : Module) (name : String) : Prop where
  defined : ∀ i, m.findExportIndex? name .function = some i → ∃ f, b.find? name = some f ∧
    f.index.toNat = i.toNat + (m.importedCount .function).toNat ∧
    b.signature? name = m.functionType? i
  reexported : ∀ e ∈ m.exports, e.kind = .function → e.name = name →
    m.findExportIndex? name .function = none →
    ∃ f, b.find? name = some f ∧ f.index < m.importedCount .function
  missing : (∀ e ∈ m.exports, e.kind = .function → e.name ≠ name) → b.find? name = none

/-- The exports that the two ways come to are the same function, or both of them are imports. -/
def Consistent (m : Module) (name : String) : Prop :=
  ∀ first last, (functionExports m.exports name).head? = some first →
    (functionExports m.exports name).getLast? = some last → first.index = last.index ∨
      first.index < m.importedCount .function ∧ last.index < m.importedCount .function

theorem Agrees.consistent (h : ofModule m = .ok b) (hagrees : b.Agrees m name) :
    Consistent m name := by
  intro first last hfirst hlast
  obtain ⟨signature, -, hfind⟩ := find?_of_ofModule h hlast
  by_cases hle : m.importedCount .function ≤ first.index
  · have hsub := UInt32.toNat_sub_of_le _ _ hle
    have hnat := UInt32.le_iff_toNat_le.mp hle
    obtain ⟨f, hf, hindex, -⟩ := hagrees.defined (first.index - m.importedCount .function)
      (Module.findExportIndex?_eq_some_iff.mpr ⟨first, hfirst, hle, by omega⟩)
    rw [hfind] at hf
    cases hf
    exact .inl (UInt32.toNat_inj.mp (by simp only at hindex; omega))
  · have hlt := UInt32.not_le.mp hle
    obtain ⟨hmem, hkind, hname⟩ := mem_functionExports.mp (List.mem_of_mem_head? hfirst)
    obtain ⟨f, hf, himported⟩ := hagrees.reexported first hmem hkind hname
      (Module.findExportIndex?_eq_none_iff.mpr fun other hother => by
        rw [hfirst] at hother
        cases hother
        exact hlt)
    rw [hfind] at hf
    cases hf
    exact .inr ⟨hlt, himported⟩

theorem exists_last {first : Export} (hfirst : (functionExports exports name).head? = some first) :
    ∃ last, (functionExports exports name).getLast? = some last := by
  cases hexports : functionExports exports name with
  | nil =>
    rw [hexports] at hfirst
    cases hfirst
  | cons e rest => exact ⟨_, List.getLast?_cons⟩

theorem Consistent.agrees (h : ofModule m = .ok b) (hconsistent : Consistent m name) :
    b.Agrees m name where
  defined := by
    intro i hi
    obtain ⟨first, hfirst, hle, hindex⟩ := Module.findExportIndex?_eq_some_iff.mp hi
    obtain ⟨last, hlast⟩ := exists_last hfirst
    obtain ⟨signature, htype, hfind⟩ := find?_of_ofModule h hlast
    rcases hconsistent first last hfirst hlast with hsame | ⟨hlt, -⟩
    · rw [← hsame] at htype hfind
      have hsub : first.index - m.importedCount .function = i := by
        have := UInt32.toNat_sub_of_le _ _ hle
        exact UInt32.toNat_inj.mp (by omega)
      rw [Module.combinedFunctionType?_of_le hle, hsub] at htype
      refine ⟨_, hfind, hindex, ?_⟩
      rw [signature?, hfind, htype, Option.map_some]
    · exact absurd hle (UInt32.not_le.mpr hlt)
  reexported := by
    intro e hmem hkind hname hnone
    have hnamed : e ∈ functionExports m.exports name := mem_functionExports.mpr ⟨hmem, hkind, hname⟩
    obtain ⟨first, hfirst⟩ : ∃ first, (functionExports m.exports name).head? = some first :=
      ⟨_, List.head?_eq_some_head (List.ne_nil_of_mem hnamed)⟩
    obtain ⟨last, hlast⟩ := exists_last hfirst
    obtain ⟨signature, -, hfind⟩ := find?_of_ofModule h hlast
    have hlt := Module.findExportIndex?_eq_none_iff.mp hnone first hfirst
    refine ⟨_, hfind, ?_⟩
    rcases hconsistent first last hfirst hlast with hsame | ⟨-, hlast⟩
    · rwa [← hsame]
    · exact hlast
  missing := by
    intro hother
    refine find?_of_ofModule_of_eq_nil h (List.eq_nil_iff_forall_not_mem.mpr fun e he => ?_)
    obtain ⟨hmem, hkind, hname⟩ := mem_functionExports.mp he
    exact hother e hmem hkind hname

/-- A name is bound to the last function that is exported under it, and to none if there is no such
function. The search finds the same function exactly if the first and the last export of the name agree,
as they do where it has one only. -/
theorem ofModule_resolves (m : Module) (b : ExportBindings) (h : ofModule m = .ok b) (name : String) :
    (functionExports m.exports name = [] → b.find? name = none) ∧
    (∀ last, (functionExports m.exports name).getLast? = some last →
      ∃ signature, m.combinedFunctionType? last.index = some signature ∧
        b.find? name = some ⟨last.index, signature⟩) ∧
    (b.Agrees m name ↔ Consistent m name) :=
  ⟨find?_of_ofModule_of_eq_nil h, fun _ => find?_of_ofModule h,
    Agrees.consistent h, Consistent.agrees h⟩

/-- A defined function and an imported one, behind a memory with the name of the first. -/
theorem ofModule_resolves_imported :
    let m : Module := {
      types := [⟨[], []⟩, ⟨[], [.i32]⟩]
      imports := [⟨"env", "log", .function 0⟩]
      functions := [1]
      exports := [⟨"run", .memory, 0⟩, ⟨"run", .function, 1⟩, ⟨"log", .function, 0⟩] }
    ∃ b, ofModule m = .ok b ∧ b.Agrees m "run" ∧ b.Agrees m "log" := by
  intro m
  have hinsert : insert "log" ⟨0, ⟨[], []⟩⟩ [("run", ⟨1, ⟨[], [.i32]⟩⟩)] =
      [("log", ⟨0, ⟨[], []⟩⟩), ("run", ⟨1, ⟨[], [.i32]⟩⟩)] := by decide
  have hcollect : collect m [] m.exports =
      .ok (insert "log" ⟨0, ⟨[], []⟩⟩ [("run", ⟨1, ⟨[], [.i32]⟩⟩)]) := by
    simp only [m, collect]
    rfl
  have h : ofModule m = .ok ⟨[("log", ⟨0, ⟨[], []⟩⟩), ("run", ⟨1, ⟨[], [.i32]⟩⟩)]⟩ := by
    rw [ofModule, hcollect, hinsert]
    rfl
  have hrun : functionExports m.exports "run" = [⟨"run", .function, 1⟩] := rfl
  have hlog : functionExports m.exports "log" = [⟨"log", .function, 0⟩] := rfl
  refine ⟨_, h, (ofModule_resolves m _ h "run").2.2.mpr ?_, (ofModule_resolves m _ h "log").2.2.mpr ?_⟩
  · intro first last hfirst hlast
    rw [hrun] at hfirst hlast
    cases hfirst
    cases hlast
    exact .inl rfl
  · intro first last hfirst hlast
    rw [hlog] at hfirst hlast
    cases hfirst
    cases hlast
    exact .inl rfl

/-- Two functions that are exported under the same name. -/
def repeatedExport : Module where
  types := [⟨[], []⟩]
  functions := [0, 0]
  exports := [⟨"f", .function, 0⟩, ⟨"f", .function, 1⟩]
  code := [⟨2, [], []⟩, ⟨2, [], []⟩]

def repeatedExportBytes : List UInt8 :=
  header ++ [1, 4, 1, 0x60, 0, 0, 3, 3, 2, 0, 0, 7, 9, 2, 1, 0x66, 0, 0, 1, 0x66, 0, 1,
    10, 7, 2, 2, 0, 11, 2, 0, 11]

theorem decodeModule_repeatedExportBytes :
    decodeModule {} repeatedExportBytes = .ok repeatedExport := by
  have hsteps : (Decoder.new {}).steps? (Cursor.whole repeatedExportBytes) 20 =
      some (⟨{}, .sectionStart, repeatedExport⟩, ⟨39, []⟩) := by decide +kernel
  exact decodeModule_of_steps? hsteps

/-- Under a repeated name the bindings have the last function, and the search finds the first one. -/
theorem not_agrees_of_repeated :
    ¬∀ (limits : DecoderLimits) (bytes : List UInt8) (m : Module) (b : ExportBindings),
      decodeModule limits bytes = .ok m → ofModule m = .ok b → ∀ name, b.Agrees m name := by
  intro hagrees
  have h : ofModule repeatedExport = .ok ⟨[("f", ⟨1, ⟨[], []⟩⟩)]⟩ := rfl
  have hfirst : repeatedExport.findExportIndex? "f" .function = some 0 := rfl
  obtain ⟨f, hf, hindex, -⟩ :=
    (hagrees _ _ _ _ decodeModule_repeatedExportBytes h "f").defined 0 hfirst
  have hbound : find? ⟨[("f", ⟨1, ⟨[], []⟩⟩)]⟩ "f" = some ⟨1, ⟨[], []⟩⟩ := rfl
  rw [hbound] at hf
  cases hf
  exact absurd hindex (by decide)

end ExportBindings
end WasmStream
