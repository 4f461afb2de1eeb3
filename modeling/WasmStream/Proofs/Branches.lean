import Mathlib.Data.List.TakeWhile
import WasmStream.Proofs.Grammar.Expression

/-! The arms of an `if`. In an expression that was read, a marker between two arms stands directly inside
an `if` and only once there, and so the arms of a body are what stands before the marker and behind
it. -/
namespace WasmStream

namespace Instruction
variable {kind : BlockKind} {type : BlockType} {body first second l : Expression} {i : Instruction}

theorem isElse_iff : i.isElse = true ↔ i = .elseMark := by cases i <;> simp [isElse]

theorem countP_isElse_eq_zero_iff : l.countP isElse = 0 ↔ .elseMark ∉ l := by
  simp only [List.countP_eq_zero, isElse_iff]
  exact ⟨fun h hmem => h _ hmem rfl, fun h i hi he => h (he ▸ hi)⟩

theorem not_isElse_of_not_mem (h : .elseMark ∉ l) : ∀ i ∈ l, (!i.isElse) = true := by
  intro i hi
  rw [Bool.not_eq_true', Bool.eq_false_iff, ne_eq, isElse_iff]
  rintro rfl
  exact h hi

theorem branches_of_not_mem (h : .elseMark ∉ body) : branches body = (body, []) := by
  have hall := not_isElse_of_not_mem h
  rw [branches, List.takeWhile_eq_self_iff.mpr hall, List.dropWhile_eq_nil_iff.mpr hall]
  rfl

/-- The first marker divides the body. -/
theorem branches_append (h : .elseMark ∉ first) (second : Expression) :
    branches (first ++ .elseMark :: second) = (first, second) := by
  have hall := not_isElse_of_not_mem h
  rw [branches, List.takeWhile_append_of_pos hall, List.dropWhile_append_of_pos hall]
  exact congrArg (·, second) (List.append_nil first)

/-- The arms of a block's body: there are two if there is a marker, which only an `if` has, and
otherwise the first arm is the whole body. -/
structure Arms (kind : BlockKind) (body : Expression) : Prop where
  first : .elseMark ∉ (branches body).1
  second : .elseMark ∉ (branches body).2
  divided : .elseMark ∈ body →
    kind = .conditional ∧ body = (branches body).1 ++ .elseMark :: (branches body).2
  undivided : .elseMark ∉ body → (branches body).1 = body ∧ (branches body).2 = []

/-- A block with at most one marker, and with none if it is no `if`, has arms. -/
theorem arms_of_proper (h : Proper (.block kind type body)) : Arms kind body := by
  have hmarks : body.countP isElse ≤ if kind = .conditional then 1 else 0 := h
  by_cases hmem : .elseMark ∈ body
  · obtain ⟨first, second, rfl⟩ := List.append_of_mem hmem
    simp only [List.countP_append, List.countP_cons, isElse, if_true] at hmarks
    have hkind : kind = .conditional := by
      by_contra hne
      rw [if_neg hne] at hmarks
      omega
    rw [if_pos hkind] at hmarks
    have hfirst : .elseMark ∉ first := countP_isElse_eq_zero_iff.mp (by omega)
    have hsecond : .elseMark ∉ second := countP_isElse_eq_zero_iff.mp (by omega)
    have harms := branches_append hfirst second
    exact {
      first := by rwa [harms]
      second := by rwa [harms]
      divided := fun _ => ⟨hkind, by rw [harms]⟩
      undivided := fun hnot => absurd hmem hnot }
  · have harms := branches_of_not_mem hmem
    exact {
      first := by rwa [harms]
      second := by
        rw [harms]
        exact List.not_mem_nil
      divided := fun hin => absurd hin hmem
      undivided := fun _ => by rw [harms]; exact ⟨rfl, rfl⟩ }

/-- The instruction stands in the sequence, or in the body of a block inside it, at any depth. -/
inductive Inside (i : Instruction) : Expression → Prop
  | here {l : Expression} : i ∈ l → Inside i l
  | deeper {l : Expression} {kind : BlockKind} {type : BlockType} {body : Expression} :
      .block kind type body ∈ l → Inside i body → Inside i l

theorem Everywhere.self {P : Instruction → Prop} (h : i.Everywhere P) : P i := by
  cases i with
  | block kind type body => exact h.1
  | _ => exact h

theorem EverywhereAll.of_mem {P : Instruction → Prop} (h : EverywhereAll P l) (hi : i ∈ l) :
    i.Everywhere P := by
  induction l with
  | nil => cases hi
  | cons j rest ih =>
    rcases List.mem_cons.mp hi with rfl | hrest
    · exact h.1
    · exact ih h.2 hrest

theorem EverywhereAll.of_inside {P : Instruction → Prop} (h : EverywhereAll P l)
    (hi : Inside i l) : P i := by
  induction hi with
  | here hmem => exact (h.of_mem hmem).self
  | deeper hmem _ ih => exact ih (h.of_mem hmem).2

end Instruction

namespace Expression
open Instruction

/-- In an expression that was read, from whatever bytes and under whatever limits, there is no marker
outside of all blocks, and every block inside it, at any depth, has its arms. -/
theorem arms_of_reader {limits : DecoderLimits} {c : Cursor} {e : Expression} {n : Nat}
    (h : reader limits c = .done e n) :
    .elseMark ∉ e ∧ ∀ kind type body, Inside (.block kind type body) e → Arms kind body := by
  obtain ⟨-, -, ⟨hmarks, hproper⟩, -⟩ := (reads_reader limits c e n).mp h
  refine ⟨countP_isElse_eq_zero_iff.mp hmarks, fun kind type body hinside => ?_⟩
  exact arms_of_proper (hproper.of_inside hinside)

/-- An `if` without a marker in the second arm of an `if` in a loop. -/
theorem arms_of_reader_nested :
    let inner : Instruction := .block .conditional .empty [.plain .nop]
    let outer : Expression := [.indexed .br 1, .elseMark, .i32Const 1, inner]
    let whole : Expression := [.block .loop .empty [.i32Const 0, .block .conditional .empty outer]]
    reader {} ⟨7, [0x03, 0x40, 0x41, 0x00, 0x04, 0x40, 0x0C, 0x01, 0x05, 0x41, 0x01, 0x04, 0x40, 0x01,
      0x0B, 0x0B, 0x0B, 0x0B]⟩ = .done whole 18 ∧
      branches outer = ([.indexed .br 1], [.i32Const 1, inner]) ∧ .elseMark ∉ whole ∧
      Arms .conditional outer ∧ Arms .conditional [.plain .nop] := by
  intro inner outer whole
  have hread : reader {} ⟨7, [0x03, 0x40, 0x41, 0x00, 0x04, 0x40, 0x0C, 0x01, 0x05, 0x41, 0x01, 0x04,
      0x40, 0x01, 0x0B, 0x0B, 0x0B, 0x0B]⟩ = .done whole 18 := by cbv
  obtain ⟨hnone, harms⟩ := arms_of_reader hread
  have houter : Inside (.block .conditional .empty outer) whole :=
    .deeper (List.mem_singleton_self _) (.here (by simp))
  have hinner : Inside inner whole :=
    .deeper (List.mem_singleton_self _) (.deeper (List.mem_cons_of_mem _ (List.mem_singleton_self _))
      (.here (by simp [outer])))
  exact ⟨hread, rfl, hnone, harms _ _ _ houter, harms _ _ _ hinner⟩

end Expression
end WasmStream
