import WasmStream.Proofs.ConstantTree
import WasmStream.Proofs.Grammar.Expression
import WasmStream.Proofs.Instantiation

/-! The globals of an instance as one environment. Every initialiser is evaluated over the globals in
front of its own, and the list grows with each of them; but what an expression has got from some globals
it gets from any longer list that begins with them, and so the finished list gives each global its
value again. -/
namespace WasmStream

namespace ConstantExpression
variable {G : List Value} {v : Value} {e : Expression}

/-! ## Longer environments -/

theorem Leaf.value?_append {l : Leaf} (h : l.value? G = some v) (H : List Value) :
    l.value? (G ++ H) = some v := by
  cases l with
  | global index =>
    obtain ⟨hindex, -⟩ := List.getElem?_eq_some_iff.mp h
    exact (List.getElem?_append_left hindex).trans h
  | _ => exact h

theorem Tree.value?_append {t : Tree} (h : t.value? G = some v) (H : List Value) :
    t.value? (G ++ H) = some v := by
  induction t generalizing v with
  | leaf l => exact Leaf.value?_append h H
  | node type op left right ihLeft ihRight =>
    obtain ⟨a, b, ha, hb, hcombine⟩ := value?_node_eq_some_iff.mp h
    exact value?_node_eq_some_iff.mpr ⟨a, b, ihLeft ha, ihRight hb, hcombine⟩

/-- Further globals do not change a value. -/
theorem evaluate_append (h : evaluate e G = .ok v) (H : List Value) :
    evaluate e (G ++ H) = .ok v := by
  obtain ⟨t, ht, hv⟩ := evaluate_eq_ok_iff.mp h
  exact evaluate_eq_ok_iff.mpr ⟨t, ht, Tree.value?_append hv H⟩

/-! ## What an expression refers to -/

/-- A global that the instruction names is among the first `bound`. -/
def NamesBelow (bound : Nat) (i : Instruction) : Prop :=
  ∀ op index, i = .indexed op index → op = .globalGet ∨ op = .globalSet → index.toNat < bound

theorem Leaf.namesBelow {l : Leaf} (h : l.value? G = some v) :
    NamesBelow G.length l.instruction := by
  rintro op index hi hop
  cases l with
  | global index' =>
    obtain ⟨hindex, -⟩ := List.getElem?_eq_some_iff.mp h
    cases hi
    exact hindex
  | function index' =>
    cases hi
    cases hop <;> contradiction
  | _ => cases hi

theorem Leaf.everywhere_iff (l : Leaf) (P : Instruction → Prop) :
    l.instruction.Everywhere P ↔ P l.instruction := by
  cases l <;> simp only [Leaf.instruction, Instruction.Everywhere]

theorem Tree.namesBelow {t : Tree} (h : t.value? G = some v) :
    Instruction.EverywhereAll (NamesBelow G.length) t.flatten := by
  induction t generalizing v with
  | leaf l => exact ⟨(l.everywhere_iff _).mpr (Leaf.namesBelow h), trivial⟩
  | node type op left right ihLeft ihRight =>
    obtain ⟨a, b, ha, hb, -⟩ := value?_node_eq_some_iff.mp h
    have hoperator : (Instruction.numeric (operator type op)).Everywhere (NamesBelow G.length) := by
      simp only [Instruction.Everywhere]
      intro op' index hi
      cases hi
    simp only [Tree.flatten, Instruction.everywhereAll_append]
    exact ⟨⟨ihLeft ha, ihRight hb⟩, hoperator, trivial⟩

/-- An expression with a value names no global that is not there. -/
theorem namesBelow_of_evaluate (h : evaluate e G = .ok v) :
    Instruction.EverywhereAll (NamesBelow G.length) e := by
  obtain ⟨t, rfl, hv⟩ := evaluate_eq_ok_iff.mp h
  exact Tree.namesBelow hv

end ConstantExpression

namespace Instance
open ConstantExpression

/-! ## The finished list -/

/-- The globals are the imported values, of the types that the imports declare, and behind them a value
of the declared type for every definition. An initialiser has the value of its global over the globals
in front of it and over all of them alike, and it names none but those in front. -/
structure Consistent (m : Module) (imported globals : List Value) : Prop where
  imported_types : imported.map Value.type = importedGlobals m
  layout : ∃ defined, globals = imported ++ defined ∧
    defined.map Value.type = m.globals.map (·.type.type)
  value : ∀ j (h : j < m.globals.length), ∃ v, globals[imported.length + j]? = some v ∧
    evaluate m.globals[j].init (globals.take (imported.length + j)) = .ok v ∧
    evaluate m.globals[j].init globals = .ok v
  backward : ∀ j (h : j < m.globals.length),
    Instruction.EverywhereAll (NamesBelow (imported.length + j)) m.globals[j].init

variable {m : Module} {imported globals : List Value} {definitions : List Global}

theorem Defines.types_eq (h : Defines imported definitions globals) :
    (globals.drop imported.length).map Value.type = definitions.map (·.type.type) := by
  have hlength := h.length_eq
  refine List.ext_getElem (by simp; omega) fun j hj hj' => ?_
  rw [List.length_map] at hj'
  obtain ⟨v, hv, -, htype⟩ := h.value j hj'
  obtain ⟨_, rfl⟩ := List.getElem?_eq_some_iff.mp hv
  simpa using htype

theorem GlobalsOf.consistent (h : GlobalsOf m imported globals) : Consistent m imported globals where
  imported_types := h.types_eq
  layout := by
    have hsplit := List.take_append_drop imported.length globals
    rw [h.defines.take_eq] at hsplit
    exact ⟨_, hsplit.symm, h.defines.types_eq⟩
  value j hj := by
    obtain ⟨v, hv, hvalue, -⟩ := h.defines.value j hj
    have hall := evaluate_append hvalue (globals.drop (imported.length + j))
    rw [List.take_append_drop] at hall
    exact ⟨v, hv, hvalue, hall⟩
  backward j hj := by
    obtain ⟨v, -, hvalue, -⟩ := h.defines.value j hj
    have hbelow := namesBelow_of_evaluate hvalue
    have hlength : (globals.take (imported.length + j)).length = imported.length + j := by
      have := h.defines.length_eq
      rw [List.length_take]
      omega
    rwa [hlength] at hbelow

/-- The globals of an instance are consistent, on whatever host it was made; and an expression with a
value keeps it when globals are added at the end. -/
theorem globals_consistent (host : Host) (m : Module) (imported : List Value)
    (config : RuntimeConfig) :
    (∀ i, instantiateOn host m imported config = .ok i → Consistent m imported i.globals) ∧
    ∀ e G H v, evaluate e G = .ok v → evaluate e (G ++ H) = .ok v := by
  refine ⟨fun i hi => ?_, fun e G H v h => evaluate_append h H⟩
  obtain ⟨-, -, hglobals, -⟩ := instantiateOn_eq_ok_iff_phases.mp hi
  exact ((evaluateGlobals_eq_ok_iff m imported i.globals).mp hglobals).consistent

/-- The second definition takes the first one from the imported global. -/
def differences : Module where
  imports := [⟨"host", "base", .global ⟨.i32, false⟩⟩]
  globals := [⟨⟨.i32, false⟩, [.indexed .globalGet 0, .i32Const 2, .numeric .i32Mul]⟩,
    ⟨⟨.i32, true⟩, [.indexed .globalGet 0, .indexed .globalGet 1, .numeric .i32Sub]⟩]

theorem globals_consistent_differences :
    ∃ i, instantiate differences [.i32 9] {} = .ok i ∧ i.globals = [.i32 9, .i32 18, .i32 (-9)] ∧
      Consistent differences [.i32 9] i.globals := by
  refine ⟨⟨none, [.i32 9, .i32 18, .i32 (-9)]⟩, rfl, rfl, ?_⟩
  exact (globals_consistent .roomy differences [.i32 9] {}).1 _ rfl

end Instance
end WasmStream
