import WasmStream.ConstantExpression

/-! Constant expressions as trees. An expression has a value if and only if it is one well-typed tree
written from left to right with every operator behind its operands, and the value is that of the tree:
whatever the stack holds in between, it is the values of the trees that have been read. -/
namespace WasmStream
namespace ConstantExpression

/-- The integers that constants are computed with. -/
inductive IntegerType where
  | i32 | i64
  deriving DecidableEq, Repr

def IntegerType.type : IntegerType → ValueType
  | i32 => .i32
  | i64 => .i64

inductive Arithmetic where
  | add | sub | mul
  deriving DecidableEq, Repr

def Arithmetic.apply : Arithmetic → (left right : Int) → Int
  | add, left, right => left + right
  | sub, left, right => left - right
  | mul, left, right => left * right

def operator : IntegerType → Arithmetic → NumericOp
  | .i32, .add => .i32Add
  | .i32, .sub => .i32Sub
  | .i32, .mul => .i32Mul
  | .i64, .add => .i64Add
  | .i64, .sub => .i64Sub
  | .i64, .mul => .i64Mul

inductive Leaf where
  | i32 (value : Int32)
  | i64 (value : Int64)
  | f32 (bits : UInt32)
  | f64 (bits : UInt64)
  | global (index : UInt32)
  | null (type : ValueType)
  | function (index : UInt32)
  deriving DecidableEq, Repr

inductive Tree where
  | leaf (leaf : Leaf)
  | node (type : IntegerType) (op : Arithmetic) (left right : Tree)
  deriving DecidableEq, Repr

def Leaf.instruction : Leaf → Instruction
  | i32 value => .i32Const value
  | i64 value => .i64Const value
  | f32 bits => .f32Const bits
  | f64 bits => .f64Const bits
  | global index => .indexed .globalGet index
  | null type => .refNull type
  | function index => .indexed .refFunc index

/-- The instructions of a tree, operands first. -/
def Tree.flatten : Tree → Expression
  | leaf l => [l.instruction]
  | node type op left right => left.flatten ++ right.flatten ++ [.numeric (operator type op)]

/-- The global is there and of some type, a null is of a reference type, and both operands of an operator
are of its type. -/
inductive Tree.HasType (globals : List Value) : Tree → ValueType → Prop
  | i32 (value : Int32) : HasType globals (.leaf (.i32 value)) .i32
  | i64 (value : Int64) : HasType globals (.leaf (.i64 value)) .i64
  | f32 (bits : UInt32) : HasType globals (.leaf (.f32 bits)) .f32
  | f64 (bits : UInt64) : HasType globals (.leaf (.f64 bits)) .f64
  | global {index : UInt32} (h : index.toNat < globals.length) :
      HasType globals (.leaf (.global index)) globals[index.toNat].type
  | null {type : ValueType} (h : type.isReference = true) :
      HasType globals (.leaf (.null type)) type
  | function (index : UInt32) : HasType globals (.leaf (.function index)) .funcRef
  | node {type : IntegerType} {op : Arithmetic} {left right : Tree} :
      HasType globals left type.type → HasType globals right type.type →
      HasType globals (.node type op left right) type.type

def Leaf.value? (globals : List Value) : Leaf → Option Value
  | i32 value => some (.i32 value)
  | i64 value => some (.i64 value)
  | f32 bits => some (.f32 bits)
  | f64 bits => some (.f64 bits)
  | global index => globals[index.toNat]?
  | null type => if type.isReference then Value.default? type else none
  | function index => some (.funcRef (some index))

/-- The result as a number, taken back to the width of the operands in two's complement. -/
def combine? (op : Arithmetic) : IntegerType → (left right : Value) → Option Value
  | .i32, .i32 x, .i32 y => some (.i32 (Int32.ofInt (op.apply x.toInt y.toInt)))
  | .i64, .i64 x, .i64 y => some (.i64 (Int64.ofInt (op.apply x.toInt y.toInt)))
  | _, _, _ => none

def Tree.value? (globals : List Value) : Tree → Option Value
  | leaf l => l.value? globals
  | node type op left right => do combine? op type (← left.value? globals) (← right.value? globals)

variable {globals : List Value} {stack : List Value} {v : Value} {t : Tree}

/-! ## One tree for an expression -/

theorem operator_inj {type type' : IntegerType} {op op' : Arithmetic}
    (h : operator type op = operator type' op') : type = type' ∧ op = op' := by
  cases type <;> cases op <;> cases type' <;> cases op' <;> simp_all [operator]

theorem Leaf.instruction_inj {l l' : Leaf} (h : l.instruction = l'.instruction) : l = l' := by
  cases l <;> cases l' <;> cases h <;> rfl

theorem Leaf.instruction_ne_numeric (l : Leaf) (op : NumericOp) : l.instruction ≠ .numeric op := by
  cases l <;> exact nofun

/-- The last instruction says what kind of tree ends there; the operands of an operator end where it
begins, the right one first. -/
theorem Tree.flatten_inj_of_append {t' : Tree} {before before' : Expression}
    (h : before ++ t.flatten = before' ++ t'.flatten) : before = before' ∧ t = t' := by
  induction t generalizing t' before before' with
  | leaf l =>
    cases t' with
    | leaf l' =>
      obtain ⟨rfl, hlast⟩ := List.append_singleton_inj.mp h
      exact ⟨rfl, congrArg leaf (Leaf.instruction_inj hlast)⟩
    | node type' op' left' right' =>
      simp only [flatten, ← List.append_assoc] at h
      obtain ⟨-, hlast⟩ := List.append_singleton_inj.mp h
      exact absurd hlast (l.instruction_ne_numeric _)
  | node type op left right ihLeft ihRight =>
    cases t' with
    | leaf l' =>
      simp only [flatten, ← List.append_assoc] at h
      obtain ⟨-, hlast⟩ := List.append_singleton_inj.mp h
      exact absurd hlast.symm (l'.instruction_ne_numeric _)
    | node type' op' left' right' =>
      simp only [flatten, ← List.append_assoc] at h
      obtain ⟨hoperands, hlast⟩ := List.append_singleton_inj.mp h
      obtain ⟨rfl, rfl⟩ := operator_inj (Instruction.numeric.inj hlast)
      obtain ⟨hleft, rfl⟩ := ihRight hoperands
      obtain ⟨rfl, rfl⟩ := ihLeft hleft
      exact ⟨rfl, rfl⟩

theorem Tree.flatten_injective : Function.Injective Tree.flatten := by
  intro t t' h
  have happend : [] ++ t.flatten = [] ++ t'.flatten := by rw [h]
  exact (flatten_inj_of_append happend).2

/-! ## Types -/

theorem combine?_of_type {type : IntegerType} {a b : Value} (op : Arithmetic) (ha : a.type = type.type)
    (hb : b.type = type.type) : ∃ v, combine? op type a b = some v ∧ v.type = type.type := by
  cases type <;> cases a <;> cases ha <;> cases b <;> cases hb <;> exact ⟨_, rfl, rfl⟩

theorem type_of_combine? {type : IntegerType} {op : Arithmetic} {a b : Value}
    (h : combine? op type a b = some v) :
    a.type = type.type ∧ b.type = type.type ∧ v.type = type.type := by
  unfold combine? at h
  split at h
  · cases h
    exact ⟨rfl, rfl, rfl⟩
  · cases h
    exact ⟨rfl, rfl, rfl⟩
  · cases h

theorem value?_node_eq_some_iff {type : IntegerType} {op : Arithmetic} {left right : Tree} :
    (Tree.node type op left right).value? globals = some v ↔ ∃ a b,
      left.value? globals = some a ∧ right.value? globals = some b ∧
        combine? op type a b = some v := by
  simp only [Tree.value?, bind, Option.bind_eq_some_iff]
  constructor
  · rintro ⟨a, ha, b, hb, h⟩
    exact ⟨a, b, ha, hb, h⟩
  · rintro ⟨a, b, ha, hb, h⟩
    exact ⟨a, ha, b, hb, h⟩

/-- A tree has a type if and only if it has a value, which is of that type. -/
theorem Tree.hasType_iff {type : ValueType} :
    t.HasType globals type ↔ ∃ v, t.value? globals = some v ∧ v.type = type := by
  constructor
  · intro h
    induction h with
    | i32 | i64 | f32 | f64 | function => exact ⟨_, rfl, rfl⟩
    | global h => exact ⟨_, List.getElem?_eq_getElem h, rfl⟩
    | @null type h =>
      cases type with
      | funcRef | externRef => exact ⟨_, rfl, rfl⟩
      | _ => cases h
    | node _ _ ihLeft ihRight =>
      obtain ⟨a, ha, hatype⟩ := ihLeft
      obtain ⟨b, hb, hbtype⟩ := ihRight
      obtain ⟨v, hv, htype⟩ := combine?_of_type _ hatype hbtype
      exact ⟨v, value?_node_eq_some_iff.mpr ⟨a, b, ha, hb, hv⟩, htype⟩
  · rintro ⟨v, hv, rfl⟩
    induction t generalizing v with
    | leaf l =>
      cases l with
      | i32 | i64 | f32 | f64 | function =>
        cases hv
        constructor
      | global index =>
        obtain ⟨h, rfl⟩ := List.getElem?_eq_some_iff.mp hv
        exact .global h
      | null type =>
        simp only [value?, Leaf.value?, Option.ite_none_right_eq_some] at hv
        rw [Value.type_of_default? hv.2]
        exact .null hv.1
    | node type op left right ihLeft ihRight =>
      obtain ⟨a, b, ha, hb, hcombine⟩ := value?_node_eq_some_iff.mp hv
      obtain ⟨hatype, hbtype, hvtype⟩ := type_of_combine? hcombine
      have hleft := ihLeft a ha
      have hright := ihRight b hb
      rw [hatype] at hleft
      rw [hbtype] at hright
      rw [hvtype]
      exact .node hleft hright

/-! ## The stack -/

theorem isConstant_iff {op : NumericOp} :
    isConstant op = true ↔ ∃ type arithmetic, op = operator type arithmetic := by
  constructor
  · intro h
    unfold isConstant at h
    split at h
    · exact ⟨.i32, .add, rfl⟩
    · exact ⟨.i32, .sub, rfl⟩
    · exact ⟨.i32, .mul, rfl⟩
    · exact ⟨.i64, .add, rfl⟩
    · exact ⟨.i64, .sub, rfl⟩
    · exact ⟨.i64, .mul, rfl⟩
    · cases h
  · rintro ⟨type, arithmetic, rfl⟩
    cases type <;> cases arithmetic <;> rfl

theorem binary_of_not_isConstant {op : NumericOp} (h : isConstant op = false) (a b : Value) :
    binary op a b = .error (.nonConstantInstruction op.mnemonic) := by
  unfold binary
  split <;> simp_all [isConstant]

/-- Sums, differences and products of words are those of the numbers, and operands of another type are
refused. -/
theorem binary_operator (type : IntegerType) (op : Arithmetic) (a b : Value) :
    binary (operator type op) a b = match combine? op type a b with
      | some v => .ok v
      | none => .error (.typeMismatch (operator type op).mnemonic (HostResult.typeList [a, b])) := by
  cases type with
  | i32 =>
    cases op <;> cases a <;> cases b <;> first
      | rfl
      | simp [operator, binary, combine?, Arithmetic.apply, Int32.ofInt_add, Int32.ofInt_sub,
          Int32.ofInt_mul]
  | i64 =>
    cases op <;> cases a <;> cases b <;> first
      | rfl
      | simp [operator, binary, combine?, Arithmetic.apply, Int64.ofInt_add, Int64.ofInt_sub,
          Int64.ofInt_mul]

theorem binary_eq_ok_iff {op : NumericOp} {a b : Value} :
    binary op a b = .ok v ↔ ∃ type arithmetic, op = operator type arithmetic ∧
      combine? arithmetic type a b = some v := by
  constructor
  · intro h
    cases hconstant : isConstant op with
    | false =>
      rw [binary_of_not_isConstant hconstant] at h
      cases h
    | true =>
      obtain ⟨type, arithmetic, rfl⟩ := isConstant_iff.mp hconstant
      rw [binary_operator] at h
      split at h
      · next w hw =>
        cases h
        exact ⟨type, arithmetic, rfl, hw⟩
      · cases h
  · rintro ⟨type, arithmetic, rfl, h⟩
    rw [binary_operator, h]

/-- An instruction puts the value of a leaf on the stack, or has an operator take its operands from it:
the right one is on top. -/
theorem step_eq_ok_iff {i : Instruction} {after : List Value} :
    step globals stack i = .ok after ↔
      (∃ (l : Leaf) (v : Value), i = l.instruction ∧ l.value? globals = some v ∧ after = v :: stack) ∨
      ∃ type op a b rest v, i = .numeric (operator type op) ∧ stack = b :: a :: rest ∧
        combine? op type a b = some v ∧ after = v :: rest := by
  constructor
  · intro h
    unfold step at h
    split at h
    · next n =>
      cases h
      exact .inl ⟨.i32 n, _, rfl, rfl, rfl⟩
    · next n =>
      cases h
      exact .inl ⟨.i64 n, _, rfl, rfl, rfl⟩
    · next bits =>
      cases h
      exact .inl ⟨.f32 bits, _, rfl, rfl, rfl⟩
    · next bits =>
      cases h
      exact .inl ⟨.f64 bits, _, rfl, rfl, rfl⟩
    · next index =>
      split at h
      · next v hv =>
        cases h
        exact .inl ⟨.global index, v, rfl, hv, rfl⟩
      · cases h
    · cases h
      exact .inl ⟨.null .funcRef, _, rfl, rfl, rfl⟩
    · cases h
      exact .inl ⟨.null .externRef, _, rfl, rfl, rfl⟩
    · cases h
    · next index =>
      cases h
      exact .inl ⟨.function index, _, rfl, rfl, rfl⟩
    · next op =>
      split at h
      · next b a rest =>
        split at h
        · next v hv =>
          cases h
          obtain ⟨type, arithmetic, rfl, hcombine⟩ := binary_eq_ok_iff.mp hv
          exact .inr ⟨type, arithmetic, a, b, rest, v, rfl, rfl, hcombine, rfl⟩
        · cases h
      · cases h
    · cases h
  · rintro (⟨l, v, rfl, hv, rfl⟩ | ⟨type, op, a, b, rest, v, rfl, rfl, hcombine, rfl⟩)
    · cases l with
      | i32 | i64 | f32 | f64 | function =>
        cases hv
        rfl
      | global index =>
        have hglobal : globals[index.toNat]? = some v := hv
        simp only [Leaf.instruction, step, hglobal]
      | null type =>
        cases type <;> cases hv <;> rfl
    · have hbinary := binary_eq_ok_iff.mpr ⟨type, op, rfl, hcombine⟩
      simp only [step, hbinary]

theorem run_cons {i : Instruction} {rest : Expression} {after : List Value} :
    run globals stack (i :: rest) = .ok after ↔
      ∃ next, step globals stack i = .ok next ∧ run globals next rest = .ok after := by
  simp only [run]
  cases step globals stack i <;> simp

/-- Whatever comes behind it, a tree leaves its value on the stack. -/
theorem run_flatten_append (h : t.value? globals = some v) (stack : List Value) (rest : Expression) :
    run globals stack (t.flatten ++ rest) = run globals (v :: stack) rest := by
  induction t generalizing v stack rest with
  | leaf l =>
    have hstep : step globals stack l.instruction = .ok (v :: stack) :=
      step_eq_ok_iff.mpr (.inl ⟨l, v, rfl, h, rfl⟩)
    simp only [Tree.flatten, List.singleton_append, run, hstep]
  | node type op left right ihLeft ihRight =>
    obtain ⟨a, b, ha, hb, hcombine⟩ := value?_node_eq_some_iff.mp h
    have hstep : step globals (b :: a :: stack) (.numeric (operator type op)) = .ok (v :: stack) :=
      step_eq_ok_iff.mpr (.inr ⟨type, op, a, b, stack, v, rfl, rfl, hcombine, rfl⟩)
    simp only [Tree.flatten, List.append_assoc]
    rw [ihLeft ha, ihRight hb]
    simp only [List.singleton_append, run, hstep]

/-- The trees that have been read, the last one first: they are what the instructions before flatten,
and the stack has their values. -/
structure Represents (globals : List Value) (trees : List Tree) (before : Expression)
    (stack : List Value) : Prop where
  flatten_eq : trees.reverse.flatMap Tree.flatten = before
  values_eq : trees.map (Tree.value? globals) = stack.map some

theorem Represents.nil (globals : List Value) : Represents globals [] [] [] := ⟨rfl, rfl⟩

theorem Represents.leaf {trees : List Tree} {before : Expression}
    (h : Represents globals trees before stack) {l : Leaf} (hv : l.value? globals = some v) :
    Represents globals (.leaf l :: trees) (before ++ [l.instruction]) (v :: stack) where
  flatten_eq := by
    rw [List.reverse_cons, List.flatMap_append, h.flatten_eq]
    rfl
  values_eq := by
    rw [List.map_cons, List.map_cons, h.values_eq, Tree.value?, hv]

/-- An operator joins the last two trees. -/
theorem Represents.node {left right : Tree} {trees : List Tree} {before : Expression} {a b : Value}
    (h : Represents globals (right :: left :: trees) before (b :: a :: stack)) {type : IntegerType}
    {op : Arithmetic} (hcombine : combine? op type a b = some v) :
    Represents globals (.node type op left right :: trees)
      (before ++ [.numeric (operator type op)]) (v :: stack) where
  flatten_eq := by
    rw [← h.flatten_eq]
    simp [Tree.flatten]
  values_eq := by
    have hvalues := h.values_eq
    simp only [List.map_cons, List.cons.injEq] at hvalues ⊢
    exact ⟨value?_node_eq_some_iff.mpr ⟨a, b, hvalues.2.1, hvalues.1, hcombine⟩, hvalues.2.2⟩

theorem Represents.of_step {trees : List Tree} {before : Expression}
    (h : Represents globals trees before stack) {i : Instruction} {after : List Value}
    (hstep : step globals stack i = .ok after) :
    ∃ trees', Represents globals trees' (before ++ [i]) after := by
  obtain ⟨l, v, rfl, hv, rfl⟩ | ⟨type, op, a, b, rest, v, rfl, rfl, hcombine, rfl⟩ :=
    step_eq_ok_iff.mp hstep
  · exact ⟨_, h.leaf hv⟩
  · match trees, h with
    | [], h => exact absurd h.values_eq (by simp)
    | [_], h => exact absurd h.values_eq (by simp)
    | right :: left :: trees, h => exact ⟨_, h.node hcombine⟩

theorem Represents.of_run {trees : List Tree} {before : Expression}
    (h : Represents globals trees before stack) {e : Expression} {after : List Value}
    (hrun : run globals stack e = .ok after) :
    ∃ trees', Represents globals trees' (before ++ e) after := by
  induction e generalizing trees before stack with
  | nil =>
    cases hrun
    rw [List.append_nil]
    exact ⟨trees, h⟩
  | cons i rest ih =>
    obtain ⟨next, hstep, hrest⟩ := run_cons.mp hrun
    obtain ⟨trees', h'⟩ := h.of_step hstep
    rw [← List.singleton_append, ← List.append_assoc]
    exact ih h' hrest

/-- An expression has the value of the tree that it flattens, and none if it flattens no tree. -/
theorem evaluate_eq_ok_iff {e : Expression} :
    evaluate e globals = .ok v ↔ ∃ t, Tree.flatten t = e ∧ t.value? globals = some v := by
  constructor
  · intro h
    unfold evaluate at h
    split at h
    · next w hrun =>
      cases h
      obtain ⟨trees, hflatten, hvalues⟩ := (Represents.nil globals).of_run hrun
      obtain ⟨t, rfl, hv⟩ := List.map_eq_singleton_iff.mp hvalues
      rw [List.reverse_singleton, List.flatMap_singleton, List.nil_append] at hflatten
      exact ⟨t, hflatten, hv⟩
    · cases h
    · cases h
  · rintro ⟨t, rfl, hv⟩
    have hrun := run_flatten_append hv [] []
    rw [List.append_nil, run] at hrun
    simp only [evaluate, hrun]

/-- The expressions with a value are the well-typed trees, written with every operator behind its
operands. Each is the written form of one tree only, whose type and value are its own; every other
expression is an error. -/
theorem evaluate_exact (e : Expression) (globals : List Value) :
    (∀ v, evaluate e globals = .ok v ↔
      ∃ t, Tree.flatten t = e ∧ t.HasType globals v.type ∧ t.value? globals = some v) ∧
    ((∃ error, evaluate e globals = .error error) ↔
      ¬∃ t type, Tree.flatten t = e ∧ t.HasType globals type) ∧
    ∀ t t', Tree.flatten t = e → Tree.flatten t' = e → t = t' := by
  refine ⟨fun v => ?_, ?_, fun t t' ht ht' => Tree.flatten_injective (ht.trans ht'.symm)⟩
  · rw [evaluate_eq_ok_iff]
    constructor
    · rintro ⟨t, ht, hv⟩
      exact ⟨t, ht, Tree.hasType_iff.mpr ⟨v, hv, rfl⟩, hv⟩
    · rintro ⟨t, ht, -, hv⟩
      exact ⟨t, ht, hv⟩
  · constructor
    · rintro ⟨error, herror⟩ ⟨t, type, ht, htype⟩
      obtain ⟨v, hv, -⟩ := Tree.hasType_iff.mp htype
      rw [evaluate_eq_ok_iff.mpr ⟨t, ht, hv⟩] at herror
      cases herror
    · intro hnone
      cases hvalue : evaluate e globals with
      | error error => exact ⟨error, rfl⟩
      | ok v =>
        obtain ⟨t, ht, hv⟩ := evaluate_eq_ok_iff.mp hvalue
        exact absurd ⟨t, v.type, ht, Tree.hasType_iff.mpr ⟨v, hv, rfl⟩⟩ hnone

/-- The difference leaves the range of its type, and comes back into it at the other end. -/
theorem evaluate_exact_difference :
    evaluate [.i32Const 7, .i32Const (-2147483648), .numeric .i32Sub] [] =
        .ok (.i32 (-2147483641)) ∧
      ∀ t, Tree.flatten t = [.i32Const 7, .i32Const (-2147483648), .numeric .i32Sub] →
        t = .node .i32 .sub (.leaf (.i32 7)) (.leaf (.i32 (-2147483648))) := by
  obtain ⟨hvalue, -, hunique⟩ :=
    evaluate_exact [.i32Const 7, .i32Const (-2147483648), .numeric .i32Sub] []
  refine ⟨(hvalue _).mpr ⟨.node .i32 .sub (.leaf (.i32 7)) (.leaf (.i32 (-2147483648))), rfl, ?_, rfl⟩,
    fun t ht => hunique t _ ht rfl⟩
  exact .node (.i32 7) (.i32 (-2147483648))

end ConstantExpression
end WasmStream
