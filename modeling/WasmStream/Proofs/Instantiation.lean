import WasmStream.Instance
import WasmStream.Proofs.Memory.Accounting

/-! What instantiation comes to: which modules have an instance over some imported values, and what
its globals and the bytes of its memory are. -/
namespace WasmStream

namespace Memory

end Memory

namespace Instance
open ConstantExpression

/-! ## Globals -/

theorem checkTypes_eq_ok_iff (types : List ValueType) (values : List Value)
    (h : types.length = values.length) :
    checkTypes types values = .ok () ↔ values.map Value.type = types := by
  induction types generalizing values with
  | nil =>
    have hnil : values = [] := List.eq_nil_of_length_eq_zero h.symm
    simp [checkTypes, hnil]
  | cons t types ih =>
    cases values with
    | nil => simp at h
    | cons v values =>
      have hlength : types.length = values.length := by simpa using h
      by_cases htype : v.type = t
      · simp [checkTypes, htype, ih values hlength]
      · simp [checkTypes, htype]

/-- The globals `globals` begin with `start`, and go on with a value for every definition: what its
initialiser gives over the globals before it, of the declared type. -/
structure Defines (start : List Value) (definitions : List Global) (globals : List Value) :
    Prop where
  length_eq : globals.length = start.length + definitions.length
  take_eq : globals.take start.length = start
  value : ∀ i (h : i < definitions.length), ∃ v, globals[start.length + i]? = some v ∧
    evaluate definitions[i].init (globals.take (start.length + i)) = .ok v ∧
    v.type = definitions[i].type.type

variable {start globals : List Value} {g : Global} {definitions : List Global} {v : Value}

theorem defines_nil : Defines start [] globals ↔ globals = start := by
  constructor
  · intro h
    have hlength : globals.length = start.length := h.length_eq
    rw [← h.take_eq, ← hlength, List.take_length]
  · rintro rfl
    exact ⟨rfl, List.take_length, fun i h => absurd h (Nat.not_lt_zero i)⟩

theorem Defines.head (h : Defines start (g :: definitions) globals) :
    ∃ v, evaluate g.init start = .ok v ∧ v.type = g.type.type ∧
      Defines (start ++ [v]) definitions globals := by
  obtain ⟨v, hv, hvalue, htype⟩ := h.value 0 (Nat.zero_lt_succ _)
  rw [Nat.add_zero, h.take_eq] at hvalue
  refine ⟨v, hvalue, htype, ?_, ?_, fun i hi => ?_⟩
  · rw [h.length_eq]
    simp only [List.length_cons, List.length_append, List.length_nil]
    omega
  · rw [List.length_append, List.length_singleton, List.take_add_one, h.take_eq]
    rw [Nat.add_zero] at hv
    rw [hv]
    rfl
  · have hnext := h.value (i + 1) (by simpa using hi)
    simpa [Nat.add_assoc, Nat.add_comm 1 i] using hnext

theorem Defines.cons (hvalue : evaluate g.init start = .ok v) (htype : v.type = g.type.type)
    (h : Defines (start ++ [v]) definitions globals) :
    Defines start (g :: definitions) globals := by
  have hlength := h.length_eq
  have htake := h.take_eq
  rw [List.length_append, List.length_singleton] at hlength htake
  have hstart : globals.take start.length = start := by
    have := congrArg (List.take start.length) htake
    simpa [List.take_take] using this
  have hv : globals[start.length]? = some v := by
    have := congrArg (·[start.length]?) htake
    simpa [List.getElem?_take] using this
  refine ⟨?_, hstart, fun i hi => ?_⟩
  · simp only [List.length_cons]
    omega
  · cases i with
    | zero => exact ⟨v, hv, by rwa [Nat.add_zero, hstart], htype⟩
    | succ i =>
      have hnext := h.value i (by simpa using hi)
      simpa [Nat.add_assoc, Nat.add_comm 1 i] using hnext

/-- The definitions are evaluated in order, each over what came before. -/
theorem defineGlobals_eq_ok_iff (start : List Value) (definitions : List Global)
    (globals : List Value) :
    defineGlobals start definitions = .ok globals ↔ Defines start definitions globals := by
  induction definitions generalizing start with
  | nil =>
    rw [defines_nil, defineGlobals]
    simp [eq_comm]
  | cons g rest ih =>
    have hhead (h : Defines start (g :: rest) globals) := h.head
    cases hvalue : evaluate g.init start with
    | error error =>
      simp only [defineGlobals, hvalue, reduceCtorEq, false_iff]
      intro h
      obtain ⟨v, hv, -⟩ := h.head
      rw [hvalue] at hv
      contradiction
    | ok v =>
      by_cases htype : v.type = g.type.type
      · simp only [defineGlobals, hvalue, htype, if_true, ih]
        constructor
        · exact Defines.cons hvalue htype
        · intro h
          obtain ⟨w, hw, -, hrest⟩ := h.head
          rw [hvalue] at hw
          cases hw
          exact hrest
      · simp only [defineGlobals, hvalue, htype, if_false, reduceCtorEq, false_iff]
        intro h
        obtain ⟨w, hw, hwtype, -⟩ := h.head
        rw [hvalue] at hw
        cases hw
        exact htype hwtype

/-- The values of an instance's globals: the imported ones, as the imports declare them, then those
that the module defines. -/
structure GlobalsOf (m : Module) (imported globals : List Value) : Prop where
  types_eq : imported.map Value.type = importedGlobals m
  defines : Defines imported m.globals globals

theorem evaluateGlobals_eq_ok_iff (m : Module) (imported globals : List Value) :
    evaluateGlobals m imported = .ok globals ↔ GlobalsOf m imported globals := by
  by_cases hlength : (importedGlobals m).length = imported.length
  · have hcheck := checkTypes_eq_ok_iff (importedGlobals m) imported hlength
    cases htypes : checkTypes (importedGlobals m) imported with
    | error error =>
      rw [htypes] at hcheck
      simp [evaluateGlobals, hlength, htypes, bind, Except.bind]
      intro h
      exact absurd (hcheck.mpr h.types_eq) (by simp)
    | ok valid =>
      have heq : evaluateGlobals m imported = defineGlobals imported m.globals := by
        simp [evaluateGlobals, hlength, htypes, bind, Except.bind]
      rw [heq, defineGlobals_eq_ok_iff]
      exact ⟨fun h => ⟨hcheck.mp htypes, h⟩, GlobalsOf.defines⟩
  · have hne : ¬GlobalsOf m imported globals := by
      intro h
      exact hlength (by rw [← h.types_eq, List.length_map])
    simp [evaluateGlobals, hlength, hne, bind, Except.bind, throw, throwThe,
      MonadExceptOf.throw]

/-! ## Data segments -/

/-- The byte that a segment puts at an address, if it puts one there. -/
def segmentByte? (globals : List Value) (a : Nat) (s : DataSegment) : Option UInt8 :=
  if s.passive then none
  else match evaluate s.offset globals with
    | .ok (.i32 o) => if o.toUInt32.toNat ≤ a then s.bytes[a - o.toUInt32.toNat]? else none
    | _ => none

/-- The byte at an address once the segments are there: that of the last one that covers it. -/
def imageByte? (globals : List Value) (data : List DataSegment) (a : Nat) : Option UInt8 :=
  data.reverse.findSome? (segmentByte? globals a)

/-- The memory `after` is `m` with the segments written over it. -/
structure Image (globals : List Value) (m : Memory) (data : List DataSegment) (after : Memory) :
    Prop where
  pages_eq : after.pages = m.pages
  maximum_eq : after.maximum = m.maximum
  size_eq : after.size = m.size
  byteAt_eq : ∀ a, after.byteAt a = (imageByte? globals data a).getD (m.byteAt a)

variable {m after : Memory} {s : DataSegment} {data : List DataSegment}

@[simp] theorem imageByte?_nil (globals : List Value) (a : Nat) : imageByte? globals [] a = none :=
  rfl

theorem imageByte?_cons (globals : List Value) (s : DataSegment) (data : List DataSegment)
    (a : Nat) :
    imageByte? globals (s :: data) a =
      (imageByte? globals data a).or (segmentByte? globals a s) := by
  rw [imageByte?, List.reverse_cons, List.findSome?_append, ← imageByte?]
  cases h : segmentByte? globals a s <;> simp [h]

/-- The first segment may be written first. -/
theorem Image.cons {next : Memory} (hfirst : Image globals m [s] next) :
    Image globals next data after ↔ Image globals m (s :: data) after := by
  have hbyte (a : Nat) : next.byteAt a = (segmentByte? globals a s).getD (m.byteAt a) := by
    rw [hfirst.byteAt_eq, imageByte?_cons, imageByte?_nil, Option.none_or]
  constructor
  · intro h
    refine ⟨h.pages_eq.trans hfirst.pages_eq, h.maximum_eq.trans hfirst.maximum_eq,
      h.size_eq.trans hfirst.size_eq, fun a => ?_⟩
    rw [h.byteAt_eq, hbyte, imageByte?_cons, Option.getD_or]
  · intro h
    refine ⟨h.pages_eq.trans hfirst.pages_eq.symm, h.maximum_eq.trans hfirst.maximum_eq.symm,
      h.size_eq.trans hfirst.size_eq.symm, fun a => ?_⟩
    rw [h.byteAt_eq, hbyte, imageByte?_cons, Option.getD_or]

theorem bind_eq_ok_iff {α β : Type} {x : Except Error α} {f : α → Except Error β} {b : β} :
    (x >>= f) = .ok b ↔ ∃ a, x = .ok a ∧ f a = .ok b := by
  cases x with
  | error error => simp [bind, Except.bind]
  | ok a => simp [bind, Except.bind]

theorem map_eq_ok_iff {α β : Type} {x : Except Error α} {f : α → β} {b : β} :
    (f <$> x) = .ok b ↔ ∃ a, x = .ok a ∧ f a = b := by
  cases x with
  | error error => simp [Functor.map, Except.map]
  | ok a => simp [Functor.map, Except.map]

variable {host : Host} {config : RuntimeConfig}

/-- So many pages of zeros as the limits have at least, under the cap. -/
def zeros (config : RuntimeConfig) (limits : Limits) : Memory :=
  ⟨Memory.extend .empty (limits.min.toNat * pageSize), limits.min, config.pageCap limits.max⟩

/-- An instance comes from the three phases, one after the other. -/
theorem instantiateOn_eq_ok_iff_phases {host : Host} {module : Module} {imported : List Value}
    {config : RuntimeConfig} {i : Instance} :
    instantiateOn host module imported config = .ok i ↔
      ∃ fresh, freshMemory host module config = .ok fresh ∧
        evaluateGlobals module imported = .ok i.globals ∧
          copySegments i.globals fresh 0 module.data = .ok i.memory := by
  obtain ⟨memory, globals⟩ := i
  simp only [instantiateOn, bind_eq_ok_iff]
  constructor
  · rintro ⟨fresh, hfresh, globals, hglobals, memory, hcopy, hi⟩
    cases hi
    exact ⟨fresh, hfresh, hglobals, hcopy⟩
  · rintro ⟨fresh, hfresh, hglobals, hcopy⟩
    exact ⟨fresh, hfresh, _, hglobals, _, hcopy, rfl⟩

end Instance
end WasmStream
