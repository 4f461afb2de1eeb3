import Mathlib.Data.String.Basic
import Mathlib.Tactic.Tauto
import WasmStream.Proofs.ExportResolution
import WasmStream.Proofs.TextExchange

/-! The bindings of a module and the handles that they give out. A handle is given out for the types of
a signature and for no others, so that a call takes numbers of these types to the function, and brings
nothing back but a number of the type that the function has declared. -/
namespace WasmStream

/-! ## Numbers and their bits -/

/-- The bits of a number; of an integer, those of its two's complement. A reference has none. -/
def Value.bits? : Value → Option Nat
  | .i32 v => some v.toUInt32.toNat
  | .i64 v => some v.toUInt64.toNat
  | .f32 bits => some bits.toNat
  | .f64 bits => some bits.toNat
  | .funcRef _ | .externRef _ => none

namespace HostType
variable {t : HostType} {a : t.Carrier} {v : Value}

@[simp] theorem bits?_toValue (t : HostType) (a : t.Carrier) :
    (t.toValue a).bits? = some (t.toBits a) := by
  cases t <;> rfl

theorem toBits_injective {b : t.Carrier} (h : t.toBits a = t.toBits b) : a = b := by
  rw [← t.ofBits_toBits a, h, t.ofBits_toBits]

/-- A value of the type is one of its numbers. -/
theorem exists_eq_toValue (h : v.type = t.type) : ∃ a, v = t.toValue a := by
  cases t <;> cases v <;> cases h <;> exact ⟨_, rfl⟩

theorem ofValue_eq_ok_iff : t.ofValue v = .ok a ↔ v.type = t.type ∧ v.bits? = some (t.toBits a) := by
  constructor
  · intro h
    have hv : v = t.toValue a := by
      cases t <;> cases v <;> cases h <;> rfl
    subst hv
    exact ⟨t.type_toValue a, t.bits?_toValue a⟩
  · rintro ⟨htype, hbits⟩
    obtain ⟨b, rfl⟩ := exists_eq_toValue htype
    rw [bits?_toValue, Option.some.injEq] at hbits
    rw [toBits_injective hbits, ofValue_toValue]

theorem code_of_ofValue {error : Error} (h : t.ofValue v = .error error) :
    error.code = Code.typeMismatch := by
  cases t <;> cases v <;> cases h <;> rfl

end HostType

/-- The bits of the arguments. -/
def Arguments.bits : (params : List HostType) → Arguments params → List Nat
  | [], () => []
  | t :: rest, (a, more) => t.toBits a :: bits rest more

theorem Arguments.bits?_toValues (params : List HostType) (a : Arguments params) :
    (toValues params a).map Value.bits? = (bits params a).map some := by
  induction params with
  | nil => rfl
  | cons t rest ih => simp [toValues, bits, ih a.2]

namespace HostResult
variable {result : Option HostType} {values : List Value}

/-- The bits of what a host takes. -/
def bits : (result : Option HostType) → HostResult result → List Nat
  | none, () => []
  | some t, a => [t.toBits a]

/-- A host takes an answer of its types, and takes it with the bits that it has. -/
theorem ofValues_eq_ok_iff {r : HostResult result} : ofValues result values = .ok r ↔
    values.map Value.type = types result ∧ values.map Value.bits? = (bits result r).map some := by
  cases result with
  | none =>
    cases values with
    | nil => simp [ofValues, types, bits]
    | cons v rest => simp [ofValues, types]
  | some t =>
    rcases values with - | ⟨v, - | ⟨w, rest⟩⟩
    · simp [ofValues, types]
    · simp [ofValues, types, bits, HostType.ofValue_eq_ok_iff]
    · simp [ofValues, types]

theorem exists_ofValues (h : values.map Value.type = types result) :
    ∃ r, ofValues result values = .ok r := by
  cases result with
  | none =>
    obtain rfl : values = [] := by simpa [types] using h
    exact ⟨(), rfl⟩
  | some t =>
    obtain ⟨v, rfl, htype⟩ : ∃ v, values = [v] ∧ v.type = t.type := by
      simpa [types, List.map_eq_singleton_iff] using h
    obtain ⟨a, rfl⟩ := HostType.exists_eq_toValue htype
    exact ⟨a, t.ofValue_toValue a⟩

theorem code_of_ofValues {error : Error} (h : ofValues result values = .error error) :
    error.code = Code.typeMismatch := by
  cases result with
  | none =>
    cases values with
    | nil => cases h
    | cons v rest =>
      cases h
      rfl
  | some t =>
    rcases values with - | ⟨v, - | ⟨w, rest⟩⟩
    · cases h
      rfl
    · exact HostType.code_of_ofValue h
    · cases h
      rfl

end HostResult

/-! ## Bindings -/

namespace ExportBindings
variable {m : Module} {b : ExportBindings} {name other : String} {f : ExportedFunction}
variable {functions result : List (String × ExportedFunction)} {exports : List Export}

variable {params : List HostType} {taken : Option HostType}

/-- The signature of the functions that are called with these types. -/
def hostSignature (params : List HostType) (taken : Option HostType) : FuncType :=
  ⟨params.map HostType.type, HostResult.types taken⟩

end ExportBindings

namespace TypedFunction
variable {params : List HostType} {taken : Option HostType}

/-- A handle hands the arguments to the function as they are, and takes back what the function has
declared and nothing else, whatever runs the function. -/
structure Passes (handle : TypedFunction params taken) (f : ExportedFunction) : Prop where
  argument_types : ∀ a, (Arguments.toValues params a).map Value.type = f.signature.params
  argument_bits : ∀ a, (Arguments.toValues params a).map Value.bits? =
    (Arguments.bits params a).map some
  failed : ∀ {σ : Type} (x : Executor σ) a s error next,
    x.call f.index (Arguments.toValues params a) s = (.error error, next) →
    handle.call x a s = (.error error, next)
  answered : ∀ {σ : Type} (x : Executor σ) a s answer next,
    x.call f.index (Arguments.toValues params a) s = (.ok answer, next) →
    ∃ outcome, handle.call x a s = (outcome, next) ∧
      ((∃ r, outcome = .ok r) ↔ answer.map Value.type = f.signature.results) ∧
      (∀ r, outcome = .ok r → answer.map Value.bits? = (HostResult.bits taken r).map some) ∧
      ∀ error, outcome = .error error → error.code = Code.typeMismatch

theorem passes {f : ExportedFunction} {name : String}
    (hsame : f.signature = ExportBindings.hostSignature params taken) :
    Passes (⟨name, f.index⟩ : TypedFunction params taken) f where
  argument_types a := by
    rw [hsame]
    exact Arguments.types_toValues params a
  argument_bits := Arguments.bits?_toValues params
  failed x a s error next h := by rw [call, h]
  answered x a s answer next h := by
    refine ⟨(HostResult.ofValues taken answer).mapError (.inContext name), by rw [call, h], ?_, ?_, ?_⟩
    · rw [hsame]
      simp only [mapError_eq_ok_iff]
      constructor
      · rintro ⟨r, hr⟩
        exact (HostResult.ofValues_eq_ok_iff.mp hr).1
      · exact HostResult.exists_ofValues
    · intro r hr
      exact (HostResult.ofValues_eq_ok_iff.mp (mapError_eq_ok_iff.mp hr)).2
    · intro error herror
      obtain ⟨cause, hcause, rfl⟩ := mapError_eq_error_iff.mp herror
      rw [Error.code_inContext]
      exact HostResult.code_of_ofValues hcause

end TypedFunction

namespace ExportBindings
variable {m : Module} {b : ExportBindings} {name : String}

/-- The bindings of a module have its function exports, and their handles are typed. -/
structure Sound (b : ExportBindings) (m : Module) : Prop where
  /-- The names are in the order of their bytes, and none of them is repeated. -/
  names_increase : b.names.Pairwise fun a b => Utf8.encode a.toList < Utf8.encode b.toList
  mem_names : ∀ name, name ∈ b.names ↔ ∃ e ∈ m.exports, e.kind = .function ∧ e.name = name
  bound : ∀ name f, b.find? name = some f ↔
    ∃ last, (functionExports m.exports name).getLast? = some last ∧ f.index = last.index ∧
      m.combinedFunctionType? last.index = some f.signature
  typed_iff : ∀ params taken name handle, b.typed params taken name = .ok handle ↔
    ∃ f, b.find? name = some f ∧ f.signature = hostSignature params taken ∧ handle = ⟨name, f.index⟩
  missing : ∀ params taken name, b.find? name = none →
    ∃ error, b.typed params taken name = .error error ∧ error.code = Code.exportNotFound
  arity : ∀ params taken name f, b.find? name = some f → 1 < f.signature.results.length →
    ∃ error, b.typed params taken name = .error error ∧ error.code = Code.unsupportedArity
  mismatch : ∀ params taken name f, b.find? name = some f → f.signature.results.length ≤ 1 →
    f.signature ≠ hostSignature params taken →
    ∃ error, b.typed params taken name = .error error ∧ error.code = Code.typeMismatch
  passes : ∀ params taken name (handle : TypedFunction params taken) f,
    b.typed params taken name = .ok handle → b.find? name = some f → handle.Passes f

end ExportBindings
end WasmStream
