/-! Settings as data formats hold them. A record is a table by its keys or a list of its fields in
order; a field that is left out has its default, and a key that the record does not have is
refused. -/
namespace WasmStream

inductive Setting where
  | integer (value : Int)
  | text (value : String)
  | null
  | list (items : List Setting)
  | table (fields : List (String × Setting))
  /-- A value of a kind that no record has, such as a truth value or a fraction. -/
  | other
  deriving Repr, Inhabited

namespace Setting

def u32? : Setting → Option UInt32
  | integer n => if 0 ≤ n ∧ n.toNat < UInt32.size then some (UInt32.ofNat n.toNat) else none
  | _ => none

def text? : Setting → Option String
  | text value => some value
  | _ => none

def ofU32 (n : UInt32) : Setting := integer n.toNat

/-- Read a value that may be null. -/
def orNull? {α : Type} (read : Setting → Option α) : Setting → Option (Option α)
  | null => some none
  | s => (read s).map some

/-- The fields of a record with these keys. -/
def fields? (keys : List String) : Setting → Option (List (String × Setting))
  | table fields => if fields.all fun f => keys.contains f.1 then some fields else none
  | list items => if items.length ≤ keys.length then some (keys.zip items) else none
  | _ => none

/-- Read one of the fields. -/
def fieldOr {α : Type} (fields : List (String × Setting)) (key : String)
    (read : Setting → Option α) (default : α) : Option α :=
  match fields.lookup key with
  | some s => read s
  | none => some default

/-- A list cut to `n` items. -/
def take (n : Nat) : Setting → Setting
  | list items => list (items.take n)
  | s => s

@[simp] theorem u32?_ofU32 (n : UInt32) : u32? (ofU32 n) = some n := by
  have h := n.toNat_lt
  simp [u32?, ofU32]
  omega

end Setting

end WasmStream
