/-! Integers from decimal text: digits behind an optional sign, with no other character. -/
namespace WasmStream

/-- The value of a digit of any base up to sixteen, in either case. -/
def digitValue? (c : Char) : Option Nat :=
  if '0' ≤ c ∧ c ≤ '9' then some (c.toNat - '0'.toNat)
  else if 'a' ≤ c ∧ c ≤ 'f' then some (c.toNat - 'a'.toNat + 10)
  else if 'A' ≤ c ∧ c ≤ 'F' then some (c.toNat - 'A'.toNat + 10)
  else none

/-- The number with the digits `cs` after those of `n`. -/
def digitsFrom? (base n : Nat) : (cs : List Char) → Option Nat
  | [] => some n
  | c :: rest =>
    match digitValue? c with
    | some d => if d < base then digitsFrom? base (n * base + d) rest else none
    | none => none

/-- The number with these digits; there has to be one. -/
def digits? (base : Nat) (cs : List Char) : Option Nat :=
  if cs.isEmpty then none else digitsFrom? base 0 cs

/-- Digits, perhaps behind a plus sign. -/
def natural? : List Char → Option Nat
  | '+' :: rest => digits? 10 rest
  | cs => digits? 10 cs

/-- Digits, perhaps behind a sign. -/
def integer? : List Char → Option Int
  | '-' :: rest => (digits? 10 rest).map fun n => -(n : Int)
  | cs => (natural? cs).map Int.ofNat

end WasmStream
