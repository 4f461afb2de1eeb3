/-! The shortest decimal of a binary number: on the coarsest decimal grid that has a point among the
reals that round to the number, the point nearest to it. -/
namespace WasmStream
namespace Decimal

/-- The positive number `mid / den` and the reals that round to it, from `low / den` to
`high / den`; the two ends round to it only if the interval is closed. -/
structure Interval where
  low : Nat
  mid : Nat
  high : Nat
  den : Nat
  closed : Bool
  deriving DecidableEq, Repr

/-- A decimal number: `coefficient * 10 ^ exponent`. -/
structure Scaled where
  coefficient : Nat
  exponent : Int
  deriving DecidableEq, Repr

namespace Interval

/-- Whether `n / d` rounds to the number. -/
def contains (i : Interval) (n d : Nat) : Bool :=
  if i.closed then i.low * d ≤ n * i.den && n * i.den ≤ i.high * d
  else i.low * d < n * i.den && n * i.den < i.high * d

/-- The number as `n / d` in units of `10 ^ exponent`. -/
def inUnits (i : Interval) (exponent : Int) : Nat × Nat :=
  (i.mid * Nat.pow 10 (-exponent).toNat, i.den * Nat.pow 10 exponent.toNat)

/-- The point of the grid `10 ^ exponent` that rounds to the number. Of two such points it is the
nearer one, and the greater one if both are equally near. -/
def onGrid? (i : Interval) (exponent : Int) : Option Nat :=
  let (n, d) := i.inUnits exponent
  let below := n / d
  let rounds (c : Nat) : Bool :=
    i.contains (c * Nat.pow 10 exponent.toNat) (Nat.pow 10 (-exponent).toNat)
  let up := rounds (below + 1)
  if rounds below then
    if up && d ≤ 2 * (n % d) then some (below + 1) else some below
  else if up then some (below + 1) else none

/-- Try `steps` grids, from `10 ^ exponent` down. -/
def search (i : Interval) : (steps : Nat) → (exponent : Int) → Option Scaled
  | 0, _ => none
  | steps + 1, exponent =>
    match i.onGrid? exponent with
    | some c => some ⟨c, exponent⟩
    | none => i.search steps (exponent - 1)

/-- No point of a grid coarser than `high / den` rounds to the number, and on a grid of width
`1 / den` some point does. -/
def shortest (i : Interval) : Scaled :=
  let top := Nat.log2 (i.high / i.den) + 1
  (i.search (top + Nat.log2 i.den + 2) top).getD ⟨0, 0⟩

end Interval

/-- The number without an exponent, filled up with zeros. -/
def Scaled.positional (s : Scaled) : String :=
  let digits := Nat.toDigits 10 s.coefficient
  if 0 ≤ s.exponent then String.ofList (digits ++ List.replicate s.exponent.toNat '0')
  else
    let places := (-s.exponent).toNat
    let padded := List.replicate (places + 1 - digits.length) '0' ++ digits
    let whole := padded.length - places
    String.ofList (padded.take whole ++ '.' :: padded.drop whole)

end Decimal
end WasmStream
