import DesignComponents.Number.Binary

/-!
# Shortest decimals

A finite number stands for every decimal that reads back as it: the interval around it, up to
half a step each way, with its ends when the significand is even. The shortest decimal is the
multiple in that interval of the largest possible power of ten, and among several the one
nearest to the number.
-/

namespace DesignComponents

attribute [local instance (high)] instPowNat

structure Decimal where
  digits : Nat
  exponent : Int
  deriving DecidableEq, Repr

inductive HalfwayRule where
  | up
  | even
  deriving DecidableEq, Repr

/-- The magnitudes that read back as a number, over one denominator: from `low` to `high`
around `value`, with the ends or without. -/
structure ReadBack where
  low : Nat
  value : Nat
  high : Nat
  denominator : Nat
  closed : Bool
  deriving DecidableEq, Repr

namespace ReadBack

/-- The interval of `m * 2 ^ e`, in quarters of a step. Below a significand that is a power of
two the neighbours are half as far away. -/
def ofStored (f : BinaryFormat) (m : Nat) (e : Int) : ReadBack :=
  let below := if m = 2 ^ (f.digits - 1) ∧ e ≠ f.leastStep then 1 else 2
  let factor := 2 ^ (e - 2).toNat
  { low := (4 * m - below) * factor
    value := 4 * m * factor
    high := (4 * m + 2) * factor
    denominator := 2 ^ (2 - e).toNat
    closed := m % 2 == 0 }

def covers (r : ReadBack) (n : Nat) (k : Int) : Bool :=
  let x := n * 10 ^ k.toNat * r.denominator
  let unit := 10 ^ (-k).toNat
  let low := r.low * unit
  let high := r.high * unit
  if r.closed then low ≤ x && x ≤ high else low < x && x < high

/-- The multiple of `10 ^ k` in the interval that is nearest to the number, if there is one. -/
def multiple? (r : ReadBack) (rule : HalfwayRule) (k : Int) : Option Nat :=
  let num := r.value * 10 ^ (-k).toNat
  let den := r.denominator * 10 ^ k.toNat
  let n := num / den
  let rest := 2 * (num % den)
  let takesUpper := den < rest || (rest == den && (rule == .up || n % 2 == 1))
  let (first, second) := if takesUpper then (n + 1, n) else (n, n + 1)
  if r.covers first k then some first
  else if r.covers second k then some second
  else none

/-- The first of the exponents `k, k - 1, …` with a multiple in the interval. -/
def search (r : ReadBack) (rule : HalfwayRule) : (steps : Nat) → (k : Int) → Option Decimal
  | 0, _ => none
  | steps + 1, k =>
    match r.multiple? rule k with
    | some n => some ⟨n, k⟩
    | none => search r rule steps (k - 1)

def powerAbove (t : Int) : Int :=
  if 0 ≤ t then t * 302 / 1000 + 1 else -(-t * 301 / 1000)

end ReadBack

/-- The shortest decimal that reads back as `m * 2 ^ e`. The search ends at the latest at the
number's own last decimal place. -/
def shortestDecimal (f : BinaryFormat) (rule : HalfwayRule) (m : Nat) (e : Int) : Decimal :=
  if m = 0 then ⟨0, 0⟩
  else
    let top := ReadBack.powerAbove (m.log2 + 2 + e)
    let last := min 0 e
    match (ReadBack.ofStored f m e).search rule ((top - last).toNat + 1) top with
    | some d => d
    | none => ⟨m * 2 ^ e.toNat * 5 ^ (-e).toNat, last⟩

end DesignComponents
