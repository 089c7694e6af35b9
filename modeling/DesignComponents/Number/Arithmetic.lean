import DesignComponents.Number.Binary

/-!
# Arithmetic on binary floating numbers

Products and quotients are the exact ones, rounded once. Rounding to an integer sends a half
away from zero.
-/

namespace DesignComponents

attribute [local instance (high)] instPowNat

namespace Binary

variable {f : BinaryFormat}

def mul : Binary f → Binary f → Binary f
  | nan, _ => nan
  | _, nan => nan
  | infinite a, infinite b => infinite (a != b)
  | infinite a, finite b n _ _ => if n = 0 then nan else infinite (a != b)
  | finite a m _ _, infinite b => if m = 0 then nan else infinite (a != b)
  | finite a m d _, finite b n e _ =>
    nearest f (a != b) (m * n * 2 ^ (d + e).toNat) (2 ^ (-(d + e)).toNat)

instance : Mul (Binary f) := ⟨mul⟩

def div : Binary f → Binary f → Binary f
  | nan, _ => nan
  | _, nan => nan
  | infinite _, infinite _ => nan
  | infinite a, finite b .. => infinite (a != b)
  | finite a .., infinite b => zero f (a != b)
  | finite a m d _, finite b n e _ =>
    if n = 0 then if m = 0 then nan else infinite (a != b)
    else nearest f (a != b) (m * 2 ^ (d - e).toNat) (n * 2 ^ (e - d).toNat)

instance : Div (Binary f) := ⟨div⟩

/-- The nearest integer, a half going away from zero; the sign stays, also on zero. -/
def round : Binary f → Binary f
  | finite s m e h =>
    if 0 ≤ e then finite s m e h
    else
      let whole := 2 ^ (-e).toNat
      nearest f s ((2 * m + whole) / (2 * whole)) 1
  | x => x

def toInt? : Binary f → Option Int
  | finite s m e _ =>
    let whole := 2 ^ (-e).toNat
    if m % whole = 0 then
      let n : Int := m / whole * 2 ^ e.toNat
      some (if s then -n else n)
    else none
  | _ => none

/-- The integer held within `0 … 255`; what is not a number counts as zero. -/
def clampToByte (x : Binary f) : UInt8 :=
  match x with
  | nan => 0
  | infinite s => if s then 0 else 255
  | finite s m e _ =>
    if s then 0 else UInt8.ofNat (min 255 (m * 2 ^ e.toNat / 2 ^ (-e).toNat))

end Binary

/-- Adds to `root` every one of the binary digits below `bits` that keeps its square within
`n`. -/
def squareRootFrom (n : Nat) : (bits : Nat) → (root : Nat) → Nat
  | 0, root => root
  | bits + 1, root =>
    let next := root + 2 ^ bits
    squareRootFrom n bits (if next * next ≤ n then next else root)

def squareRoot (n : Nat) : Nat :=
  squareRootFrom n (n.log2 / 2 + 1) 0

/-- The number nearest to the square root of `n`. The root is taken with 64 binary places; a last
odd digit stands for the places cut off, so that they count in the rounding. -/
def Binary.sqrtOfNat (f : BinaryFormat) (n : Nat) : Binary f :=
  let scaled := n * 4 ^ (64 : Nat)
  let root := squareRoot scaled
  let cut := if root * root = scaled then 0 else 1
  Binary.nearest f false (2 * root + cut) (2 ^ (65 : Nat))

end DesignComponents
