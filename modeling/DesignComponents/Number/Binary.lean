/-!
# Binary floating numbers

A measure of a design is a binary floating number: an integer of limited size times a power of
two, an infinity, or no number at all. Every finite number is stored in the one way its format
allows, so equal numbers of equal sign are equal terms. The module holds the type, the rounding
of a ratio to the nearest number, and the exact order; it supplies no decimal text.
-/

namespace DesignComponents

-- Powers are the core library's, also where an algebraic instance is in scope.
attribute [local instance (high)] instPowNat

/-- A binary floating format: how many binary digits a number keeps, and the exponents of the
smallest and the largest step between neighbours. -/
structure BinaryFormat where
  digits : Nat
  leastStep : Int
  greatestStep : Int
  deriving DecidableEq, Repr

namespace BinaryFormat

def double : BinaryFormat := ⟨53, -1074, 971⟩

def single : BinaryFormat := ⟨24, -149, 104⟩

/-- The pair `m`, `e` is the stored form of `m * 2 ^ e`: the digits fit, and a smaller step
would not do unless there is none. -/
def Canonical (f : BinaryFormat) (m : Nat) (e : Int) : Prop :=
  m < 2 ^ f.digits ∧ f.leastStep ≤ e ∧ e ≤ f.greatestStep ∧
    (2 ^ (f.digits - 1) ≤ m ∨ e = f.leastStep)

instance (f : BinaryFormat) (m : Nat) (e : Int) : Decidable (f.Canonical m e) := by
  unfold Canonical; infer_instance

end BinaryFormat

inductive Binary (f : BinaryFormat) where
  | nan
  | infinite (negative : Bool)
  | finite (negative : Bool) (significand : Nat) (step : Int)
      (canonical : f.Canonical significand step)
  deriving DecidableEq

abbrev Double := Binary .double

abbrev Single := Binary .single

/-- The integer nearest to `num / den`; of two, the even one. -/
def roundHalfEven (num den : Nat) : Nat :=
  let q := num / den
  let r := num % den
  if 2 * r < den then q else if den < 2 * r then q + 1 else q + q % 2

/-- Numerator and denominator of `num / den / 2 ^ e`. -/
def perStep (num den : Nat) (e : Int) : Nat × Nat :=
  (num * 2 ^ (-e).toNat, den * 2 ^ e.toNat)

namespace Binary

variable {f : BinaryFormat}

/-- `m * 2 ^ e` where the format holds it in this form, and an infinity where it does not. -/
def ofStored (f : BinaryFormat) (negative : Bool) (m : Nat) (e : Int) : Binary f :=
  if h : f.Canonical m e then finite negative m e h else infinite negative

/-- The exponent of the step between the numbers around `num / den`. -/
def stepOf (f : BinaryFormat) (num den : Nat) : Int :=
  let guess := max f.leastStep ((num.log2 : Int) - den.log2 - f.digits)
  let (n, d) := perStep num den guess
  if n / d < 2 ^ f.digits then guess else guess + 1

/-- The number nearest to `num / den`; of two, the one with an even significand. A ratio beyond
the largest number gives an infinity. -/
def nearest (f : BinaryFormat) (negative : Bool) (num den : Nat) : Binary f :=
  if num = 0 then ofStored f negative 0 f.leastStep
  else
    let e := stepOf f num den
    let (n, d) := perStep num den e
    let m := roundHalfEven n d
    if m = 2 ^ f.digits then ofStored f negative (2 ^ (f.digits - 1)) (e + 1)
    else ofStored f negative m e

def zero (f : BinaryFormat) (negative : Bool) : Binary f :=
  nearest f negative 0 1

def ofNat (f : BinaryFormat) (n : Nat) : Binary f :=
  nearest f false n 1

def ofInt (f : BinaryFormat) (i : Int) : Binary f :=
  nearest f (i < 0) i.natAbs 1

instance : Inhabited (Binary f) := ⟨nan⟩

instance (n : Nat) : OfNat (Binary f) n := ⟨ofNat f n⟩

/-- Decimal digits of magnitudes that no format in use can tell from infinity or from zero. -/
def farDigits : Int := 400

def ofDecimal (f : BinaryFormat) (negative : Bool) (n : Nat) (e : Int) : Binary f :=
  let size : Int := (Nat.toDigits 10 n).length + e
  if n = 0 ∨ size < -farDigits then zero f negative
  else if farDigits < size then infinite negative
  else nearest f negative (n * 10 ^ e.toNat) (10 ^ (-e).toNat)

def isNaN : Binary f → Bool
  | nan => true
  | _ => false

def isZero : Binary f → Bool
  | finite _ 0 _ _ => true
  | _ => false

def isInfinite : Binary f → Bool
  | infinite _ => true
  | _ => false

def neg : Binary f → Binary f
  | nan => nan
  | infinite s => infinite !s
  | finite s m e h => finite (!s) m e h

instance : Neg (Binary f) := ⟨neg⟩

def abs : Binary f → Binary f
  | nan => nan
  | infinite _ => infinite false
  | finite _ m e h => finite false m e h

/-- A finite number counted in steps of the format's smallest size. -/
def units (f : BinaryFormat) (negative : Bool) (m : Nat) (e : Int) : Int :=
  let n : Int := m * 2 ^ (e - f.leastStep).toNat
  if negative then -n else n

/-- The order of the two numbers; none where one is not a number. Zeros of both signs are
equal. -/
def compare? : Binary f → Binary f → Option Ordering
  | nan, _ => none
  | _, nan => none
  | infinite a, infinite b => some (compare (!a).toNat (!b).toNat)
  | infinite a, finite .. => some (if a then .lt else .gt)
  | finite .., infinite b => some (if b then .gt else .lt)
  | finite a m d _, finite b n e _ => some (compare (units f a m d) (units f b n e))

def lt (x y : Binary f) : Bool := compare? x y == some .lt

def le (x y : Binary f) : Bool := compare? x y == some .lt || compare? x y == some .eq

/-- Equal as numbers: a thing that is no number differs from itself, and zeros agree. -/
def same (x y : Binary f) : Bool := compare? x y == some .eq

/-- The larger of the two, passing over what is not a number. -/
def larger (x y : Binary f) : Binary f :=
  if x.isNaN then y else if y.isNaN then x else if x.lt y then y else x

def convert (g : BinaryFormat) : Binary f → Binary g
  | nan => nan
  | infinite s => infinite s
  | finite s m e _ => nearest g s (m * 2 ^ e.toNat) (2 ^ (-e).toNat)

end Binary

end DesignComponents
