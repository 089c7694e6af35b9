import DesignComponents.Number.Shortest

/-!
# Written numbers

Two written forms of a binary floating number: the plain one, which never uses an exponent, and
the one of JSON text, which always shows a point or an exponent. Both have the digits of the
shortest decimal.
-/

namespace DesignComponents

namespace Decimal

/-- The digits without an exponent: zeros fill up to the units, and a point stands before the
places after them. -/
def positional (d : Decimal) : List Char :=
  let ds := Nat.toDigits 10 d.digits
  if 0 ≤ d.exponent then ds ++ List.replicate d.exponent.toNat '0'
  else
    let places := (-d.exponent).toNat
    if places < ds.length then
      ds.take (ds.length - places) ++ '.' :: ds.drop (ds.length - places)
    else '0' :: '.' :: List.replicate (places - ds.length) '0' ++ ds

def scientific (d : Decimal) : List Char :=
  let ds := Nat.toDigits 10 d.digits
  let power := d.exponent + ds.length - 1
  let mark := 'e' :: (toString power).toList
  match ds with
  | [] => mark
  | [c] => c :: mark
  | c :: rest => c :: '.' :: rest ++ mark

end Decimal

namespace Binary

variable {f : BinaryFormat}

def signText (negative : Bool) : List Char := if negative then ['-'] else []

/-- The plain form: no exponent, no point on an integer, and of two nearest decimals the one
away from zero. -/
def plainChars : Binary f → List Char
  | nan => ['N', 'a', 'N']
  | infinite s => signText s ++ ['i', 'n', 'f']
  | finite s m e _ => signText s ++ (shortestDecimal f .up m e).positional

def plain (x : Binary f) : String := String.ofList x.plainChars

/-- The powers of ten of the leading digit that JSON text writes without an exponent. -/
def jsonLeastPower : Int := -5

def jsonGreatestPower : Int := 15

/-- The form of JSON text; what is no finite number is `null`. -/
def jsonChars : Binary f → List Char
  | nan => "null".toList
  | infinite _ => "null".toList
  | finite s m e _ =>
    let d := shortestDecimal f .even m e
    let power := d.exponent + (Nat.toDigits 10 d.digits).length - 1
    let body :=
      if power < jsonLeastPower || jsonGreatestPower < power then d.scientific
      else if 0 ≤ d.exponent then d.positional ++ ['.', '0']
      else d.positional
    signText s ++ body

end Binary

end DesignComponents
