import DesignComponents.Text.Blank
import DesignComponents.Text.Hex

/-!
# Numeric addresses

The two kinds of addresses that a host can be written as by number: four bytes in one of many
notations, and eight pieces of 16 bits between colons.
-/

namespace DesignComponents.Url

attribute [local instance (high)] instPowNat

/-! ## Four bytes -/

def radixOf : List Char → Nat × List Char
  | '0' :: 'x' :: cs => (16, cs)
  | '0' :: 'X' :: cs => (16, cs)
  | '0' :: c :: cs => (8, c :: cs)
  | cs => (10, cs)

def inBase? (base : Nat) (cs : List Char) : Option Nat :=
  cs.foldlM (fun n c => (hexValue? c).bind fun d => if d < base then some (base * n + d) else none) 0

/-- A part of an address; nothing behind the sign of a base is zero. -/
def part4? (cs : List Char) : Option Nat :=
  if cs.isEmpty then none
  else
    let (base, digits) := radixOf cs
    inBase? base digits

/-- Whether the last part of a name is a number, so that the name has to be an address. A dot at
its end counts for nothing. -/
def endsInNumber (name : List Char) : Bool :=
  let isNumber (part : List Char) : Bool :=
    (!part.isEmpty && part.all Char.isDigit) || (part4? part).isSome
  match (splitBy (· == '.') name).reverse with
  | [] :: last :: _ => isNumber last
  | [] :: [] => false
  | last :: _ => isNumber last
  | [] => false

/-- The bytes in front fill one place each, the last number all places that are left. -/
def join4? (numbers : List Nat) : Option Nat :=
  match numbers.reverse with
  | [] => none
  | last :: front =>
    if numbers.length ≤ 4 ∧ last < 256 ^ (4 - front.length) ∧ front.all (· < 256) then
      some (front.reverse.zipIdx.foldl (fun sum (n, i) => sum + n * 256 ^ (3 - i)) last)
    else none

def address4? (name : List Char) : Option Nat :=
  let parts := splitBy (· == '.') name
  let parts := if parts.getLast? == some [] then parts.dropLast else parts
  (parts.mapM part4?).bind join4?

/-! ## Eight pieces -/

def piece? (cs : List Char) : Option Nat :=
  if cs.isEmpty || 4 < cs.length then none else hexNumber? cs

def byte? (cs : List Char) : Option Nat :=
  if cs.isEmpty || (cs.head? == some '0' && 1 < cs.length) || 3 < cs.length then none
  else if cs.all Char.isDigit then
    let n := cs.foldl (fun n c => 10 * n + (c.toNat - '0'.toNat)) 0
    if n < 256 then some n else none
  else none

def bytePieces? (cs : List Char) : Option (List Nat) :=
  match (splitBy (· == '.') cs).mapM byte? with
  | some [a, b, c, d] => some [256 * a + b, 256 * c + d]
  | _ => none

/-- The pieces between colons; the last two may be written as four bytes. -/
def pieces? : List (List Char) → Option (List Nat)
  | [] => some []
  | [last] => if last.contains '.' then bytePieces? last else (piece? last).map ([·])
  | p :: ps => (piece? p).bind fun n => (pieces? ps).map (n :: ·)

def side? (cs : List Char) : Option (List Nat) :=
  if cs.isEmpty then some [] else pieces? (splitBy (· == ':') cs)

def atGap? : List Char → Option (List Char × List Char)
  | ':' :: ':' :: rest => some ([], rest)
  | c :: rest => (atGap? rest).map fun (before, behind) => (c :: before, behind)
  | [] => none

/-- Eight pieces, or fewer with one gap for the zeros between them. -/
def address6? (cs : List Char) : Option (List Nat) :=
  match atGap? cs with
  | none => (side? cs).bind fun ps => if ps.length = 8 then some ps else none
  | some (before, behind) =>
    if before.contains '.' then none
    else
      match side? before, side? behind with
      | some front, some back =>
        if front.length + back.length ≤ 7 then
          some (front ++ List.replicate (8 - front.length - back.length) 0 ++ back)
        else none
      | _, _ => none

end DesignComponents.Url
