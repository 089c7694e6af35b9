import DesignComponents.Text.Hex
import DesignComponents.Text.Utf8

/-!
# Percent encoding

Each part of an address has a set of characters that it cannot hold; they are written as their
bytes, two upper-case hexadecimal digits behind a percent sign. A percent sign itself stays.
-/

namespace DesignComponents.Url

/-- Controls and everything beyond ASCII. -/
def isRare (c : Char) : Bool := c.toNat < 0x20 || 0x7E < c.toNat

def outsidePath (c : Char) : Bool :=
  isRare c || [' ', '"', '<', '>', '`', '#', '?', '\x7b', '\x7d'].contains c

def outsideQuery (c : Char) : Bool := isRare c || [' ', '"', '#', '<', '>'].contains c

def outsideWebQuery (c : Char) : Bool := outsideQuery c || c == '\''

def percentByte (b : UInt8) : List Char := '%' :: (hexPair b).map Char.toUpper

def percentEncode (outside : Char → Bool) (cs : List Char) : List Char :=
  cs.flatMap fun c => if outside c then (Utf8.bytes [c]).flatMap percentByte else [c]

def digitOf? (b : UInt8) : Option Nat := hexValue? (Char.ofNat b.toNat)

/-- The bytes with every percent sign and two digits as the byte that they name. -/
def percentDecode : List UInt8 → List UInt8
  | 0x25 :: a :: b :: rest =>
    match digitOf? a, digitOf? b with
    | some m, some n => UInt8.ofNat (16 * m + n) :: percentDecode rest
    | _, _ => 0x25 :: percentDecode (a :: b :: rest)
  | c :: rest => c :: percentDecode rest
  | [] => []
  termination_by bs => bs.length

end DesignComponents.Url
