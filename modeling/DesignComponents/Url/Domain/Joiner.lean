/-!
# Joiners

Two characters that show nothing only tell whether the letters beside them are joined. They may
stand in the name of a host behind a sign that takes the vowel from a consonant, where they make a
difference to how the name looks.
-/

namespace DesignComponents.Url

/-- The signs that take the vowel from a consonant. -/
def viramas : List Nat :=
  [0x94D, 0x9CD, 0xA4D, 0xACD, 0xB4D, 0xBCD, 0xC4D, 0xCCD, 0xD3B, 0xD3C, 0xD4D, 0xDCA, 0xE3A,
    0xEBA, 0xF84, 0x1039, 0x103A, 0x1714, 0x1715, 0x1734, 0x17D2, 0x1A60, 0x1B44, 0x1BAA, 0x1BAB,
    0x1BF2, 0x1BF3, 0x2D7F, 0xA806, 0xA82C, 0xA8C4, 0xA953, 0xA9C0, 0xAAF6, 0xABED, 0x10A3F,
    0x11046, 0x11070, 0x1107F, 0x110B9, 0x11133, 0x11134, 0x111C0, 0x11235, 0x112EA, 0x1134D,
    0x11442, 0x114C2, 0x115BF, 0x1163F, 0x116B6, 0x1172B, 0x11839, 0x1193D, 0x1193E, 0x119E0,
    0x11A34, 0x11A47, 0x11A99, 0x11C3F, 0x11D44, 0x11D45, 0x11D97]

def isJoiner (c : Char) : Bool := c.toNat == 0x200C || c.toNat == 0x200D

/-- Whether every joiner stands behind a virama; `before` is the character in front. -/
def joinersFit : (before : Option Char) → List Char → Bool
  | _, [] => true
  | before, c :: cs =>
    (!isJoiner c || before.any fun b => viramas.contains b.toNat) && joinersFit (some c) cs

end DesignComponents.Url
