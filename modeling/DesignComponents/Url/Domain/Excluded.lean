/-!
# Excluded characters

The characters beyond ASCII that the name of a host cannot have, and those that it drops: what
is not assigned, private or a control is excluded, and so is what stands for a blank or a stop
inside other text; what only marks a place to break or join text is dropped.
-/

namespace DesignComponents.Url

/-- The first and the last of each run of excluded characters. -/
def excludedRuns : List (Nat × Nat) :=
  [(0x80, 0xA0), (0xA8, 0xA8), (0xAF, 0xAF), (0xB4, 0xB4), (0xB8, 0xB8), (0x2D8, 0x2DD),
    (0x37A, 0x37A), (0x384, 0x385), (0x600, 0x605), (0x61C, 0x61C), (0x6DD, 0x6DD),
    (0x70F, 0x70F), (0x890, 0x891), (0x8E2, 0x8E2), (0x1680, 0x1680), (0x180E, 0x180E),
    (0x1FBD, 0x1FBD), (0x1FBF, 0x1FC1), (0x1FCD, 0x1FCF), (0x1FDD, 0x1FDF), (0x1FED, 0x1FEE),
    (0x1FFD, 0x1FFE), (0x2000, 0x200A), (0x200E, 0x200F), (0x2017, 0x2017), (0x2024, 0x2026),
    (0x2028, 0x202F), (0x203E, 0x203E), (0x2047, 0x2049), (0x205F, 0x205F), (0x2061, 0x2063),
    (0x2066, 0x206F), (0x2100, 0x2101), (0x2105, 0x2106), (0x2488, 0x249B), (0x2A74, 0x2A74),
    (0x3000, 0x3000), (0x309B, 0x309C), (0x33C2, 0x33C2), (0x33C7, 0x33C7), (0x33D8, 0x33D8),
    (0xE000, 0xF8FF), (0xFC5E, 0xFC63), (0xFDD0, 0xFDEF), (0xFDFA, 0xFDFB), (0xFE13, 0xFE13),
    (0xFE16, 0xFE16), (0xFE19, 0xFE19), (0xFE30, 0xFE30), (0xFE47, 0xFE4C), (0xFE52, 0xFE52),
    (0xFE55, 0xFE56), (0xFE5F, 0xFE5F), (0xFE64, 0xFE65), (0xFE68, 0xFE68), (0xFE6A, 0xFE6B),
    (0xFE70, 0xFE70), (0xFE72, 0xFE72), (0xFE74, 0xFE74), (0xFE76, 0xFE76), (0xFE78, 0xFE78),
    (0xFE7A, 0xFE7A), (0xFE7C, 0xFE7C), (0xFE7E, 0xFE7E), (0xFF03, 0xFF03), (0xFF05, 0xFF05),
    (0xFF0F, 0xFF0F), (0xFF1A, 0xFF1A), (0xFF1C, 0xFF1C), (0xFF1E, 0xFF20), (0xFF3B, 0xFF3E),
    (0xFF5C, 0xFF5C), (0xFFE3, 0xFFE3), (0xFFF9, 0xFFFF), (0x101FE, 0x1027F), (0x105BD, 0x105FF),
    (0x107BB, 0x107FF), (0x10940, 0x1097F), (0x10BB0, 0x10BFF), (0x10D3A, 0x10E5F),
    (0x10EB2, 0x10EFF), (0x110BD, 0x110BD), (0x110CD, 0x110CD), (0x1123F, 0x1127F),
    (0x11375, 0x113FF), (0x114DA, 0x1157F), (0x11747, 0x117FF), (0x1183C, 0x1189F),
    (0x1195A, 0x1199F), (0x11AF9, 0x11BFF), (0x11CB7, 0x11CFF), (0x11DAA, 0x11EDF),
    (0x11EF9, 0x11FAF), (0x1239A, 0x123FF), (0x12544, 0x12F8F), (0x13430, 0x143FF),
    (0x14647, 0x167FF), (0x16B90, 0x16E3F), (0x16E9B, 0x16EFF), (0x16FA0, 0x16FDF),
    (0x18D09, 0x1AFEF), (0x1B2FC, 0x1BBFF), (0x1BCA4, 0x1CEFF), (0x1D173, 0x1D17A),
    (0x1D246, 0x1D2DF), (0x1D379, 0x1D3FF), (0x1DAB0, 0x1DEFF), (0x1DF1F, 0x1DFFF),
    (0x1E02B, 0x1E0FF), (0x1E150, 0x1E28F), (0x1E300, 0x1E7DF), (0x1E960, 0x1EC70),
    (0x1ECB5, 0x1ED00), (0x1ED3E, 0x1EDFF), (0x1EEF2, 0x1EFFF), (0x1F100, 0x1F100),
    (0x1F266, 0x1F2FF), (0x1F8B2, 0x1F8FF), (0x1FBFA, 0x1FFFF), (0x2EBE1, 0x2EBEF),
    (0x2EE5E, 0x2F7FF), (0x2FA1E, 0x2FFFF), (0x323B0, 0xE0001), (0xE0020, 0xE00FF),
    (0xE01F0, 0x10FFFF)]

def isExcluded (c : Char) : Bool :=
  excludedRuns.any fun (first, last) => first ≤ c.toNat && c.toNat ≤ last

def droppedRuns : List (Nat × Nat) :=
  [(0xAD, 0xAD), (0x34F, 0x34F), (0x180B, 0x180D), (0x180F, 0x180F), (0x200B, 0x200B),
    (0x2060, 0x2060), (0x2064, 0x2064), (0xFE00, 0xFE0F), (0xFEFF, 0xFEFF), (0x1BCA0, 0x1BCA3),
    (0xE0100, 0xE01EF)]

def isDropped (c : Char) : Bool :=
  droppedRuns.any fun (first, last) => first ≤ c.toNat && c.toNat ≤ last

end DesignComponents.Url
