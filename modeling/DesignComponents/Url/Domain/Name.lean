import DesignComponents.Text.Blank
import DesignComponents.Text.Mark
import DesignComponents.Text.Utf8
import DesignComponents.Url.Domain.Compatible
import DesignComponents.Url.Domain.Excluded
import DesignComponents.Url.Domain.Joiner
import DesignComponents.Url.Domain.Punycode
import DesignComponents.Url.Percent

/-!
# Names of hosts

A name is brought to one form before it is compared: percent signs are decoded, ASCII letters
lowered, and characters that stand for ASCII ones replaced by them. Labels with characters
beyond ASCII are kept readable.
-/

namespace DesignComponents.Url

def isForbidden (c : Char) : Bool :=
  c.toNat ≤ 0x20 || c.toNat == 0x7F ||
    ['%', '#', '/', ':', '<', '>', '?', '@', '[', '\\', ']', '^', '|'].contains c

def isAscii (c : Char) : Bool := c.toNat < 0x80

/-- The full stops that part labels besides the ASCII one. -/
def isFullStop (c : Char) : Bool := c.toNat == 0x3002 || c.toNat == 0xFF0E || c.toNat == 0xFF61

def foldChar? (c : Char) : Option (List Char) :=
  if isAscii c then if isForbidden c then none else some [c.toLower]
  else if isFullStop c then some ['.']
  else if isDropped c then some []
  else if isExcluded c then none
  else
    match compatible? c with
    | some cs => some cs
    | none => some [c]

def spellingMark : List Char := "xn--".toList

/-- Whether a label that spells another one does so: with some character beyond ASCII, and none
that a label does not have in its final form. -/
def isSpelling (label : List Char) : Bool :=
  match Punycode.decode? (label.drop spellingMark.length) with
  | some cs => cs.any (!isAscii ·) && cs.all (fun c => foldChar? c == some [c]) &&
      !(cs.head?.any isMark) && joinersFit none cs
  | none => false

def isLabel (label : List Char) : Bool :=
  if label.all isAscii then !spellingMark.isPrefixOf label || isSpelling label
  else !spellingMark.isPrefixOf label && !(label.head?.any isMark) && joinersFit none label

def foldName? (cs : List Char) : Option (List Char) := do
  let decoded ← Utf8.strict? (percentDecode (Utf8.bytes cs))
  let folded := (← decoded.mapM foldChar?).flatten
  if (splitBy (· == '.') folded).all isLabel then some folded else none

end DesignComponents.Url
