/-!
# Blank characters

The characters with the Unicode property White_Space, and what is left of a text once they are
taken off its ends or used to part its words.
-/

namespace DesignComponents

/-- The Unicode property White_Space. -/
def isBlank (c : Char) : Bool :=
  let n := c.toNat
  (9 ≤ n && n ≤ 13) || n == 0x20 || n == 0x85 || n == 0xA0 || n == 0x1680 ||
    (0x2000 ≤ n && n ≤ 0x200A) || n == 0x2028 || n == 0x2029 || n == 0x202F || n == 0x205F ||
    n == 0x3000

def trimEnds (p : Char → Bool) (cs : List Char) : List Char :=
  ((cs.dropWhile p).reverse.dropWhile p).reverse

def trimBlanks (cs : List Char) : List Char := trimEnds isBlank cs

def trimmed (s : String) : String := String.ofList (trimBlanks s.toList)

def extendFirst (c : Char) : List (List Char) → List (List Char)
  | [] => [[c]]
  | w :: ws => (c :: w) :: ws

/-- The parts between characters that satisfy `p`, empty ones included. -/
def splitBy (p : Char → Bool) : List Char → List (List Char)
  | [] => [[]]
  | c :: cs => if p c then [] :: splitBy p cs else extendFirst c (splitBy p cs)

/-- The words of a text: the longest runs without a blank. -/
def wordsOf (cs : List Char) : List (List Char) := (splitBy isBlank cs).filter (· ≠ [])

def dropEnd (p : Char → Bool) (cs : List Char) : List Char := (cs.reverse.dropWhile p).reverse

def occursIn (part : List Char) : List Char → Bool
  | [] => part.isEmpty
  | c :: cs => part.isPrefixOf (c :: cs) || occursIn part cs

end DesignComponents
