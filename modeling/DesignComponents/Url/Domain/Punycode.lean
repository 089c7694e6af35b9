/-!
# Punycode

A label of ASCII letters, digits and hyphens that spells one with characters beyond ASCII: the
ASCII characters in front of the last hyphen, and behind it, in numbers of variable length, where
to put each of the others.
-/

namespace DesignComponents.Url.Punycode

def digit? (c : Char) : Option Nat :=
  if 'a' ≤ c ∧ c ≤ 'z' then some (c.toNat - 'a'.toNat)
  else if 'A' ≤ c ∧ c ≤ 'Z' then some (c.toNat - 'A'.toNat)
  else if '0' ≤ c ∧ c ≤ '9' then some (c.toNat - '0'.toNat + 26)
  else none

def base : Nat := 36

/-- The digit at position `k` from which on a number goes on. -/
def threshold (k bias : Nat) : Nat := max 1 (min 26 (k - bias))

/-- Reads one number: digits with growing weights up to the first below its threshold. -/
def readNumber (bias : Nat) : (k weight sum : Nat) → List Char → Option (Nat × List Char)
  | _, _, _, [] => none
  | k, weight, sum, c :: cs =>
    match digit? c with
    | none => none
    | some d =>
      let t := threshold k bias
      let sum := sum + d * weight
      if d < t then some (sum, cs) else readNumber bias (k + base) (weight * (base - t)) sum cs

theorem length_readNumber {bias k weight sum n : Nat} {cs rest : List Char}
    (h : readNumber bias k weight sum cs = some (n, rest)) : rest.length < cs.length := by
  induction cs generalizing k weight sum with
  | nil => simp [readNumber] at h
  | cons c cs ih =>
    unfold readNumber at h
    split at h
    · contradiction
    · dsimp only at h
      split at h
      · cases h; simp
      · exact Nat.lt_succ_of_lt (ih h)

/-- Brings a number down by the ratio of its base to the width of a digit. -/
def scaleDown (fuel k delta : Nat) : Nat :=
  match fuel with
  | 0 => k
  | fuel + 1 =>
    if 455 < delta then scaleDown fuel (k + base) (delta / (base - 1))
    else k + base * delta / (delta + 38)

/-- The bias after a number, for a label that then has `size` characters. -/
def nextBias (delta size : Nat) (first : Bool) : Nat :=
  let delta := if first then delta / 700 else delta / 2
  let delta := delta + delta / size
  scaleDown (delta.log2 + 1) 0 delta

def insertAll (code place bias : Nat) (label : List Nat) (cs : List Char) : Option (List Nat) :=
  if cs.isEmpty then some label
  else
    match _h : readNumber bias base 1 place cs with
    | none => none
    | some (sum, rest) =>
      let size := label.length + 1
      let code := code + sum / size
      let at_ := sum % size
      let bias := nextBias (sum - place) size (place == 0)
      insertAll code (at_ + 1) bias (label.take at_ ++ code :: label.drop at_) rest
  termination_by cs.length
  decreasing_by exact length_readNumber (by assumption)

def characters? (codes : List Nat) : Option (List Char) :=
  codes.mapM fun n => if h : n.isValidChar then some (Char.ofNatAux n h) else none

/-- The label that a text spells. A hyphen has to have something in front of it. -/
def decode? (cs : List Char) : Option (List Char) :=
  let digits := (cs.reverse.takeWhile (· ≠ '-')).reverse
  let plain := (cs.reverse.dropWhile (· ≠ '-')).reverse.dropLast
  if plain.isEmpty && cs.contains '-' then none
  else (insertAll 0x80 0 72 (plain.map Char.toNat) digits).bind characters?

end DesignComponents.Url.Punycode
