import DesignComponents.Text.Blank

/-!
# Durations

A duration is written as a row of numbers with units, such as `1h 30min`. A number may have
blanks between its digits and places behind a point; all counts stay within 64 bits.
-/

namespace DesignComponents

attribute [local instance (high)] instPowNat

structure Duration where
  seconds : Nat
  nanos : Nat
  deriving DecidableEq, Repr

namespace Duration

def ofSeconds (n : Nat) : Duration := ⟨n, 0⟩

def isZero (d : Duration) : Bool := d.seconds == 0 && d.nanos == 0

def greatest : Nat := 2 ^ (64 : Nat) - 1

def count? (n : Nat) : Option Nat := if n ≤ greatest then some n else none

/-- How long a unit is: so many nanoseconds, if it is counted in them, or so many seconds. -/
inductive UnitLength where
  | nanos (n : Nat)
  | seconds (n : Nat)
  deriving DecidableEq, Repr

structure TimeUnit where
  names : List String
  length : UnitLength
  fraction : Option UnitLength

def units : List TimeUnit :=
  [⟨["nanos", "nsec", "ns"], .nanos 1, none⟩,
    ⟨["usec", "us", "µs"], .nanos 1000, some (.nanos 1000)⟩,
    ⟨["millis", "msec", "ms"], .nanos 1000000, some (.nanos 1000000)⟩,
    ⟨["seconds", "second", "secs", "sec", "s"], .seconds 1, some (.nanos 1000000000)⟩,
    ⟨["minutes", "minute", "min", "mins", "m"], .seconds 60, some (.nanos 60000000000)⟩,
    ⟨["hours", "hour", "hrs", "hr", "h"], .seconds 3600, some (.seconds 3600)⟩,
    ⟨["days", "day", "d"], .seconds 86400, some (.seconds 86400)⟩,
    ⟨["weeks", "week", "wks", "wk", "w"], .seconds 604800, some (.seconds 604800)⟩,
    ⟨["months", "month", "M"], .seconds 2630016, some (.seconds 2630016)⟩,
    ⟨["years", "year", "yrs", "yr", "y"], .seconds 31557600, some (.seconds 31557600)⟩]

def unit? (name : List Char) : Option TimeUnit :=
  units.find? fun u => u.names.any (·.toList == name)

def billion : Nat := 1000000000

def add? (d : Duration) (seconds nanos : Nat) : Option Duration := do
  let nanos ← count? (d.nanos + nanos)
  let seconds ← count? (d.seconds + seconds + nanos / billion)
  some ⟨seconds, nanos % billion⟩

def addPart? (d : Duration) (length : UnitLength) (num den : Nat) : Option Duration :=
  match length with
  | .nanos n => (count? (num * n)).bind fun total => d.add? 0 (total / den)
  | .seconds n => (count? (num * n)).bind fun total => d.add? (total / den) 0

/-- The digits after a point, over a power of ten. -/
structure Fraction where
  num : Nat
  den : Nat

def addUnits? (d : Duration) (n : Nat) (fraction : Option Fraction) (u : TimeUnit) :
    Option Duration := do
  let d ← d.addPart? u.length n 1
  match fraction with
  | none => some d
  | some f => u.fraction.bind fun length => d.addPart? length f.num f.den

def isUnitChar (c : Char) : Bool := c.isAlpha || c == 'µ'

def readDigits (n digits : Nat) : List Char → Option (Nat × Nat × List Char)
  | [] => some (n, digits, [])
  | c :: cs =>
    if c.isDigit then
      (count? (10 * n + (c.toNat - '0'.toNat))).bind fun n => readDigits n (digits + 1) cs
    else if isBlank c then readDigits n digits cs
    else some (n, digits, c :: cs)

def readFraction? (cs : List Char) : Option (Option Fraction × List Char) := do
  let (num, digits, rest) ← readDigits 0 0 cs
  let den ← count? (10 ^ digits)
  if digits = 0 then none else some (some ⟨num, den⟩, rest)

/-- Reads one number with its unit, which ends before a digit or a blank. -/
def readPart? (d : Duration) (cs : List Char) : Option (Duration × List Char) := do
  let (n, _, rest) ← readDigits 0 0 cs
  let (fraction, rest) ←
    match rest with
    | '.' :: places => readFraction? places
    | rest => some (none, rest)
  let unit ← unit? (rest.takeWhile isUnitChar)
  let d ← d.addUnits? n fraction unit
  let rest := rest.dropWhile isUnitChar
  if rest.head?.all fun c => c.isDigit || isBlank c then some (d, rest) else none

/-- Reads the parts up to the end. Each takes some text, so there are at most `fuel`. -/
def readParts? : (fuel : Nat) → Duration → List Char → Option Duration
  | 0, _, _ => none
  | fuel + 1, d, cs =>
    match cs.dropWhile isBlank with
    | [] => some d
    | c :: cs =>
      if c.isDigit then
        (readPart? d (c :: cs)).bind fun (d, rest) => readParts? fuel d rest
      else none

/-- Reads a duration. Nothing but zero goes without a unit. -/
def read? (text : String) : Option Duration :=
  let cs := text.toList
  if text = "0" then some ⟨0, 0⟩
  else if cs.all isBlank then none
  else readParts? (cs.length + 1) ⟨0, 0⟩ cs

end Duration

end DesignComponents
