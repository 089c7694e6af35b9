import DesignComponents.Json.Value
import DesignComponents.Number.Arithmetic
import DesignComponents.Text.Hex

/-!
# Reading JSON

`Json.read?` gives the value of a text with its fields as written and void in place of what has
no value; `Json.parse?` accepts only sound texts and keeps the last field of each name.

A number with a point or an exponent is read as an integer of at most 64 bits, further digits
being dropped, and then multiplied or divided by a power of ten; both steps round.
-/

namespace DesignComponents.Json

attribute [local instance (high)] instPowNat

def isSpace (c : Char) : Bool := c == ' ' || c == '\n' || c == '\t' || c == '\r'

def skipSpace (cs : List Char) : List Char := cs.dropWhile isSpace

def greatestInteger : Nat := 2 ^ (64 : Nat) - 1

/-- Appends digits to `n` as long as it stays within 64 bits, and counts those it took. -/
def absorb (n : Nat) : List Char → Nat × Nat
  | [] => (n, 0)
  | c :: cs =>
    let next := 10 * n + (c.toNat - '0'.toNat)
    if next ≤ greatestInteger then
      let (m, taken) := absorb next cs
      (m, taken + 1)
    else (n, 0)

def greatestPower : Nat := 308

def tenTo (k : Nat) : Double := Binary.ofNat .double (10 ^ k)

/-- `n * 10 ^ e` by way of doubles; none where that is too large. -/
def scaled? (n : Nat) (e : Int) : Option Double :=
  let x := Binary.ofNat .double n
  let k := e.natAbs
  if n = 0 then some x
  else if 0 ≤ e then
    if k ≤ greatestPower then
      let y := x * tenTo k
      if y.isInfinite then none else some y
    else none
  else if k ≤ greatestPower then some (x / tenTo k)
  else if k ≤ 2 * greatestPower then some (x / tenTo greatestPower / tenTo (k - greatestPower))
  else some (Binary.zero .double false)

def decimalValue (cs : List Char) : Nat :=
  cs.foldl (fun n c => 10 * n + (c.toNat - '0'.toNat)) 0

structure NumberText where
  whole : List Char
  places : Option (List Char)
  power : Option Int

namespace NumberText

def readPlaces? : List Char → Option (Option (List Char) × List Char)
  | '.' :: cs =>
    let ds := cs.takeWhile Char.isDigit
    if ds.isEmpty then none else some (some ds, cs.dropWhile Char.isDigit)
  | cs => some (none, cs)

def readPower? : List Char → Option (Option Int × List Char)
  | c :: cs =>
    if c = 'e' ∨ c = 'E' then
      let (negative, cs) :=
        match cs with
        | '-' :: r => (true, r)
        | '+' :: r => (false, r)
        | r => (false, r)
      let ds := cs.takeWhile Char.isDigit
      if ds.isEmpty then none
      else
        let n : Int := decimalValue ds
        some (some (if negative then -n else n), cs.dropWhile Char.isDigit)
    else some (none, c :: cs)
  | [] => some (none, [])

/-- A number without its sign; a leading zero stands alone before the point. -/
def read? (cs : List Char) : Option (NumberText × List Char) := do
  let whole := cs.takeWhile Char.isDigit
  let rest := cs.dropWhile Char.isDigit
  if whole.isEmpty || (whole.head? == some '0' && whole.length != 1) then none
  else
    let (places, rest) ← readPlaces? rest
    let (power, rest) ← readPower? rest
    some (⟨whole, places, power⟩, rest)

def toJson (negative : Bool) (t : NumberText) : Json :=
  let withSign (x : Double) : Json := float (if negative then -x else x)
  let (n, taken) := absorb 0 t.whole
  let dropped := t.whole.length - taken
  match t.places, t.power with
  | none, none =>
    if dropped = 0 ∧ negative = false then integer n
    else if dropped = 0 ∧ n ≠ 0 ∧ n ≤ 2 ^ (63 : Nat) then integer (-n)
    else (scaled? n dropped).elim void withSign
  | places, power =>
    let (m, used) := absorb n (places.getD [])
    (scaled? m (power.getD 0 + dropped - used)).elim void withSign

end NumberText

def readNumber? : List Char → Option (Json × List Char)
  | '-' :: cs => (NumberText.read? cs).map fun (t, rest) => (t.toJson true, rest)
  | cs => (NumberText.read? cs).map fun (t, rest) => (t.toJson false, rest)

def simpleEscape? : Char → Option Char
  | '"' => some '"'
  | '\\' => some '\\'
  | '/' => some '/'
  | 'b' => some '\x08'
  | 'f' => some '\x0c'
  | 'n' => some '\n'
  | 'r' => some '\r'
  | 't' => some '\t'
  | _ => none

def isLead (n : Nat) : Bool := 0xD800 ≤ n && n < 0xDC00

def isTrail (n : Nat) : Bool := 0xDC00 ≤ n && n < 0xE000

/-- The rest of a string behind its opening quote: its text, none if half of a surrogate pair
occurs in it, and what follows the closing quote. -/
def readString? : (sound : Bool) → (done : List Char) → List Char →
    Option (Option String × List Char)
  | _, _, [] => none
  | sound, done, '"' :: rest =>
    some (if sound then some (String.ofList done.reverse) else none, rest)
  | sound, done, '\\' :: 'u' :: a :: b :: c :: d :: '\\' :: 'u' :: w :: x :: y :: z :: rest =>
    match hexNumber? [a, b, c, d], hexNumber? [w, x, y, z] with
    | some m, some n =>
      if isLead m && isTrail n then
        let code := 0x10000 + (m - 0xD800) * 0x400 + (n - 0xDC00)
        readString? sound (Char.ofNat code :: done) rest
      else if isLead m || isTrail m then
        readString? false done ('\\' :: 'u' :: w :: x :: y :: z :: rest)
      else readString? sound (Char.ofNat m :: done) ('\\' :: 'u' :: w :: x :: y :: z :: rest)
    | _, _ => none
  | sound, done, '\\' :: 'u' :: a :: b :: c :: d :: rest =>
    match hexNumber? [a, b, c, d] with
    | some n =>
      if isLead n || isTrail n then readString? false done rest
      else readString? sound (Char.ofNat n :: done) rest
    | none => none
  | sound, done, '\\' :: c :: rest =>
    match simpleEscape? c with
    | some e => readString? sound (e :: done) rest
    | none => none
  | sound, done, c :: rest =>
    if c.toNat < 0x20 then none else readString? sound (c :: done) rest
  termination_by _ _ cs => cs.length

mutual

def readValue? : (fuel : Nat) → List Char → Option (Json × List Char)
  | 0, _ => none
  | fuel + 1, cs =>
    match skipSpace cs with
    | '"' :: rest =>
      (readString? true [] rest).map fun (s, rest) => (s.elim void string, rest)
    | '[' :: rest =>
      match skipSpace rest with
      | ']' :: rest => some (array [], rest)
      | rest => readItems? fuel rest []
    | '\x7b' :: rest =>
      match skipSpace rest with
      | '\x7d' :: rest => some (object [], rest)
      | rest => readFields? fuel rest true []
    | 't' :: 'r' :: 'u' :: 'e' :: rest => some (bool true, rest)
    | 'f' :: 'a' :: 'l' :: 's' :: 'e' :: rest => some (bool false, rest)
    | 'n' :: 'u' :: 'l' :: 'l' :: rest => some (null, rest)
    | rest => readNumber? rest

def readItems? : (fuel : Nat) → List Char → (done : List Json) → Option (Json × List Char)
  | 0, _, _ => none
  | fuel + 1, cs, done =>
    match readValue? fuel cs with
    | none => none
    | some (item, rest) =>
      match skipSpace rest with
      | ',' :: rest => readItems? fuel rest (item :: done)
      | ']' :: rest => some (array (item :: done).reverse, rest)
      | _ => none

/-- The fields up to the closing brace; a field whose name has no text leaves the object void. -/
def readFields? : (fuel : Nat) → List Char → (sound : Bool) → (done : List (String × Json)) →
    Option (Json × List Char)
  | 0, _, _, _ => none
  | fuel + 1, cs, sound, done =>
    match skipSpace cs with
    | '"' :: rest =>
      match readString? true [] rest with
      | none => none
      | some (name, rest) =>
        match skipSpace rest with
        | ':' :: rest =>
          match readValue? fuel rest with
          | none => none
          | some (value, rest) =>
            let sound := sound && name.isSome
            let done := (name.getD "", value) :: done
            match skipSpace rest with
            | ',' :: rest => readFields? fuel rest sound done
            | '\x7d' :: rest => some (if sound then object done.reverse else void, rest)
            | _ => none
        | _ => none
    | _ => none

end

/-- How many arrays and objects may enclose a value. -/
def deepest : Nat := 127

/-- The value of a text, with its fields as written and void in place of what has no value. -/
def read? (s : String) : Option Json :=
  let cs := s.toList
  match readValue? (2 * cs.length + 2) cs with
  | some (j, rest) => if (skipSpace rest).isEmpty then some (j.cut deepest) else none
  | none => none

/-- The value of a sound text, with the last field of each name. -/
def parse? (s : String) : Option Json :=
  match read? s with
  | some j => if j.isSound then some j.distinct else none
  | none => none

end DesignComponents.Json
