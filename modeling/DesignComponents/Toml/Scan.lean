import DesignComponents.Text.Hex
import DesignComponents.Toml.Table

/-!
# Scanning values

The parts of a configuration text that have no parts of their own: blanks, comments, keys,
strings, numbers and moments in time. A scanner takes text from the front or fails.
-/

namespace DesignComponents.Toml

attribute [local instance (high)] instPowNat

abbrev Scan := StateT (List Char) Option

namespace Scan

def peek : Scan (Option Char) := fun cs => some (cs.head?, cs)

def next : Scan Char
  | [] => none
  | c :: cs => some (c, cs)

def many (p : Char → Bool) : Scan (List Char) := fun cs => some (cs.takeWhile p, cs.dropWhile p)

def satisfy (p : Char → Bool) : Scan Char
  | [] => none
  | c :: cs => if p c then some (c, cs) else none

def char (c : Char) : Scan Unit := do
  let _ ← satisfy (· == c)

def text? (word : List Char) : Scan Bool := fun cs =>
  if word.isPrefixOf cs then some (true, cs.drop word.length) else some (false, cs)

def text (word : String) : Scan Unit := do
  if ← text? word.toList then pure () else failure

def perhaps {α : Type} (s : Scan α) : Scan (Option α) := fun cs =>
  match s cs with
  | some (x, rest) => some (some x, rest)
  | none => some (none, cs)

def finished : Scan Unit
  | [] => some ((), [])
  | _ => none

end Scan

open Scan

/-! ## Blanks and comments -/

def isSpace (c : Char) : Bool := c == ' ' || c == '\t'

def spaces : Scan Unit := do
  let _ ← many isSpace

def isCommentChar (c : Char) : Bool := c == '\t' || (0x20 ≤ c.toNat && c.toNat != 0x7F)

def comment : Scan Unit := do
  if ← text? ['#'] then
    let _ ← many isCommentChar

def lineBreak : Scan Unit := do
  if ← text? ['\n'] then pure () else text "\r\n"

def lineEnd : Scan Unit := do
  spaces
  comment
  match ← peek with
  | none => pure ()
  | some _ => lineBreak

/-- Takes one stretch of spaces, a comment or a line break; tells whether there was one. -/
def gapPart : Scan Bool := do
  match ← peek with
  | some '#' => do
    comment
    pure true
  | some '\n' => do
    lineBreak
    pure true
  | some '\r' => do
    lineBreak
    pure true
  | some c =>
    if isSpace c then do
      spaces
      pure true
    else pure false
  | none => pure false

/-- Spaces, comments and line breaks. Each part takes some text. -/
def gapParts : (fuel : Nat) → Scan Unit
  | 0 => failure
  | fuel + 1 => do
    if ← gapPart then gapParts fuel

def gap : Scan Unit := fun cs => gapParts (cs.length + 1) cs

/-! ## Strings -/

def numberedChar (digits : Nat) : Scan Char := fun cs => do
  let ds := cs.take digits
  if ds.length = digits then
    let n ← hexNumber? ds
    if n < 0xD800 ∨ (0xDFFF < n ∧ n < 0x110000) then some (Char.ofNat n, cs.drop digits)
    else none
  else none

def escaped : Scan Char := do
  match ← next with
  | 'b' => pure '\x08'
  | 't' => pure '\t'
  | 'n' => pure '\n'
  | 'f' => pure '\x0c'
  | 'r' => pure '\r'
  | '"' => pure '"'
  | '\\' => pure '\\'
  | 'u' => numberedChar 4
  | 'U' => numberedChar 8
  | _ => failure

def basicChars : (fuel : Nat) → (done : List Char) → Scan String
  | 0, _ => failure
  | fuel + 1, done => do
    let c ← next
    if c = '"' then pure (String.ofList done.reverse)
    else if c = '\\' then do
      let e ← escaped
      basicChars fuel (e :: done)
    else if isCommentChar c then basicChars fuel (c :: done)
    else failure

def literalChars : Scan String := do
  let cs ← many fun c => isCommentChar c && c != '\''
  char '\''
  pure (String.ofList cs)

/-- Quotes at the end of a string of several lines: three end it, two more may belong to it. -/
def closingQuotes (quote : Char) : Scan (Option (List Char)) := fun cs =>
  let n := (cs.takeWhile (· == quote)).length
  if n < 3 then some (none, cs)
  else
    let kept := min (n - 3) 2
    some (some (List.replicate kept quote), cs.drop (kept + 3))

/-- Line breaks and blanks behind a backslash at the end of a line, which are dropped. -/
def joinLines : Scan Bool := fun cs =>
  match cs.dropWhile isSpace with
  | '\n' :: rest => some (true, rest)
  | '\r' :: '\n' :: rest => some (true, rest)
  | _ => some (false, cs)

def skipLines : (fuel : Nat) → Scan Unit
  | 0 => failure
  | fuel + 1 => do
    if ← joinLines then skipLines fuel else spaces

/-- The rest of a string of several lines. Line breaks read as one character. -/
def longChars (quote : Char) (escapes : Bool) : (fuel : Nat) → (done : List Char) → Scan String
  | 0, _ => failure
  | fuel + 1, done => do
    match ← closingQuotes quote with
    | some kept => pure (String.ofList (done.reverse ++ kept))
    | none => do
      let c ← next
      if c = '\\' ∧ escapes = true then
        if ← joinLines then do
          skipLines (fuel + 1)
          longChars quote escapes fuel done
        else do
          let e ← escaped
          longChars quote escapes fuel (e :: done)
      else if c = '\n' ∨ isCommentChar c then longChars quote escapes fuel (c :: done)
      else if c = '\r' then do
        char '\n'
        longChars quote escapes fuel ('\n' :: done)
      else failure

/-- A first line break right behind the quotes does not count. -/
def longString (quote : Char) (escapes : Bool) : Scan String := do
  let _ ← perhaps lineBreak
  fun cs => longChars quote escapes (cs.length + 1) [] cs

def basicString : Scan String := do
  char '"'
  fun cs => basicChars (cs.length + 1) [] cs

def literalString : Scan String := do
  char '\''
  literalChars

def anyString : Scan String := do
  if ← text? ['"', '"', '"'] then longString '"' true
  else if ← text? ['\'', '\'', '\''] then longString '\'' false
  else
    match ← peek with
    | some '"' => basicString
    | _ => literalString

/-! ## Keys -/

def isKeyChar (c : Char) : Bool := c.isAlphanum || c == '-' || c == '_'

def simpleKey : Scan String := do
  match ← peek with
  | some '"' => basicString
  | some '\'' => literalString
  | _ => do
    let cs ← many isKeyChar
    if cs.isEmpty then failure else pure (String.ofList cs)

/-- The most parts that a key may have, and the most levels of values in values. -/
def deepest : Nat := 79

def keyParts : (fuel : Nat) → Scan (List String)
  | 0 => failure
  | fuel + 1 => do
    spaces
    let part ← simpleKey
    spaces
    if ← text? ['.'] then do
      let rest ← keyParts fuel
      pure (part :: rest)
    else pure [part]

def key : Scan (List String) := keyParts deepest

/-! ## Numbers -/

def grouped (isDigit : Char → Bool) : Scan (List Char) := fun cs =>
  let text := cs.takeWhile fun c => isDigit c || c == '_'
  let rest := cs.drop text.length
  let digits := text.filter (· ≠ '_')
  let edges := text.head? == some '_' || text.getLast? == some '_'
  if digits.isEmpty || edges || occursInPairs text then none else some (digits, rest)
where
  occursInPairs : List Char → Bool
    | '_' :: '_' :: _ => true
    | _ :: cs => occursInPairs cs
    | [] => false

def valueIn (base : Nat) (digits : List Char) : Nat :=
  digits.foldl (fun n c => base * n + (hexValue? c).getD 0) 0

def sign : Scan Bool := do
  match ← peek with
  | some '-' => do
    let _ ← next
    pure true
  | some '+' => do
    let _ ← next
    pure false
  | _ => pure false

def decimalDigits : Scan (List Char) := do
  let digits ← grouped Char.isDigit
  if digits.head? = some '0' ∧ digits.length ≠ 1 then failure else pure digits

/-- An integer of 64 bits. -/
def bounded? (n : Int) : Option Int :=
  if -(2 ^ (63 : Nat)) ≤ n ∧ n < 2 ^ (63 : Nat) then some n else none

def decimalInteger : Scan Toml := do
  let negative ← sign
  let digits ← decimalDigits
  let n : Int := valueIn 10 digits
  let n ← (bounded? (if negative then -n else n) : Option Int)
  pure (integer n)

def basedInteger (word : String) (base : Nat) (isDigit : Char → Bool) : Scan Toml := do
  text word
  let digits ← grouped isDigit
  let n ← (bounded? (valueIn base digits) : Option Int)
  pure (integer n)

def anyInteger : Scan Toml :=
  basedInteger "0x" 16 (fun c => (hexValue? c).isSome) <|>
    basedInteger "0o" 8 (fun c => '0' ≤ c && c ≤ '7') <|>
    basedInteger "0b" 2 (fun c => c == '0' || c == '1') <|>
    decimalInteger

def exponent : Scan Int := do
  let _ ← satisfy fun c => c == 'e' || c == 'E'
  let negative ← sign
  let digits ← grouped Char.isDigit
  let n : Int := valueIn 10 digits
  pure (if negative then -n else n)

/-- A number with places, a power of ten or both. One that is too large is none, but its opposite
is an infinity. -/
def decimalFloat : Scan Toml := do
  let negative ← sign
  let whole ← decimalDigits
  let places ←
    if ← text? ['.'] then some <$> grouped Char.isDigit
    else pure none
  let power ← perhaps exponent
  if places.isNone && power.isNone then failure
  else
    let digits := whole ++ places.getD []
    let x := Binary.ofDecimal .double negative (valueIn 10 digits)
      (power.getD 0 - (places.getD []).length)
    if x = .infinite false then failure else pure (float x)

def specialFloat : Scan Toml := do
  let negative ← sign
  if ← text? ['i', 'n', 'f'] then pure (float (.infinite negative))
  else do
    text "nan"
    pure (float .nan)

/-! ## Moments -/

def clockNumber (digits low high : Nat) : Scan Nat := fun cs =>
  let ds := cs.take digits
  if ds.length = digits ∧ ds.all Char.isDigit then
    let n := valueIn 10 ds
    if low ≤ n ∧ n ≤ high then some (n, cs.drop digits) else none
  else none

def isLeapYear (year : Nat) : Bool := year % 4 == 0 && (year % 100 != 0 || year % 400 == 0)

def daysOf (year month : Nat) : Nat :=
  if month = 2 then if isLeapYear year then 29 else 28
  else if [4, 6, 9, 11].contains month then 30
  else 31

def date : Scan Unit := do
  let year ← clockNumber 4 0 9999
  char '-'
  let month ← clockNumber 2 1 12
  char '-'
  let _ ← clockNumber 2 1 (daysOf year month)

def clock : Scan Unit := do
  let _ ← clockNumber 2 0 23
  char ':'
  let _ ← clockNumber 2 0 59
  char ':'
  let _ ← clockNumber 2 0 60
  let _ ← perhaps do
    char '.'
    let places ← many Char.isDigit
    if places.isEmpty then failure else pure ()

def zone : Scan Unit := do
  let c ← next
  if c = 'Z' ∨ c = 'z' then pure ()
  else if c = '+' ∨ c = '-' then do
    let _ ← clockNumber 2 0 23
    char ':'
    let _ ← clockNumber 2 0 59
  else failure

/-- A date, a time of day, or both, perhaps with a zone. -/
def dateOrTime : Scan Toml := do
  if (← perhaps date).isSome then
    let _ ← perhaps do
      let _ ← satisfy fun c => c == 'T' || c == 't' || c == ' '
      clock
      perhaps zone
  else clock
  pure .moment

def number : Scan Toml := dateOrTime <|> decimalFloat <|> specialFloat <|> anyInteger

end DesignComponents.Toml
