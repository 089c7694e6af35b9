import DesignComponents.Toml.Scan

/-!
# Reading configuration texts

A configuration text is a row of lines, each a key with its value or the header of a table for
the keys behind it. Values are scanned, or made of values in brackets and braces.
-/

namespace DesignComponents.Toml

open Scan

mutual

def value : (fuel levels : Nat) → Scan Toml
  | 0, _ => failure
  | fuel + 1, levels => do
    match ← peek with
    | some '"' => string <$> anyString
    | some '\'' => string <$> anyString
    | some 't' => do
      text "true"
      pure (bool true)
    | some 'f' => do
      text "false"
      pure (bool false)
    | some 'i' => specialFloat
    | some 'n' => specialFloat
    | some '[' =>
      match levels with
      | 0 => failure
      | levels + 1 => do
        char '['
        items fuel levels []
    | some '\x7b' =>
      match levels with
      | 0 => failure
      | levels + 1 => do
        char '\x7b'
        spaces
        if ← text? ['\x7d'] then pure (table .inline []) else pairs fuel levels []
    | _ => number

/-- The items of an array up to its end; a comma may stand behind the last. -/
def items : (fuel levels : Nat) → (done : List Toml) → Scan Toml
  | 0, _, _ => failure
  | fuel + 1, levels, done => do
    gap
    if ← text? [']'] then pure (array done.reverse)
    else do
      let item ← value fuel levels
      gap
      if ← text? [','] then items fuel levels (item :: done)
      else do
        char ']'
        pure (array (item :: done).reverse)

def pairs : (fuel levels : Nat) → (done : Entries) → Scan Toml
  | 0, _, _ => failure
  | fuel + 1, levels, done => do
    let parts ← key
    char '='
    spaces
    let v ← value fuel levels
    spaces
    let done ← (addDotted? parts v done : Option Entries)
    if ← text? [','] then pairs fuel levels done
    else do
      char '\x7d'
      pure (table .inline done)

end

def anyValue : Scan Toml := fun cs => value (cs.length + 1) deepest cs

/-- What is known behind a line: all entries, and the table that is open. -/
structure Document where
  entries : Entries
  position : List String

def pairLine (d : Document) : Scan Document := do
  let parts ← key
  char '='
  spaces
  let v ← anyValue
  lineEnd
  let entries ← (changeAt (addDotted? parts v) d.position d.entries : Option Entries)
  pure { d with entries }

def headerLine (d : Document) : Scan Document := do
  if ← text? ['[', '['] then do
    let path ← key
    text "]]"
    lineEnd
    let entries ← (openRow? path d.entries : Option Entries)
    pure ⟨entries, path⟩
  else do
    char '['
    let path ← key
    char ']'
    lineEnd
    let entries ← (openTable? path d.entries : Option Entries)
    pure ⟨entries, path⟩

def lines : (fuel : Nat) → Document → Scan Entries
  | 0, _ => failure
  | fuel + 1, d => do
    gap
    match ← peek with
    | none => pure d.entries
    | some '[' => do
      let d ← headerLine d
      lines fuel d
    | some _ => do
      let d ← pairLine d
      lines fuel d

def byteOrderMark : Char := Char.ofNat 0xFEFF

def read? (text : String) : Option Entries :=
  let cs := text.toList
  let cs := if cs.head? = some byteOrderMark then cs.drop 1 else cs
  (lines (cs.length + 1) ⟨[], []⟩ cs).map (·.1)

end DesignComponents.Toml
