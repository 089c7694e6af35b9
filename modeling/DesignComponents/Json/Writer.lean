import DesignComponents.Json.Value
import DesignComponents.Text.Hex

/-!
# Writing JSON

Two layouts of the same value: on one line without blanks, and indented by two blanks a level.
Strings escape quotes, backslashes and control characters only.
-/

namespace DesignComponents.Json

def escapeChar (c : Char) : List Char :=
  if c = '"' then ['\\', '"']
  else if c = '\\' then ['\\', '\\']
  else if c = '\n' then ['\\', 'n']
  else if c = '\r' then ['\\', 'r']
  else if c = '\t' then ['\\', 't']
  else if c = '\x08' then ['\\', 'b']
  else if c = '\x0c' then ['\\', 'f']
  else if c.toNat < 0x20 then ['\\', 'u', '0', '0'] ++ hexPair (UInt8.ofNat c.toNat)
  else [c]

def quoted (s : String) : List Char := '"' :: s.toList.flatMap escapeChar ++ ['"']

mutual

def compactChars : Json → List Char
  | null => ['n', 'u', 'l', 'l']
  | bool true => ['t', 'r', 'u', 'e']
  | bool false => ['f', 'a', 'l', 's', 'e']
  | integer n => (toString n).toList
  | float x => x.jsonChars
  | string s => quoted s
  | array items => '[' :: compactItems items ++ [']']
  | object fields => '\x7b' :: compactFields fields ++ ['\x7d']
  | void => ['n', 'u', 'l', 'l']

def compactItems : List Json → List Char
  | [] => []
  | [j] => compactChars j
  | j :: rest => compactChars j ++ ',' :: compactItems rest

def compactFields : List (String × Json) → List Char
  | [] => []
  | [(k, v)] => quoted k ++ ':' :: compactChars v
  | (k, v) :: rest => quoted k ++ ':' :: compactChars v ++ ',' :: compactFields rest

end

def compact (j : Json) : String := String.ofList j.compactChars

def newLine (level : Nat) : List Char := '\n' :: List.replicate (2 * level) ' '

mutual

def indentedChars (level : Nat) : Json → List Char
  | array [] => ['[', ']']
  | array items => '[' :: indentedItems (level + 1) items ++ newLine level ++ [']']
  | object [] => ['\x7b', '\x7d']
  | object fields => '\x7b' :: indentedFields (level + 1) fields ++ newLine level ++ ['\x7d']
  | j => compactChars j

def indentedItems (level : Nat) : List Json → List Char
  | [] => []
  | [j] => newLine level ++ indentedChars level j
  | j :: rest => newLine level ++ indentedChars level j ++ ',' :: indentedItems level rest

def indentedFields (level : Nat) : List (String × Json) → List Char
  | [] => []
  | [(k, v)] => newLine level ++ quoted k ++ ':' :: ' ' :: indentedChars level v
  | (k, v) :: rest =>
    newLine level ++ quoted k ++ ':' :: ' ' :: indentedChars level v ++
      ',' :: indentedFields level rest

end

def indented (j : Json) : String := String.ofList (j.indentedChars 0)

end DesignComponents.Json
