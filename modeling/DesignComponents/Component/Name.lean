import DesignComponents.Text.Blank

/-!
# Component names

A component is named by an identifier made from a layer's name: its words joined, each with a
capital first letter, without anything that is no ASCII letter or digit. A scaffold and its
directory spell the identifier in lower case with hyphens.
-/

namespace DesignComponents

def defaultComponentName : String := "Component"

def capitalize : List Char → List Char
  | [] => []
  | c :: cs => c.toUpper :: cs

def joinedWords (raw : List Char) : List Char :=
  (wordsOf raw).flatMap fun word => capitalize (word.filter Char.isAlphanum)

/-- The identifier for a name. Digits in front are dropped, since none may begin with one. -/
def identifierChars (raw : List Char) : List Char :=
  let name := capitalize ((joinedWords raw).dropWhile Char.isDigit)
  if name.isEmpty then defaultComponentName.toList else name

def componentName (raw : String) : String := String.ofList (identifierChars raw.toList)

/-- Whether a capital behind this character begins a part of its own. -/
def endsPart : Option Char → Bool
  | some c => c.isLower || c.isDigit
  | none => false

/-- Lower case with a hyphen before every capital that begins a part, and for every underscore.
`before` is the character in front. -/
def kebabChars (before : Option Char) : List Char → List Char
  | [] => []
  | c :: cs =>
    let rest := kebabChars (some c) cs
    if c = '_' then '-' :: rest
    else if c.isUpper && endsPart before then '-' :: c.toLower :: rest
    else c.toLower :: rest

def kebabCase (identifier : String) : String := String.ofList (kebabChars none identifier.toList)

end DesignComponents
