import DesignComponents.Text.Blank

/-!
# Paths

Paths as text, with slashes between their parts. Joining keeps the text of both sides; nothing
is resolved.
-/

namespace DesignComponents.Path

def isAbsolute (path : String) : Bool := path.toList.head? == some '/'

/-- The second path seen from the first. An absolute one stands for itself. -/
def join (base path : String) : String :=
  if isAbsolute path || base.isEmpty then path
  else if base.toList.getLast? == some '/' then base ++ path
  else base ++ "/" ++ path

def parts (path : String) : List String :=
  ((splitBy (· == '/') path.toList).filter (· ≠ [])).map String.ofList

/-- The parts without the dots that stay in place, except one that begins a path. -/
def significantParts (path : String) : List String :=
  match parts path with
  | "." :: rest => if isAbsolute path then rest.filter (· ≠ ".") else "." :: rest.filter (· ≠ ".")
  | ps => ps.filter (· ≠ ".")

end DesignComponents.Path
