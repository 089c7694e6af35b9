import DesignComponents.Framework

/-!
# Escaping

Text and attribute values are escaped one character after the other: ampersands first, so that
the entities put in later keep theirs.
-/

namespace DesignComponents

def replaceChar (c : Char) (by_ : List Char) (cs : List Char) : List Char :=
  cs.flatMap fun d => if d = c then by_ else [d]

namespace Markup

def ampersand : List Char := "&amp;".toList

def less : List Char := "&lt;".toList

def greater : List Char := "&gt;".toList

def quote : List Char := "&quot;".toList

def openBrace : List Char := "&#123;".toList

def closeBrace : List Char := "&#125;".toList

def escapeChars (cs : List Char) : List Char :=
  replaceChar '"' quote (replaceChar '>' greater (replaceChar '<' less
    (replaceChar '&' ampersand cs)))

def escape (s : String) : String := String.ofList (escapeChars s.toList)

/-- The text for use between tags, where a brace may open an expression. -/
def escapeTextChars (f : Framework) (cs : List Char) : List Char :=
  match f with
  | .react => replaceChar '\x7d' closeBrace (replaceChar '\x7b' openBrace (escapeChars cs))
  | _ => escapeChars cs

def escapeText (f : Framework) (s : String) : String :=
  String.ofList (escapeTextChars f s.toList)

end Markup

end DesignComponents
