import DesignComponents.Text.Blank
import DesignComponents.Url.Percent

/-!
# Queries

A query is a list of names with values: pairs between ampersands, each parted by its first
equals sign, in which a plus stands for a blank and percent signs for bytes.
-/

namespace DesignComponents.Url

def decodePart (cs : List Char) : List Char :=
  let plussed := cs.map fun c => if c = '+' then ' ' else c
  Utf8.lenient (percentDecode (Utf8.bytes plussed))

def decodePair (cs : List Char) : String × String :=
  (String.ofList (decodePart (cs.takeWhile (· ≠ '='))),
    String.ofList (decodePart ((cs.dropWhile (· ≠ '=')).drop 1)))

/-- The pairs of a query; empty ones are passed over. -/
def queryPairs (query : String) : List (String × String) :=
  ((splitBy (· == '&') query.toList).filter (· ≠ [])).map decodePair

end DesignComponents.Url
