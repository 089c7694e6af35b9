/-!
# Credentials

What a request shows to be let in: a personal token, or one that was issued to an application.
-/

namespace DesignComponents

inductive Credential where
  | personal (token : String)
  | bearer (token : String)
  deriving DecidableEq, Repr

structure Header where
  name : String
  value : String
  deriving DecidableEq, Repr

namespace Credential

def token : Credential → String
  | personal token => token
  | bearer token => token

def header : Credential → Header
  | personal token => ⟨"x-figma-token", token⟩
  | bearer token => ⟨"authorization", "Bearer " ++ token⟩

/-- Whether a character may stand in the value of a header: no control but the tab. -/
def isSendableChar (c : Char) : Bool := c == '\t' || (' ' ≤ c && c ≠ '\x7f')

def isSendable (c : Credential) : Bool :=
  !c.token.isEmpty && c.token.toList.all isSendableChar

end Credential

end DesignComponents
